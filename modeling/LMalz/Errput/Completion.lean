import LMalz.Errput.Render
import LMalz.Lib.Fueled
import LMalz.Lib.Numeral

/- print emits the text of its format, if no string argument lies where it is written. -/
namespace LMalz.Errput
open Fueled (Completes)

section Loops
variable {o : Output} {cs : List Byte} {string : Source} {fuel : Nat} {width : BitVec 32} {pad : Pad}
  {pc : BitVec 32}

theorem strlen_eq {char : Nat → Byte} (h : IsString char cs) {k : Nat} (inside : k ≤ cs.length) :
    strlen char fuel k = if cs.length - k < fuel then some cs.length else none := by
  induction fuel generalizing k with
  | zero => rw [strlen, if_neg (Nat.not_lt_zero _)]
  | succ fuel ih =>
      rw [strlen]
      rcases Nat.lt_or_eq_of_le inside with before | rfl
      · have plain : char k ≠ 0 := by
          rw [h.text k before]
          exact fun zero => h.plain (zero ▸ List.getElem_mem before)
        rw [if_neg plain, ih before]
        have same : cs.length - (k + 1) < fuel ↔ cs.length - k < fuel + 1 := by omega
        simp only [same]
      · rw [if_pos h.stop, if_pos (by omega)]

theorem count_succ (pc : BitVec 32) (n : Nat) : pc + 1 + BitVec.ofNat 32 n = pc + BitVec.ofNat 32 (n + 1) := by
  rw [BitVec.ofNat_add, BitVec.add_assoc, BitVec.add_comm 1]
  rfl

theorem padLoop_eq (c : Byte) (n : Nat) (o : Output) (pc : BitVec 32) :
    padLoop c n o pc = (o.emit (List.replicate n c), pc + BitVec.ofNat 32 n) := by
  induction n generalizing o pc with
  | zero => simp [padLoop, Output.emit]
  | succ n ih =>
      rw [padLoop, ih, List.replicate_succ, count_succ]
      rfl

/-- The string stays what it is while some text is written. -/
theorem stringLoop_eq (fuel : Nat) (pc : BitVec 32) (before rest : List Byte) (whole : cs = before ++ rest)
    (stays : ∀ done, done <+: rest → IsString (string.char (o.emit done).memory) cs) :
    stringLoop string fuel before.length o pc =
      if rest.length < fuel then some (o.emit rest, pc + BitVec.ofNat 32 rest.length) else none := by
  induction fuel generalizing o before rest pc with
  | zero => rw [stringLoop, if_neg (Nat.not_lt_zero _)]
  | succ fuel ih =>
      have here : IsString (string.char o.memory) cs := stays [] List.nil_prefix
      rw [stringLoop]
      cases rest with
      | nil =>
          have last : before.length = cs.length := by rw [whole, List.append_nil]
          rw [last, if_pos here.stop, List.length_nil, if_pos (Nat.succ_pos fuel)]
          simp [Output.emit]
      | cons c rest =>
          have inside : before.length < cs.length := by
            rw [whole, List.length_append, List.length_cons]
            omega
          have char : string.char o.memory before.length = c := by
            rw [here.text _ inside]
            simp [whole]
          have plain : c ≠ 0 := by
            rintro rfl
            exact here.plain (whole ▸ List.mem_append_right _ List.mem_cons_self)
          have next := ih (o := printchar o c) (pc + 1) (before ++ [c]) rest (by simp [whole])
            fun done first => stays (c :: done) (List.cons_prefix_cons.mpr ⟨rfl, first⟩)
          rw [List.length_append, List.length_singleton] at next
          rw [char, if_neg plain, next, List.length_cons, count_succ]
          simp only [Nat.add_lt_add_iff_right]
          rfl

theorem length_padded (cs : List Byte) (width : BitVec 32) (pad : Pad) :
    (padded cs width pad).length = cs.length + padding cs.length width := by
  unfold padded
  dsimp only
  split
  · rw [List.length_append, List.length_replicate]
  · rw [List.length_append, List.length_replicate, Nat.add_comm]

/-- The loops for padding, on either side of the string. -/
theorem prints_loops (fuel n : Nat) (c : Byte) (text : List Byte)
    (whole : text = if pad.right then cs ++ List.replicate n c else List.replicate n c ++ cs)
    (stays : ∀ done, done <+: text → IsString (string.char (o.emit done).memory) cs) :
    (do
      let (o, pc) := if pad.right then (o, 0) else padLoop c n o 0
      let rest := if pad.right then n else 0
      let (o, pc) ← stringLoop string fuel 0 o pc
      return padLoop c rest o pc) =
      if cs.length < fuel then some (o.emit text, BitVec.ofNat 32 text.length) else none := by
  cases right : pad.right with
  | true =>
      rw [right, if_pos rfl] at whole
      have loop := stringLoop_eq (o := o) fuel 0 [] cs rfl
        fun done first => stays done (first.trans (whole ▸ List.prefix_append _ _))
      rw [List.length_nil] at loop
      simp only [if_true, loop]
      split
      · simp [padLoop_eq, whole, emit_append, BitVec.ofNat_add]
      · rfl
  | false =>
      rw [right] at whole
      simp only [Bool.false_eq_true, if_false] at whole
      have loop := stringLoop_eq (o := o.emit (List.replicate n c)) fuel (0 + BitVec.ofNat 32 n) [] cs rfl
        fun done first => by
          rw [← emit_append]
          exact stays _ (whole ▸ (List.prefix_append_right_inj _).mpr first)
      rw [List.length_nil] at loop
      simp only [Bool.false_eq_true, if_false, padLoop_eq, loop]
      split
      · simp [whole, emit_append, BitVec.ofNat_add]
      · rfl

/-- prints emits the padded string, if there is fuel for it. -/
theorem prints_eq (stays : ∀ done : List Byte, done.length ≤ (padded cs width pad).length →
      IsString (string.char (o.emit done).memory) cs) :
    prints fuel o string width pad = if cs.length < fuel then
      some (o.emit (padded cs width pad), BitVec.ofNat 32 (padded cs width pad).length) else none := by
  have here : IsString (string.char o.memory) cs := stays [] (Nat.zero_le _)
  have loops (n : Nat) (c : Byte) (whole : padded cs width pad =
      if pad.right then cs ++ List.replicate n c else List.replicate n c ++ cs) :=
    prints_loops (o := o) fuel n c _ whole
      fun done first => stays done first.length_le
  by_cases positive : 0 < width.toInt
  · have count : padding cs.length width = (padWidth cs.length width).toInt.toNat := if_pos positive
    have whole := loops (padWidth cs.length width).toInt.toNat (if pad.zero then chr '0' else chr ' ')
      (by rw [padded, count])
    refine Eq.trans ?_ whole
    simp only [prints, strlen_eq here (Nat.zero_le _), Nat.sub_zero, positive, true_and]
    by_cases enough : cs.length < fuel
    · rw [if_pos enough]
      rfl
    · rw [if_neg enough] at whole ⊢
      exact whole.symm
  · have count : padding cs.length width = width.toInt.toNat := by
      rw [padding, if_neg positive]
      omega
    have none : width.toInt.toNat = 0 := by omega
    have whole := loops width.toInt.toNat (chr ' ') (by rw [padded, count, none]; rfl)
    refine Eq.trans ?_ whole
    simp only [prints, positive, false_and, if_false]
    rfl

/-- print_buf holds the numeral of any word. -/
theorem digitLoop_eq {b : Nat} (base : 1 < b) (letbase : Byte) {room u : Nat} (small : u < b ^ room)
    (s : List Byte) :
    digitLoop b letbase room u s = (Numeral.digits b u).map (digitChar letbase) ++ s := by
  induction room generalizing u s with
  | zero =>
      have zero : u = 0 := by simpa using small
      rw [digitLoop, zero, Numeral.digits_zero]
      rfl
  | succ room ih =>
      rw [digitLoop]
      by_cases zero : u = 0
      · rw [if_pos zero, zero, Numeral.digits_zero]
        rfl
      · have less : u / b < b ^ room := by
          rw [Nat.div_lt_iff_lt_mul (by omega), ← Nat.pow_succ]
          exact small
        rw [if_neg zero, ih less, Numeral.digits_step base zero, List.map_append, List.append_assoc]
        rfl

theorem digitText_eq {b : Nat} (base : 10 ≤ b) (letbase : Byte) (u : BitVec 64) :
    digitText b letbase u = (Numeral.digits b u.toNat).map (digitChar letbase) := by
  have room : u.toNat < b ^ (PRINT_BUF_LEN - 1) := by
    calc u.toNat < 2 ^ 64 := u.isLt
      _ ≤ 10 ^ 63 := by norm_num
      _ ≤ b ^ 63 := Nat.pow_le_pow_left base 63
  rw [digitText, digitLoop_eq (by omega) letbase room, List.append_nil]

/-- The letters of printi in the bases it is called for. -/
structure Letters (b : Nat) (letbase : Byte) : Prop where
  base : b = 10 ∨ b = 16
  letbase : letbase = chr 'a' ∨ letbase = chr 'A'

namespace Letters
variable {b t : Nat} {letbase : Byte}

theorem decimal : Letters 10 (chr 'a') := ⟨.inl rfl, .inl rfl⟩
theorem hex : Letters 16 (chr 'a') := ⟨.inr rfl, .inl rfl⟩
theorem upperHex : Letters 16 (chr 'A') := ⟨.inr rfl, .inr rfl⟩

theorem ten_le (h : Letters b letbase) : 10 ≤ b := by rcases h.base with rfl | rfl <;> decide

theorem one_lt (h : Letters b letbase) : 1 < b := Nat.lt_of_lt_of_le (by decide) h.ten_le

theorem digit_small (h : Letters b letbase) (digit : t < b) : t < 16 := by
  rcases h.base with rfl | rfl <;> omega

theorem digitChar_ne (h : Letters b letbase) (digit : t < b) : digitChar letbase t ≠ 0 := by
  have small := h.digit_small digit
  have all : ∀ t < 16, digitChar (chr 'a') t ≠ 0 ∧ digitChar (chr 'A') t ≠ 0 := by decide
  rcases h.letbase with rfl | rfl
  · exact (all t small).1
  · exact (all t small).2

theorem plain (h : Letters b letbase) (u : BitVec 64) : 0 ∉ digitText b letbase u := by
  have base := h.ten_le
  rw [digitText_eq base]
  intro zero
  obtain ⟨t, digit, same⟩ := List.mem_map.mp zero
  exact h.digitChar_ne (Numeral.digits_lt (by omega) digit) same

end Letters

theorem cons_plain {c : Byte} {cs : List Byte} (first : c ≠ 0) (plain : 0 ∉ cs) : 0 ∉ c :: cs :=
  fun zero => (List.mem_cons.mp zero).elim (fun same => first same.symm) plain

theorem prints_buffer (fuel : Nat) (o : Output) (width : BitVec 32) (pad : Pad) (plain : 0 ∉ cs) :
    prints fuel o (.buffer cs) width pad = if cs.length < fuel then
      some (o.emit (padded cs width pad), BitVec.ofNat 32 (padded cs width pad).length) else none :=
  prints_eq fun done _ => isString_buffer (o.emit done).memory plain

theorem completes_buffer (o : Output) (width : BitVec 32) (pad : Pad) (plain : 0 ∉ cs) :
    Completes (fun fuel => prints fuel o (.buffer cs) width pad)
      (o.emit (padded cs width pad), BitVec.ofNat 32 (padded cs width pad).length) :=
  .loop fun fuel => prints_buffer fuel o width pad plain

theorem printi_completes {b : Nat} {letbase : Byte} (h : Letters b letbase) (o : Output) (i : BitVec 64)
    (sg : Bool) (width : BitVec 32) (pad : Pad) :
    let text := numberText i b sg width pad letbase
    Completes (fun fuel => printi fuel o i b sg width pad letbase) (o.emit text, BitVec.ofNat 32 text.length) := by
  unfold printi numberText
  by_cases zero : i = 0
  · simp only [if_pos zero]
    exact completes_buffer o width pad (by decide)
  simp only [if_neg zero]
  by_cases neg : sg = true ∧ b = 10 ∧ i.toInt < 0
  · simp only [if_pos neg]
    by_cases first : width ≠ 0 ∧ pad.zero = true
    · simp only [if_pos first]
      have rest := (completes_buffer (printchar o (chr '-')) (width - 1) pad (h.plain (-i))).map
        fun (r : Output × BitVec 32) => (r.1, 1 + r.2)
      rw [List.length_cons, Nat.add_comm, BitVec.ofNat_add]
      exact rest
    · simp only [if_neg first]
      exact completes_buffer o width pad (cons_plain (by decide) (h.plain _))
  · simp only [if_neg neg]
    exact completes_buffer o width pad (h.plain _)

end Loops

section Print
variable {strings : BitVec 64 → List Byte} {o : Output} {text : List Byte} {len : Nat} {arg : BitVec 64}

/-- A string argument lies in memory, and no part of it where the call is going to write. -/
structure Clear (strings : BitVec 64 → List Byte) (m : Memory) (start : Int) (len : Nat) (arg : BitVec 64) :
    Prop where
  string : IsString (fun k => m (arg.toNat + k)) (strings arg)
  apart : arg.toNat + (strings arg).length < start ∨ start + len < arg.toNat

/-- The string arguments of a format, NULL aside. -/
def stringArguments : Nat → List Byte → (Nat → BitVec 64) → List (BitVec 64)
  | 0, _, _ => []
  | steps + 1, format, varg =>
      match scan format with
      | .stop | .cut => []
      | .char _ rest => stringArguments steps rest varg
      | .conversion _ _ c rest =>
          if takesArgument c then
            (if c = chr 's' ∧ varg 0 ≠ 0 then [varg 0] else []) ++
              stringArguments steps rest fun n => varg (n + 1)
          else stringArguments steps rest varg

theorem Clear.emit (h : Clear strings o.memory o.str len arg) (text : List Byte) (fits : text.length ≤ len) :
    Clear strings (o.emit text).memory (o.emit text).str (len - text.length) arg := by
  have same (k : Nat) (inside : k ≤ (strings arg).length) :
      (o.emit text).memory (arg.toNat + k) = o.memory (arg.toNat + k) := by
    apply emit_memory_frame
    rcases h.apart with before | behind
    · exact .inl (by omega)
    · exact .inr (by omega)
  refine ⟨⟨?_, h.string.plain, ?_⟩, ?_⟩
  · intro k inside
    exact (same k inside.le).trans (h.string.text k inside)
  · exact (same _ (Nat.le_refl _)).trans h.string.stop
  · rw [emit_str]
    rcases h.apart with before | behind
    · exact .inl (by omega)
    · exact .inr (by omega)

theorem printConversion_completes (pad : Pad) (width : BitVec 32) {c : Byte}
    (clear : c = chr 's' ∧ arg ≠ 0 → Clear strings o.memory o.str len arg)
    (fits : (conversionText strings pad width c arg).length ≤ len) :
    let text := conversionText strings pad width c arg
    Completes (fun fuel => printConversion fuel o pad width c arg) (o.emit text, BitVec.ofNat 32 text.length) := by
  unfold printConversion conversionText at *
  by_cases string : c = chr 's'
  · simp only [if_pos string] at fits ⊢
    by_cases null : arg = 0
    · simp only [if_pos null]
      exact completes_buffer o width pad (by decide)
    · simp only [if_neg null] at fits ⊢
      refine .loop fun fuel => prints_eq fun done short => ?_
      exact ((clear ⟨string, null⟩).emit done (short.trans fits)).string
  simp only [if_neg string]
  by_cases d : c = chr 'd'
  · simp only [if_pos d]
    exact printi_completes .decimal o _ true width pad
  simp only [if_neg d]
  by_cases x : c = chr 'x'
  · simp only [if_pos x]
    exact printi_completes .hex o _ false width pad
  simp only [if_neg x]
  by_cases X : c = chr 'X'
  · simp only [if_pos X]
    exact printi_completes .upperHex o _ false width pad
  simp only [if_neg X]
  by_cases u : c = chr 'u'
  · simp only [if_pos u]
    exact printi_completes .decimal o _ false width pad
  simp only [if_neg u]
  by_cases p : c = chr 'p'
  · simp only [if_pos p]
    have rest := (printi_completes .upperHex (printchar (printchar o (chr '0')) (chr 'x')) arg false 16 ⟨false, true⟩).map
      fun (r : Output × BitVec 32) => (r.1, 2 + r.2)
    rw [List.length_cons, List.length_cons, Nat.add_assoc, Nat.add_comm, BitVec.ofNat_add]
    exact rest
  simp only [if_neg p]
  by_cases zero : arg.setWidth 8 = (0 : Byte)
  · simp only [zero, if_true]
    refine .loop fun fuel => prints_eq fun done _ => ⟨fun k inside => absurd inside (Nat.not_lt_zero k), ?_, rfl⟩
    exact List.not_mem_nil
  · simp only [if_neg zero]
    refine completes_buffer o width pad fun null => zero ?_
    exact (List.mem_singleton.mp null).symm

theorem printLoop_completes {steps : Nat} {format : List Byte} {varg : Nat → BitVec 64} (pc : BitVec 32)
    (rendered : renderLoop strings steps format varg = some text)
    (clear : ∀ arg ∈ stringArguments steps format varg, Clear strings o.memory o.str text.length arg) :
    Completes (fun fuel => printLoop fuel steps o format varg pc)
      ((o.emit text).terminate, pc + BitVec.ofNat 32 text.length) := by
  induction steps generalizing o format varg pc text with
  | zero => cases rendered
  | succ steps ih =>
      rw [renderLoop] at rendered
      rw [stringArguments] at clear
      simp only [printLoop]
      cases next : scan format with
      | stop =>
          rw [next] at rendered
          cases rendered
          simpa using Completes.pure _
      | cut =>
          rw [next] at rendered
          cases rendered
      | char c rest =>
          rw [next] at rendered clear
          obtain ⟨tail, behind, rfl⟩ := Option.map_eq_some_iff.mp rendered
          have tailClear : ∀ arg ∈ stringArguments steps rest varg,
              Clear strings (printchar o c).memory (printchar o c).str tail.length arg := fun arg used =>
            (clear arg used).emit [c] (Nat.succ_le_succ (Nat.zero_le _))
          have run := ih (pc + 1) behind tailClear
          rw [count_succ] at run
          exact run
      | conversion pad width c rest =>
          rw [next] at rendered clear
          dsimp only at rendered clear ⊢
          by_cases takes : takesArgument c = true
          · rw [if_pos takes] at rendered clear
            obtain ⟨tail, behind, rfl⟩ := Option.map_eq_some_iff.mp rendered
            simp only [if_pos takes]
            have fits : (conversionText strings pad width c (varg 0)).length ≤
                (conversionText strings pad width c (varg 0) ++ tail).length := by
              rw [List.length_append]
              exact Nat.le_add_right _ _
            have first := printConversion_completes pad width
              (fun used => clear _ (List.mem_append_left _ (by rw [if_pos used]; exact List.mem_singleton_self _)))
              fits
            refine first.bind ?_
            have run := ih (o := o.emit (conversionText strings pad width c (varg 0)))
              (pc + BitVec.ofNat 32 (conversionText strings pad width c (varg 0)).length) behind
              fun arg used => by
                have whole := (clear arg (List.mem_append_right _ used)).emit _ fits
                simpa using whole
            rw [List.length_append, BitVec.ofNat_add, ← BitVec.add_assoc, emit_append]
            exact run
          · rw [if_neg takes] at rendered clear
            simp only [if_neg takes]
            exact ih pc rendered clear

theorem print_completes {format : List Byte} {varg : Nat → BitVec 64} (rendered : render strings format varg = some text)
    (clear : ∀ arg ∈ stringArguments (format.length + 1) format varg,
      Clear strings o.memory o.str text.length arg) :
    Completes (fun fuel => print fuel o format varg) ((o.emit text).terminate, BitVec.ofNat 32 text.length) := by
  have run := printLoop_completes 0 rendered clear
  rw [show (0 : BitVec 32) + BitVec.ofNat 32 text.length = BitVec.ofNat 32 text.length from BitVec.zero_add _] at run
  exact run

end Print

end LMalz.Errput
