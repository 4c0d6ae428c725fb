import LMalz.Errput.NumberText

/- Formats of text and numeric conversions, and what print makes of them. -/
namespace LMalz.Errput
open Fueled (Completes)

inductive Conv where
  | d
  | u
  | x
  | X
  | p

def Conv.char : Conv → Byte
  | .d => chr 'd'
  | .u => chr 'u'
  | .x => chr 'x'
  | .X => chr 'X'
  | .p => chr 'p'

/-- A conversion: `%`, an optional `-`, zeros, and the width without a leading zero. -/
structure Spec where
  left : Bool
  zeros : Nat
  width : Nat
  conv : Conv

inductive Piece where
  | literal (c : Byte) (plain : c ≠ 0 ∧ c ≠ chr '%')
  | percent
  | conversion (spec : Spec)

/-- The digits of a width; none for 0. -/
def decimal (w : Nat) : List Byte := (Numeral.digits 10 w).map (digitChar (chr 'a'))

def Spec.flags (s : Spec) : List Byte :=
  (if s.left then [chr '-'] else []) ++ List.replicate s.zeros (chr '0') ++ decimal s.width ++ [s.conv.char]

def Piece.text : Piece → List Byte
  | .literal c _ => [c]
  | .percent => [chr '%', chr '%']
  | .conversion s => chr '%' :: s.flags

def encode (pieces : List Piece) : List Byte := pieces.flatMap Piece.text

def Spec.pad (s : Spec) : Pad := ⟨s.left, decide (0 < s.zeros)⟩

section Scan
variable (rest : List Byte)

theorem takeZeros_replicate (n : Nat) {c : Byte} (other : c ≠ chr '0') :
    takeZeros (List.replicate n (chr '0') ++ c :: rest) = (decide (0 < n), c :: rest) := by
  induction n with
  | zero => simp [takeZeros, other]
  | succ n ih =>
      rw [List.replicate_succ, List.cons_append, takeZeros, if_pos rfl, ih]
      simp

/-- Digit by digit the width grows to the value, modulo 2^32. -/
theorem takeWidth_digits {ds : List Nat} (known : ∀ d ∈ ds, d < 10) (v : Nat) {c : Byte}
    (other : ¬ (chr '0' ≤ c ∧ c ≤ chr '9')) :
    takeWidth (BitVec.ofNat 32 v) (ds.map (digitChar (chr 'a')) ++ c :: rest) =
      (BitVec.ofNat 32 (ds.foldl (fun v d => v * 10 + d) v), c :: rest) := by
  have digit : ∀ d < 10, (chr '0' ≤ digitChar (chr 'a') d ∧ digitChar (chr 'a') d ≤ chr '9') ∧
      (digitChar (chr 'a') d - chr '0').setWidth 32 = BitVec.ofNat 32 d := by decide
  induction ds generalizing v with
  | nil =>
      rw [List.map_nil, List.nil_append, takeWidth, if_neg other]
      rfl
  | cons d ds ih =>
      obtain ⟨range, value⟩ := digit d (known d List.mem_cons_self)
      have next : BitVec.ofNat 32 v * 10 + BitVec.ofNat 32 d = BitVec.ofNat 32 (v * 10 + d) := by
        rw [BitVec.ofNat_add, BitVec.ofNat_mul]
        rfl
      rw [List.map_cons, List.cons_append, takeWidth, if_pos range, value, next,
        ih fun e later => known e (List.mem_cons_of_mem _ later)]
      rfl

theorem takeWidth_decimal (w : Nat) {c : Byte} (other : ¬ (chr '0' ≤ c ∧ c ≤ chr '9')) :
    takeWidth 0 (decimal w ++ c :: rest) = (BitVec.ofNat 32 w, c :: rest) := by
  have read := takeWidth_digits rest (fun d digit => Numeral.digits_lt (b := 10) (n := w) (by decide) digit) 0 other
  have value := Numeral.value_digits (b := 10) (by decide) w
  rw [Numeral.value] at value
  rw [value] at read
  exact read

theorem conv_char (conv : Conv) : ¬ (chr '0' ≤ conv.char ∧ conv.char ≤ chr '9') ∧ conv.char ≠ 0 ∧
    conv.char ≠ chr '%' ∧ conv.char ≠ chr '-' ∧ conv.char ≠ chr '0' := by
  cases conv <;> decide

/-- What follows the zeros is no zero. -/
theorem decimal_head (w : Nat) (conv : Conv) :
    ∃ c tail, decimal w ++ conv.char :: rest = c :: tail ∧ c ≠ 0 ∧ c ≠ chr '%' ∧ c ≠ chr '-' ∧ c ≠ chr '0' := by
  cases first : Numeral.digits 10 w with
  | nil =>
      obtain ⟨-, h⟩ := conv_char conv
      exact ⟨conv.char, rest, by rw [decimal, first]; rfl, h⟩
  | cons d ds =>
      have pos := Numeral.digits_head first
      have small : d < 10 := Numeral.digits_lt (b := 10) (n := w) (by decide) (first ▸ List.mem_cons_self)
      have plain : ∀ d < 10, d ≠ 0 → digitChar (chr 'a') d ≠ 0 ∧ digitChar (chr 'a') d ≠ chr '%' ∧
          digitChar (chr 'a') d ≠ chr '-' ∧ digitChar (chr 'a') d ≠ chr '0' := by decide
      exact ⟨_, _, by rw [decimal, first]; rfl, plain d small pos⟩

theorem scan_conversion (s : Spec) (rest : List Byte) : scan (chr '%' :: (s.flags ++ rest)) =
    .conversion s.pad (BitVec.ofNat 32 s.width) s.conv.char rest := by
  obtain ⟨c, tail, whole, zero, percent, minus, other⟩ := decimal_head rest s.width s.conv
  obtain ⟨range, stop, -⟩ := conv_char s.conv
  have flags : s.flags ++ rest =
      (if s.left then [chr '-'] else []) ++ (List.replicate s.zeros (chr '0') ++ (c :: tail)) := by
    rw [← whole, Spec.flags]
    simp only [List.append_assoc, List.singleton_append]
  have zeros := takeZeros_replicate tail s.zeros other
  have width := takeWidth_decimal rest s.width range
  rw [whole] at width
  have behind : ∃ d ds, List.replicate s.zeros (chr '0') ++ (c :: tail) = d :: ds ∧ d ≠ 0 ∧ d ≠ chr '%' ∧
      d ≠ chr '-' := by
    cases s.zeros with
    | zero => exact ⟨c, tail, rfl, zero, percent, minus⟩
    | succ n => exact ⟨chr '0', _, rfl, by decide, by decide, by decide⟩
  have start : ¬ chr '%' = 0 := by decide
  rw [flags]
  cases left : s.left with
  | true =>
      have first : ¬ chr '-' = 0 := by decide
      have other : ¬ chr '-' = chr '%' := by decide
      unfold scan
      simp only [if_neg start, ne_eq, not_true_eq_false, if_true, List.singleton_append, if_neg first,
        if_neg other, if_false, zeros, width, if_neg stop, decide_true, Spec.pad, left]
  | false =>
      obtain ⟨d, ds, text, first, other, unsigned⟩ := behind
      rw [text] at zeros
      unfold scan
      simp only [if_neg start, ne_eq, not_true_eq_false, Bool.false_eq_true, if_false, List.nil_append, text,
        if_neg first, if_neg other, zeros, width, if_neg stop, Spec.pad, left, unsigned,
        decide_false]

end Scan

/-- What a conversion prints for its argument. -/
def Spec.printed (s : Spec) (arg : BitVec 64) : List Byte :=
  conversionText (fun _ => []) s.pad (BitVec.ofNat 32 s.width) s.conv.char arg

def rendered : List Piece → (Nat → BitVec 64) → List Byte
  | [], _ => []
  | .literal c _ :: ps, varg => c :: rendered ps varg
  | .percent :: ps, varg => chr '%' :: rendered ps varg
  | .conversion s :: ps, varg => s.printed (varg 0) ++ rendered ps fun n => varg (n + 1)

/-- The arguments that are used up behind some pieces. -/
def arguments : List Piece → Nat
  | [] => 0
  | .conversion _ :: ps => arguments ps + 1
  | _ :: ps => arguments ps

section Rendered
variable {varg : Nat → BitVec 64}

theorem rendered_append (ps qs : List Piece) (varg : Nat → BitVec 64) :
    rendered (ps ++ qs) varg = rendered ps varg ++ rendered qs fun n => varg (n + arguments ps) := by
  induction ps generalizing varg with
  | nil => rfl
  | cons piece ps ih =>
      cases piece with
      | literal c plain => exact congrArg (c :: ·) (ih varg)
      | percent => exact congrArg (chr '%' :: ·) (ih varg)
      | conversion s =>
          rw [List.cons_append, rendered, rendered, ih, List.append_assoc]
          rfl

theorem takesArgument_char (conv : Conv) : takesArgument conv.char = true ∧ conv.char ≠ chr 's' := by
  cases conv <;> decide

theorem scan_literal {c : Byte} (plain : c ≠ 0 ∧ c ≠ chr '%') (rest : List Byte) :
    scan (c :: rest) = .char c rest := by
  unfold scan
  simp only [if_neg plain.1, ne_eq, plain.2, not_false_eq_true, if_true]

theorem scan_percent (rest : List Byte) : scan (chr '%' :: chr '%' :: rest) = .char (chr '%') rest := by
  have start : ¬ chr '%' = 0 := by decide
  unfold scan
  simp only [if_neg start, ne_eq, not_true_eq_false, if_false, if_true]

theorem renderLoop_encode (strings : BitVec 64 → List Byte) (pieces : List Piece) {steps : Nat}
    (enough : pieces.length < steps) (varg : Nat → BitVec 64) :
    renderLoop strings steps (encode pieces) varg = some (rendered pieces varg) := by
  induction pieces generalizing steps varg with
  | nil =>
      cases steps with
      | zero => cases enough
      | succ steps => rfl
  | cons piece ps ih =>
      cases steps with
      | zero => cases enough
      | succ steps =>
          have rest (varg : Nat → BitVec 64) := ih (by simpa using enough) varg
          cases piece with
          | literal c plain =>
              change renderLoop strings (steps + 1) (c :: encode ps) varg = _
              simp only [renderLoop, scan_literal plain, rest]
              rfl
          | percent =>
              change renderLoop strings (steps + 1) (chr '%' :: chr '%' :: encode ps) varg = _
              simp only [renderLoop, scan_percent, rest]
              rfl
          | conversion s =>
              change renderLoop strings (steps + 1) (chr '%' :: (s.flags ++ encode ps)) varg = _
              obtain ⟨takes, other⟩ := takesArgument_char s.conv
              simp only [renderLoop, scan_conversion, if_pos takes, rest, Option.map_some, rendered, Spec.printed,
                conversionText, if_neg other]

theorem stringArguments_encode (pieces : List Piece) (steps : Nat) (varg : Nat → BitVec 64) :
    stringArguments steps (encode pieces) varg = [] := by
  induction pieces generalizing steps varg with
  | nil =>
      cases steps with
      | zero => rfl
      | succ steps => rfl
  | cons piece ps ih =>
      cases steps with
      | zero => rfl
      | succ steps =>
          cases piece with
          | literal c plain =>
              change stringArguments (steps + 1) (c :: encode ps) varg = _
              simp only [stringArguments, scan_literal plain, ih]
          | percent =>
              change stringArguments (steps + 1) (chr '%' :: chr '%' :: encode ps) varg = _
              simp only [stringArguments, scan_percent, ih]
          | conversion s =>
              change stringArguments (steps + 1) (chr '%' :: (s.flags ++ encode ps)) varg = _
              obtain ⟨takes, other⟩ := takesArgument_char s.conv
              simp [stringArguments, scan_conversion, takes, other, ih]

theorem length_encode (pieces : List Piece) : pieces.length ≤ (encode pieces).length := by
  induction pieces with
  | nil => exact Nat.le_refl 0
  | cons piece ps ih =>
      have some : 1 ≤ piece.text.length := by
        cases piece <;> simp [Piece.text]
      rw [encode, List.flatMap_cons, List.length_append, List.length_cons]
      have rest : ps.length ≤ (ps.flatMap Piece.text).length := ih
      omega

/-- print emits the texts of the pieces. -/
theorem print_encode (o : Output) (pieces : List Piece) (varg : Nat → BitVec 64) :
    Completes (fun fuel => print fuel o (encode pieces) varg)
      ((o.emit (rendered pieces varg)).terminate, BitVec.ofNat 32 (rendered pieces varg).length) := by
  have enough := length_encode pieces
  refine print_completes (renderLoop_encode (fun _ => []) pieces (by omega) varg) ?_
  rw [stringArguments_encode]
  intro arg used
  cases used

end Rendered

end LMalz.Errput
