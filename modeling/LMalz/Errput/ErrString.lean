import LMalz.Errput.Numbers
import LMalz.Lib.Transition

/- The error string: _hvErrSetString, _hvErrAddString and _hvErrGetString. -/
namespace LMalz.Errput
open Fueled (Completes)
open Transition (Run Guarded)

/-- The memory with g_errstr in it, g_errstr_number, and the addresses written so far. -/
structure ErrString where
  memory : Memory
  number : BitVec 32
  writes : List Int

def ERRSTR_LEN : Nat := 256

section Calls
variable (gErrstr : Int) (fuel : Nat) (s : ErrString) (format : List Byte) (varg : Nat → BitVec 64)

def hvErrSetString : Option ErrString :=
  (print fuel ⟨s.memory, gErrstr, [], s.writes⟩ format varg).map fun (o, pc) => ⟨o.memory, pc, o.writes⟩

def hvErrAddString : Option ErrString :=
  (print fuel ⟨s.memory, gErrstr + s.number.toInt, [], s.writes⟩ format varg).map fun (o, pc) =>
    ⟨o.memory, s.number + pc, o.writes⟩

end Calls

inductive Call where
  | set
  | add
  deriving DecidableEq

/-- A call, with the memory it finds and the strings that lie there. -/
structure Report where
  call : Call
  format : List Byte
  varg : Nat → BitVec 64
  memory : Memory
  strings : BitVec 64 → List Byte

namespace Report
variable (gErrstr : Int) (r : Report) (s : ErrString)

def text : Option (List Byte) := render r.strings r.format r.varg

def arguments : List (BitVec 64) := stringArguments (r.format.length + 1) r.format r.varg

/-- Where the call starts to write, from g_errstr on. -/
def start : Int :=
  match r.call with
  | .set => 0
  | .add => s.number.toInt

/-- Since the last call nobody has written to g_errstr. -/
def Sees : Prop := ∀ a, gErrstr ≤ a → a < gErrstr + ERRSTR_LEN → r.memory a = s.memory a

def run (fuel : Nat) : Option ErrString :=
  let s := { s with memory := r.memory }
  match r.call with
  | .set => hvErrSetString gErrstr fuel s r.format r.varg
  | .add => hvErrAddString gErrstr fuel s r.format r.varg

/-- The text and its NUL fit behind what is there, and no argument lies where they go. -/
def Fits : Prop := ∃ text, r.text = some text ∧ r.start s + text.length < ERRSTR_LEN ∧
  ∀ arg ∈ r.arguments, Clear r.strings r.memory (gErrstr + r.start s) text.length arg

end Report

/-- A call that returns. -/
inductive Step (gErrstr : Int) : ErrString → Report → ErrString → Prop
  | call {s s' : ErrString} {r : Report} {fuel : Nat} : r.Sees gErrstr s → r.run gErrstr s fuel = some s' →
      Step gErrstr s r s'

/-- The part of a message that a call keeps. -/
def Call.front (m : List Byte) : Call → List Byte
  | .set => []
  | .add => m

theorem Call.front_getElem {m : List Byte} {call : Call} {k : Nat} (inside : k < (call.front m).length) :
    ∃ h : k < m.length, (call.front m)[k] = m[k] := by
  cases call with
  | set => exact absurd inside (Nat.not_lt_zero k)
  | add => exact ⟨inside, rfl⟩

theorem Call.front_plain {m : List Byte} {call : Call} (plain : 0 ∉ m) : 0 ∉ call.front m := by
  cases call with
  | set => exact List.not_mem_nil
  | add => exact plain

/-- The last Set message and the Add messages behind it. -/
def message (rs : List Report) : List Byte := rs.foldl (fun m r => r.call.front m ++ r.text.getD []) []

/-- g_errstr reads as the message, the number is its length, and nothing was written elsewhere. -/
structure Holds (gErrstr : Int) (s : ErrString) (m : List Byte) : Prop where
  number : s.number = BitVec.ofNat 32 m.length
  short : m.length < ERRSTR_LEN
  string : IsString (fun k => s.memory (gErrstr + k)) m
  writes : ∀ a ∈ s.writes, gErrstr ≤ a ∧ a < gErrstr + ERRSTR_LEN

section Plain
variable {strings : BitVec 64 → List Byte} {text : List Byte}

theorem padded_plain {cs : List Byte} (plain : 0 ∉ cs) (width : BitVec 32) (pad : Pad) : 0 ∉ padded cs width pad := by
  have fill (n : Nat) : 0 ∉ List.replicate n (if pad.zero then chr '0' else chr ' ') := by
    intro zero
    have other : ∀ b : Bool, (0 : Byte) ≠ if b then chr '0' else chr ' ' := by decide
    exact other pad.zero (List.mem_replicate.mp zero).2
  unfold padded
  dsimp only
  split
  · exact fun zero => (List.mem_append.mp zero).elim plain (fill _)
  · exact fun zero => (List.mem_append.mp zero).elim (fill _) plain

theorem numberText_plain {b : Nat} {letbase : Byte} (h : Letters b letbase) (i : BitVec 64) (sg : Bool)
    (width : BitVec 32) (pad : Pad) : 0 ∉ numberText i b sg width pad letbase := by
  unfold numberText
  split_ifs
  · exact padded_plain (by decide) width pad
  · exact cons_plain (by decide) (padded_plain (h.plain _) _ pad)
  · exact padded_plain (cons_plain (by decide) (h.plain _)) width pad
  · exact padded_plain (h.plain _) width pad

theorem conversionText_plain {pad : Pad} {width : BitVec 32} {c : Byte} {arg : BitVec 64}
    (string : c = chr 's' ∧ arg ≠ 0 → 0 ∉ strings arg) : 0 ∉ conversionText strings pad width c arg := by
  unfold conversionText
  split_ifs with s null d x X u p zero
  · exact padded_plain (by decide) width pad
  · exact padded_plain (string ⟨s, null⟩) width pad
  · exact numberText_plain .decimal _ true width pad
  · exact numberText_plain .hex _ false width pad
  · exact numberText_plain .upperHex _ false width pad
  · exact numberText_plain .decimal _ false width pad
  · exact cons_plain (by decide) (cons_plain (by decide) (numberText_plain .upperHex arg false 16 _))
  · exact padded_plain List.not_mem_nil width pad
  · exact padded_plain (cons_plain zero List.not_mem_nil) width pad

theorem scan_char_ne {format rest : List Byte} {c : Byte} (next : scan format = .char c rest) : c ≠ 0 := by
  unfold scan at next
  cases format with
  | nil => cases next
  | cons d ds =>
      dsimp only at next
      split_ifs at next with stop literal
      · cases next
        exact stop
      · cases ds with
        | nil => cases next
        | cons e es =>
            dsimp only at next
            split_ifs at next with stop percent
            · cases next
              exact stop
            all_goals
              split at next
              · cases next
              · split at next <;> cases next

theorem renderLoop_plain {steps : Nat} {format : List Byte} {varg : Nat → BitVec 64}
    (rendered : renderLoop strings steps format varg = some text)
    (plain : ∀ arg ∈ stringArguments steps format varg, 0 ∉ strings arg) : 0 ∉ text := by
  induction steps generalizing format varg text with
  | zero => cases rendered
  | succ steps ih =>
      rw [renderLoop] at rendered
      rw [stringArguments] at plain
      cases next : scan format with
      | stop =>
          rw [next] at rendered
          cases rendered
          exact List.not_mem_nil
      | cut =>
          rw [next] at rendered
          cases rendered
      | char c rest =>
          rw [next] at rendered plain
          obtain ⟨tail, behind, rfl⟩ := Option.map_eq_some_iff.mp rendered
          exact cons_plain (scan_char_ne next) (ih behind plain)
      | conversion pad width c rest =>
          rw [next] at rendered plain
          dsimp only at rendered plain
          by_cases takes : takesArgument c = true
          · rw [if_pos takes] at rendered plain
            obtain ⟨tail, behind, rfl⟩ := Option.map_eq_some_iff.mp rendered
            have first : 0 ∉ conversionText strings pad width c (varg 0) := conversionText_plain fun used =>
              plain _ (List.mem_append_left _ (by rw [if_pos used]; exact List.mem_singleton_self _))
            have rest := ih behind fun arg used => plain arg (List.mem_append_right _ used)
            exact fun zero => (List.mem_append.mp zero).elim first rest
          · rw [if_neg takes] at rendered plain
            exact ih rendered plain

end Plain

section Runs
variable {gErrstr : Int} {s s' : ErrString} {r : Report} {rs : List Report} {m text : List Byte}

theorem written_string {o : Output} {before : List Byte} (kept : ∀ k (h : k < before.length),
      o.memory (gErrstr + k) = before[k]) (str : o.str = gErrstr + before.length) (plain : 0 ∉ before ++ text) :
    IsString (fun k => (o.emit text).terminate.memory (gErrstr + k)) (before ++ text) := by
  have last : (o.emit text).str = gErrstr + (before ++ text).length := by
    rw [emit_str, str, List.length_append]
    push_cast
    ring
  refine ⟨fun k inside => ?_, plain, ?_⟩
  · have inner : gErrstr + (k : Int) ≠ (o.emit text).str := by
      rw [last]
      omega
    dsimp only [Output.terminate]
    rw [Function.update_of_ne inner]
    by_cases old : k < before.length
    · rw [emit_memory_frame (.inl (by rw [str]; omega)), kept k old, List.getElem_append_left]
    · rw [List.length_append] at inside
      have new : k - before.length < text.length := by omega
      have place : gErrstr + (k : Int) = o.str + ((k - before.length : Nat) : Int) := by
        rw [str]
        omega
      rw [place, emit_memory_at new, List.getElem_append_right (by omega)]
  · dsimp only [Output.terminate]
    rw [last, Function.update_self]

theorem mem_terminate_writes (o : Output) (text : List Byte) (a : Int) :
    a ∈ (o.emit text).terminate.writes ↔ a ∈ o.writes ∨ o.str ≤ a ∧ a ≤ o.str + text.length := by
  have split : a ∈ (o.emit text).terminate.writes ↔ a ∈ (o.emit text).writes ∨ a = (o.emit text).str := by
    simp [Output.terminate]
  rw [split, mem_emit_writes, emit_str]
  constructor
  · rintro ((old | inside) | rfl)
    · exact .inl old
    · exact .inr (by omega)
    · exact .inr (by omega)
  · rintro (old | inside)
    · exact .inl (.inl old)
    · by_cases end' : a = o.str + text.length
      · exact .inr end'
      · exact .inl (.inr (by omega))

/-- The state that a call leaves behind. -/
def Report.after (gErrstr : Int) (r : Report) (s : ErrString) (text : List Byte) : ErrString :=
  let o := (Output.emit ⟨r.memory, gErrstr + r.start s, [], s.writes⟩ text).terminate
  let n := BitVec.ofNat 32 text.length
  ⟨o.memory, match r.call with
    | .set => n
    | .add => s.number + n, o.writes⟩

theorem run_completes (rendered : r.text = some text)
    (clear : ∀ arg ∈ r.arguments, Clear r.strings r.memory (gErrstr + r.start s) text.length arg) :
    Completes (fun fuel => r.run gErrstr s fuel) (r.after gErrstr s text) := by
  have printed := print_completes (o := ⟨r.memory, gErrstr + r.start s, [], s.writes⟩) rendered clear
  unfold Report.run Report.after
  cases call : r.call with
  | set =>
      have start : r.start s = 0 := by rw [Report.start, call]
      rw [start, Int.add_zero] at printed ⊢
      exact printed.map fun (q : Output × BitVec 32) => (⟨q.1.memory, q.2, q.1.writes⟩ : ErrString)
  | add =>
      have start : r.start s = s.number.toInt := by rw [Report.start, call]
      rw [start] at printed ⊢
      exact printed.map fun (q : Output × BitVec 32) => (⟨q.1.memory, s.number + q.2, q.1.writes⟩ : ErrString)

theorem Holds.start (h : Holds gErrstr s m) (r : Report) : r.start s = (r.call.front m).length := by
  have short : m.length < 2 ^ 31 := Nat.lt_trans h.short (by decide)
  unfold Report.start
  cases r.call with
  | set => rfl
  | add => rw [h.number, toInt_ofNat short, Call.front]

/-- One call that fits keeps what holds of the message. -/
theorem holds_step (h : Holds gErrstr s m) (fits : r.Fits gErrstr s) (step : Step gErrstr s r s') :
    Holds gErrstr s' (r.call.front m ++ r.text.getD []) := by
  obtain ⟨text, rendered, room, clear⟩ := fits
  cases step with
  | call sees ran =>
      obtain rfl := (run_completes rendered clear).eq_of_some ran
      rw [rendered, Option.getD_some]
      have start := h.start r
      have short := h.short
      have fresh : 0 ∉ text := renderLoop_plain rendered fun arg used => (clear arg used).string.plain
      let o : Output := ⟨r.memory, gErrstr + r.start s, [], s.writes⟩
      have str : o.str = gErrstr + (r.call.front m).length := congrArg (gErrstr + ·) start
      have kept (k : Nat) (old : k < (r.call.front m).length) :
          o.memory (gErrstr + k) = (r.call.front m)[k] := by
        obtain ⟨inner, same⟩ := Call.front_getElem old
        rw [same]
        exact (sees _ (by omega) (by omega)).trans (h.string.text k inner)
      have plain : 0 ∉ r.call.front m ++ text := fun zero =>
        (List.mem_append.mp zero).elim (Call.front_plain h.string.plain) fresh
      refine ⟨?_, ?_, written_string kept str plain, ?_⟩
      · unfold Report.after
        rw [List.length_append, BitVec.ofNat_add]
        cases r.call with
        | set => exact (BitVec.zero_add _).symm
        | add => exact congrArg (· + _) h.number
      · rw [List.length_append]
        omega
      · intro a written
        rcases (mem_terminate_writes o text a).mp written with old | new
        · exact h.writes a old
        · omega

theorem fits_returns (fits : r.Fits gErrstr s) (sees : r.Sees gErrstr s) : ∃ s', Step gErrstr s r s' := by
  obtain ⟨text, rendered, -, clear⟩ := fits
  obtain ⟨fuel, ran⟩ := (run_completes rendered clear).exists_some
  exact ⟨_, .call sees ran⟩

/-- g_errstr before the first call. -/
structure Blank (gErrstr : Int) (s : ErrString) : Prop where
  number : s.number = 0
  zeros : ∀ a, gErrstr ≤ a → a < gErrstr + ERRSTR_LEN → s.memory a = 0
  writes : s.writes = []

theorem Blank.holds (h : Blank gErrstr s) : Holds gErrstr s [] where
  number := h.number
  short := by decide
  string := ⟨fun k none => absurd none (Nat.not_lt_zero k), List.not_mem_nil, h.zeros _ (by omega) (by simp [ERRSTR_LEN])⟩
  writes a written := by
    rw [h.writes] at written
    cases written

theorem holds_run {from' : List Byte} (run : Run (Guarded (Step gErrstr) fun s r => r.Fits gErrstr s) s rs s')
    (h : Holds gErrstr s from') :
    Holds gErrstr s' (rs.foldl (fun m r => r.call.front m ++ r.text.getD []) from') := by
  induction run generalizing from' with
  | nil => exact h
  | cons first _ ih => exact ih (holds_step h first.1 first.2)

/-- A call behind a message writes inside g_errstr only if it fits. -/
theorem writes_inside_iff (h : Holds gErrstr s m) (sees : r.Sees gErrstr s) (rendered : r.text = some text)
    (clear : ∀ arg ∈ r.arguments, Clear r.strings r.memory (gErrstr + r.start s) text.length arg) :
    (∃ s', Step gErrstr s r s' ∧ ∀ a ∈ s'.writes, gErrstr ≤ a ∧ a < gErrstr + ERRSTR_LEN) ↔ r.Fits gErrstr s := by
  constructor
  · rintro ⟨s', step, inside⟩
    cases step with
    | call sees ran =>
        obtain rfl := (run_completes rendered clear).eq_of_some ran
        have start := h.start r
        have last := inside (gErrstr + r.start s + text.length)
          ((mem_terminate_writes _ text _).mpr (.inr ⟨by dsimp only; omega, Int.le_refl _⟩))
        exact ⟨text, rendered, by omega, clear⟩
  · intro fits
    obtain ⟨s', step⟩ := fits_returns fits sees
    exact ⟨s', step, (holds_step h fits step).writes⟩

end Runs

/-- g_errstr at address 0, in memory that is all zeros. -/
def blankErrString : ErrString := ⟨fun _ => 0, 0, []⟩

theorem blankErrString_blank : Blank 0 blankErrString := ⟨rfl, fun _ _ _ => rfl, rfl⟩

/-- Set of `E%d` with 5. -/
def setReport : Report := ⟨.set, [chr 'E', chr '%', chr 'd'], fun _ => 5, fun _ => 0, fun _ => []⟩

def setState : ErrString := setReport.after 0 blankErrString [chr 'E', chr '5']

/-- Add of `!` behind it. -/
def addReport : Report := ⟨.add, [chr '!'], fun _ => 0, setState.memory, fun _ => []⟩

def addState : ErrString := addReport.after 0 setState [chr '!']

/-- `%300d`. -/
def wideSpec : Spec := ⟨false, 0, 300, .d⟩

def wideReport : Report := ⟨.set, encode [.conversion wideSpec], fun _ => 5, fun _ => 0, fun _ => []⟩

end LMalz.Errput
