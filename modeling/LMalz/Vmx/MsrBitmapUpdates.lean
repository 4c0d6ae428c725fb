import LMalz.Vmx.MsrBitmap
import Mathlib.Data.List.Basic

/- Sequences of enable_exit_for_msr_read and enable_exit_for_msr_write on one bitmap. -/
namespace LMalz.Vmx
open Function (update)
open Mtrr (Msrs IA32_MTRR_CAPABILITIES IA32_MTRR_DEF_TYPE IA32_MTRR_PHYSBASE0 IA32_MTRR_PHYSMASK0
  fixedRangeSupported variableRangeCount)

/-- vmx_msr_bitmap with its four quarters. -/
structure VmxMsrBitmap extends MsrBitmap where
  rdmsrLow : Nat → BitVec 8
  rdmsrHigh : Nat → BitVec 8

def enableExitForMsrRead (bitmap : VmxMsrBitmap) (msr : BitVec 32) (enableExiting : Bool) :
    VmxMsrBitmap :=
  let bit : BitVec 8 := if enableExiting then 1 else 0
  if msr ≤ MSR_ID_LOW_MAX then
    { bitmap with
      rdmsrLow := update bitmap.rdmsrLow (msr.toNat / 8) (bit <<< (msr &&& 7).toNat) }
  else if MSR_ID_HIGH_MIN ≤ msr ∧ msr ≤ MSR_ID_HIGH_MAX then
    { bitmap with
      rdmsrHigh :=
        update bitmap.rdmsrHigh ((msr - MSR_ID_HIGH_MIN).toNat / 8) (bit <<< (msr &&& 7).toNat) }
  else bitmap

inductive Access where
  | read | write
  deriving DecidableEq, Repr

/-- A call of enable_exit_for_msr_read or of enable_exit_for_msr_write. -/
structure MsrCall where
  access : Access
  msr : BitVec 32
  enable : Bool
  deriving DecidableEq, Repr

def MsrCall.run (bitmap : VmxMsrBitmap) (c : MsrCall) : VmxMsrBitmap :=
  match c.access with
  | .read => enableExitForMsrRead bitmap c.msr c.enable
  | .write => { bitmap with toMsrBitmap := enableExitForMsrWrite bitmap.toMsrBitmap c.msr c.enable }

def MsrBitmap.zero : MsrBitmap := ⟨fun _ => 0, fun _ => 0⟩

def VmxMsrBitmap.zero : VmxMsrBitmap := ⟨.zero, fun _ => 0, fun _ => 0⟩

/-- The byte that holds the bit of an MSR: whether it is of a high quarter, and which one. -/
def msrByte (msr : BitVec 32) : Option (Bool × Nat) :=
  if msr ≤ MSR_ID_LOW_MAX then some (false, msr.toNat / 8)
  else if MSR_ID_HIGH_MIN ≤ msr ∧ msr ≤ MSR_ID_HIGH_MAX then
    some (true, (msr - MSR_ID_HIGH_MIN).toNat / 8)
  else none

def VmxMsrBitmap.byte (b : VmxMsrBitmap) : Access → Bool × Nat → BitVec 8
  | .read, (false, i) => b.rdmsrLow i
  | .read, (true, i) => b.rdmsrHigh i
  | .write, (false, i) => b.wrmsrLow i
  | .write, (true, i) => b.wrmsrHigh i

def VmxMsrBitmap.bit (b : VmxMsrBitmap) (a : Access) (msr : BitVec 32) : Bool :=
  match msrByte msr with
  | some p => (b.byte a p).getLsbD (msr.toNat % 8)
  | none => false

/-- The last of the calls that names the access and the MSR. -/
def lastNaming (calls : List MsrCall) (a : Access) (msr : BitVec 32) : Option MsrCall :=
  calls.reverse.find? fun c => c.access = a ∧ c.msr = msr

/-- The last of the calls that stores the byte. -/
def lastStoring (calls : List MsrCall) (a : Access) (p : Bool × Nat) : Option MsrCall :=
  calls.reverse.find? fun c => c.access = a ∧ msrByte c.msr = some p

/-- Where the last call that names an access and an MSR enables it, no other MSR of the same
byte is named behind it. -/
def Unshadowed (calls : List MsrCall) : Prop :=
  ∀ a msr p c, msrByte msr = some p → lastNaming calls a msr = some c → c.enable = true →
    ∀ d, lastStoring calls a p = some d → d.msr = msr

section Calls
variable {b : VmxMsrBitmap} {c d : MsrCall} {calls : List MsrCall} {a : Access}
  {msr other : BitVec 32} {p : Bool × Nat}

theorem run_byte : (c.run b).byte a p =
    if c.access = a ∧ msrByte c.msr = some p then
      (if c.enable then 1 else 0 : BitVec 8) <<< (c.msr &&& 7).toNat
    else b.byte a p := by
  obtain ⟨access, msr, enable⟩ := c
  obtain ⟨high, i⟩ := p
  cases access <;> cases a <;> cases high <;>
    simp only [MsrCall.run, enableExitForMsrRead, enableExitForMsrWrite, msrByte] <;>
    split <;> try split
  all_goals
    simp [VmxMsrBitmap.byte, Function.update_apply, eq_comm]

theorem run_outside (outside : msrByte c.msr = none) : c.run b = b := by
  obtain ⟨access, msr, enable⟩ := c
  simp only [msrByte] at outside
  split at outside
  · cases outside
  · next low =>
      split at outside
      · cases outside
      · next high =>
          cases access with
          | read => simp only [MsrCall.run, enableExitForMsrRead, if_neg low, if_neg high]
          | write => simp only [MsrCall.run, enableExitForMsrWrite, if_neg low, if_neg high]

theorem msr_eq_of_byte (here : msrByte msr = some p) (there : msrByte other = some p)
    (bits : msr.toNat % 8 = other.toNat % 8) : msr = other := by
  have min : MSR_ID_HIGH_MIN.toNat = 0xC0000000 := by decide
  have max : MSR_ID_HIGH_MAX.toNat = 0xC0001FFF := by decide
  refine BitVec.eq_of_toNat_eq ?_
  simp only [msrByte] at here there
  split at here
  · split at there
    · have same := here.trans there.symm
      simp only [Option.some.injEq, Prod.mk.injEq, true_and] at same
      omega
    · split at there
      · have same := here.trans there.symm
        simp at same
      · cases there
  · split at here
    · next range =>
        split at there
        · have same := here.trans there.symm
          simp at same
        · split at there
          · next range' =>
              have same := here.trans there.symm
              simp only [Option.some.injEq, Prod.mk.injEq, true_and] at same
              rw [BitVec.toNat_sub_of_le range.1, BitVec.toNat_sub_of_le range'.1] at same
              have low := BitVec.le_def.mp range.1
              have low' := BitVec.le_def.mp range'.1
              omega
          · cases there
    · cases here

theorem foldl_run_byte : (calls.foldl MsrCall.run .zero).byte a p =
    match lastStoring calls a p with
    | some c => (if c.enable then 1 else 0 : BitVec 8) <<< (c.msr &&& 7).toNat
    | none => 0 := by
  induction calls using List.reverseRecOn with
  | nil =>
      obtain ⟨high, i⟩ := p
      cases a <;> cases high <;> rfl
  | append_singleton calls c ih =>
      rw [List.foldl_append, List.foldl_cons, List.foldl_nil, run_byte, lastStoring,
        List.reverse_append, List.reverse_singleton, List.singleton_append]
      by_cases stores : c.access = a ∧ msrByte c.msr = some p
      · rw [if_pos stores, List.find?_cons_of_pos (by simpa using stores)]
      · rw [if_neg stores, List.find?_cons_of_neg (by simpa using stores), ih, lastStoring]

theorem foldl_run_bit (here : msrByte msr = some p) :
    (calls.foldl MsrCall.run .zero).bit a msr = true ↔
      ∃ d, lastStoring calls a p = some d ∧ d.enable = true ∧ d.msr = msr := by
  rw [VmxMsrBitmap.bit, here]
  simp only [foldl_run_byte]
  cases last : lastStoring calls a p with
  | none => simp
  | some d =>
      have there : msrByte d.msr = some p := by
        have stores := List.find?_some last
        simp only [decide_eq_true_eq] at stores
        exact stores.2
      have bits : msr.toNat % 8 = d.msr.toNat % 8 ↔ d.msr = msr := by
        constructor
        · exact fun bits => (msr_eq_of_byte here there bits).symm
        · rintro rfl
          rfl
      simp only [getLsbD_stored, Bool.and_eq_true, decide_eq_true_eq, bits, Option.some.injEq,
        exists_eq_left']

theorem lastNaming_of_storing (here : msrByte msr = some p)
    (last : lastStoring calls a p = some d) (names : d.msr = msr) :
    lastNaming calls a msr = some d := by
  obtain ⟨stores, before, after, split, others⟩ := List.find?_eq_some_iff_append.mp last
  simp only [decide_eq_true_eq] at stores
  refine List.find?_eq_some_iff_append.mpr ⟨by simp [stores.1, names], before, after, split, ?_⟩
  intro e he
  have other := others e he
  simp only [Bool.not_eq_true', decide_eq_false_iff_not] at other ⊢
  rintro ⟨access, rfl⟩
  exact other ⟨access, here⟩

theorem lastStoring_of_naming (here : msrByte msr = some p)
    (last : lastNaming calls a msr = some c) : ∃ d, lastStoring calls a p = some d := by
  have mem := List.mem_of_find?_eq_some last
  have names := List.find?_some last
  simp only [decide_eq_true_eq] at names
  refine Option.isSome_iff_exists.mp (List.find?_isSome.mpr ⟨c, mem, ?_⟩)
  simp [names.1, names.2, here]

/-- The bits are what the last calls asked for just when no call shadows another. -/
theorem bits_iff_unshadowed : (∀ a msr p, msrByte msr = some p →
      ((calls.foldl MsrCall.run .zero).bit a msr = true ↔
        ∃ c, lastNaming calls a msr = some c ∧ c.enable = true)) ↔ Unshadowed calls := by
  constructor
  · intro law a msr p c here last enabled d stored
    obtain ⟨e, stored', -, names⟩ :=
      (foldl_run_bit here).mp ((law a msr p here).mpr ⟨c, last, enabled⟩)
    obtain rfl : d = e := Option.some.inj (stored.symm.trans stored')
    exact names
  · intro unshadowed a msr p here
    rw [foldl_run_bit here]
    constructor
    · rintro ⟨d, stored, enabled, names⟩
      exact ⟨d, lastNaming_of_storing here stored names, enabled⟩
    · rintro ⟨c, last, enabled⟩
      obtain ⟨d, stored⟩ := lastStoring_of_naming here last
      have names := unshadowed a msr p c here last enabled d stored
      obtain rfl : c = d :=
        Option.some.inj (last.symm.trans (lastNaming_of_storing here stored names))
      exact ⟨c, stored, enabled, names⟩

end Calls

section Mtrrs
variable {msrs : Msrs} {msr other : BitVec 32}

theorem not_both_exit (low : msr ≤ MSR_ID_LOW_MAX) (low' : other ≤ MSR_ID_LOW_MAX)
    (same : other.toNat / 8 = msr.toNat / 8) (apart : msr ≠ other)
    (exits : (enableMtrrExiting msrs .zero).exits msr = true) :
    (enableMtrrExiting msrs .zero).exits other = false := by
  rw [exits_enableMtrrExiting low] at exits
  rw [exits_enableMtrrExiting low']
  have bytes : sameByte (msrs IA32_MTRR_CAPABILITIES) other =
      sameByte (msrs IA32_MTRR_CAPABILITIES) msr := by
    rw [sameByte, sameByte, same]
  rw [bytes]
  cases last : (sameByte (msrs IA32_MTRR_CAPABILITIES) msr).getLast? with
  | none => simp [MsrBitmap.exits, MsrBitmap.zero, low']
  | some l =>
      rw [last] at exits
      obtain rfl : l = msr := of_decide_eq_true exits
      exact decide_eq_false apart

theorem not_exits_high (out : ¬ msr ≤ MSR_ID_LOW_MAX) {p : Bool × Nat} (here : msrByte msr = some p) :
    (enableMtrrExiting msrs .zero).exits msr = false := by
  have high : MSR_ID_HIGH_MIN ≤ msr ∧ msr ≤ MSR_ID_HIGH_MAX := by
    by_contra outside
    rw [msrByte, if_neg out, if_neg outside] at here
    cases here
  have kept : ∀ list : List (BitVec 32), (∀ other ∈ list, other ≤ MSR_ID_LOW_MAX) →
      ∀ bitmap : MsrBitmap, (list.foldl
        (fun bitmap msr => enableExitForMsrWrite bitmap msr true) bitmap).wrmsrHigh =
          bitmap.wrmsrHigh := by
    intro list
    induction list with
    | nil => exact fun _ _ => rfl
    | cons other list ih =>
        intro all bitmap
        rw [List.foldl_cons, ih fun other mem => all other (List.mem_cons_of_mem _ mem),
          enableExitForMsrWrite, if_pos (all other List.mem_cons_self)]
  rw [enableMtrrExiting_eq, MsrBitmap.exits, if_neg out, if_pos high,
    kept _ fun _ => existingMtrrs_low]
  simp [MsrBitmap.zero]

/-- enable_mtrr_exiting intercepts the writes to the MTRRs of the processor and no others just
when there are neither fixed nor variable ranges. -/
theorem mtrrs_intercepted_iff : (∀ msr p, msrByte msr = some p →
      ((enableMtrrExiting msrs .zero).exits msr = true ↔
        msr ∈ existingMtrrs (msrs IA32_MTRR_CAPABILITIES))) ↔
    fixedRangeSupported (msrs IA32_MTRR_CAPABILITIES) = false ∧
      variableRangeCount (msrs IA32_MTRR_CAPABILITIES) = 0 := by
  have pair : ∀ msr other : BitVec 32, msr ≤ MSR_ID_LOW_MAX → other ≤ MSR_ID_LOW_MAX →
      other.toNat / 8 = msr.toNat / 8 → msr ≠ other →
      msr ∈ existingMtrrs (msrs IA32_MTRR_CAPABILITIES) →
      other ∈ existingMtrrs (msrs IA32_MTRR_CAPABILITIES) →
      ¬ ∀ msr p, msrByte msr = some p → ((enableMtrrExiting msrs .zero).exits msr = true ↔
        msr ∈ existingMtrrs (msrs IA32_MTRR_CAPABILITIES)) := by
    intro msr other low low' same apart here there law
    have first := (law msr _ (if_pos low)).mpr here
    have second := (law other _ (if_pos low')).mpr there
    rw [not_both_exit low low' same apart first] at second
    cases second
  constructor
  · intro law
    constructor
    · by_contra fixed
      have fixed : fixedRangeSupported (msrs IA32_MTRR_CAPABILITIES) = true := by
        simpa using fixed
      refine pair IA32_MTRR_FIX16K_80000 IA32_MTRR_FIX16K_A0000 (by decide) (by decide)
        (by decide) (by decide) ?_ ?_ law
      · exact mem_existingMtrrs.mpr (.inr (.inl ⟨fixed, .inr (.inl rfl)⟩))
      · exact mem_existingMtrrs.mpr (.inr (.inl ⟨fixed, .inr (.inr (.inl rfl))⟩))
    · by_contra ranges
      have some : 0 < (variableRangeCount (msrs IA32_MTRR_CAPABILITIES)).toNat := by
        refine Nat.pos_of_ne_zero fun none => ranges (BitVec.eq_of_toNat_eq none)
      refine pair IA32_MTRR_PHYSBASE0 IA32_MTRR_PHYSMASK0 (by decide) (by decide)
        (by decide) (by decide) ?_ ?_ law
      · exact mem_existingMtrrs.mpr (.inr (.inr ⟨0, some, .inl (by decide)⟩))
      · exact mem_existingMtrrs.mpr (.inr (.inr ⟨0, some, .inr (by decide)⟩))
  · rintro ⟨fixed, ranges⟩ msr p here
    have only : existingMtrrs (msrs IA32_MTRR_CAPABILITIES) = [IA32_MTRR_DEF_TYPE] := by
      simp [existingMtrrs, fixed, ranges]
    by_cases low : msr ≤ MSR_ID_LOW_MAX
    · rw [exits_enableMtrrExiting low, sameByte, only]
      by_cases same : IA32_MTRR_DEF_TYPE.toNat / 8 = msr.toNat / 8
      · rw [List.filter_cons_of_pos (by simpa using same), List.filter_nil]
        simp [eq_comm]
      · rw [List.filter_cons_of_neg (by simpa using same), List.filter_nil]
        have other : msr ≠ IA32_MTRR_DEF_TYPE := by
          rintro rfl
          exact same rfl
        simp [MsrBitmap.exits, MsrBitmap.zero, low, other]
    · rw [not_exits_high low here, only]
      refine iff_of_false Bool.false_ne_true fun mem => low ?_
      rw [List.mem_singleton.mp mem]
      decide

end Mtrrs

/-- MSRs outside both ranges change nothing and the quarters are independent; the bits follow
the last calls just when no call shadows another one of its byte, and the MTRRs are
intercepted just when there is a single one. -/
theorem msrBitmap_updates_iff (calls : List MsrCall) (msrs : Msrs) :
    (∀ (b : VmxMsrBitmap) (c : MsrCall), msrByte c.msr = none → c.run b = b) ∧
    (∀ (b : VmxMsrBitmap) (c : MsrCall) a high,
      (c.access ≠ a ∨ ∀ i, msrByte c.msr ≠ some (high, i)) →
        ∀ i, (c.run b).byte a (high, i) = b.byte a (high, i)) ∧
    ((∀ a msr p, msrByte msr = some p → ((calls.foldl MsrCall.run .zero).bit a msr = true ↔
        ∃ c, lastNaming calls a msr = some c ∧ c.enable = true)) ↔ Unshadowed calls) ∧
    ((∀ msr p, msrByte msr = some p → ((enableMtrrExiting msrs .zero).exits msr = true ↔
        msr ∈ existingMtrrs (msrs IA32_MTRR_CAPABILITIES))) ↔
      fixedRangeSupported (msrs IA32_MTRR_CAPABILITIES) = false ∧
        variableRangeCount (msrs IA32_MTRR_CAPABILITIES) = 0) := by
  refine ⟨fun _ _ => run_outside, fun b c a high apart i => ?_, bits_iff_unshadowed,
    mtrrs_intercepted_iff⟩
  rw [run_byte, if_neg]
  rintro ⟨access, here⟩
  rcases apart with other | other
  · exact other access
  · exact other i here

/-- Intercepting 0x201 ends the interception of 0x200. -/
theorem msrBitmap_neighbour_lost :
    let calls : List MsrCall := [⟨.write, 0x200, true⟩, ⟨.write, 0x201, true⟩]
    lastNaming calls .write 0x200 = some ⟨.write, 0x200, true⟩ ∧
      (calls.foldl MsrCall.run .zero).bit .write 0x200 = false ∧
      (enableMtrrExiting (fun msr => if msr = IA32_MTRR_CAPABILITIES then 1 else 0) .zero).exits
        IA32_MTRR_PHYSBASE0 = false := by
  decide

end LMalz.Vmx
