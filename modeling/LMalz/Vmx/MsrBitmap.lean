import LMalz.Vmx.ExitHandlers
import Mathlib.Tactic.IntervalCases
import Mathlib.Data.List.Induction

/- The MSR bitmap: which writes of the guest leave the guest. enable_exit_for_msr_write of vmx.inl
and enable_mtrr_exiting of vmx.cpp. -/
namespace LMalz.Vmx
open Function (update)
open Mtrr (Msrs IA32_MTRR_CAPABILITIES IA32_MTRR_DEF_TYPE IA32_MTRR_PHYSBASE0 IA32_MTRR_PHYSMASK0
  fixedRangeSupported variableRangeCount)

def MSR_ID_LOW_MAX : BitVec 32 := 0x1FFF
def MSR_ID_HIGH_MIN : BitVec 32 := 0xC0000000
def MSR_ID_HIGH_MAX : BitVec 32 := 0xC0001FFF

/-- wrmsr_low and wrmsr_high of vmx_msr_bitmap, by bytes. -/
structure MsrBitmap where
  wrmsrLow : Nat → BitVec 8
  wrmsrHigh : Nat → BitVec 8

/-- The third and the fourth quarter of a page are wrmsr_low and wrmsr_high. -/
def MsrBitmap.ofPage (page : Ept.Index → Ept.Entry) : MsrBitmap where
  wrmsrLow i := BitField.get (page (BitVec.ofNat 9 (256 + i / 8))) (8 * (i % 8)) 8
  wrmsrHigh i := BitField.get (page (BitVec.ofNat 9 (384 + i / 8))) (8 * (i % 8)) 8

def enableExitForMsrWrite (bitmap : MsrBitmap) (msr : BitVec 32) (enableExiting : Bool) : MsrBitmap :=
  let bit : BitVec 8 := if enableExiting then 1 else 0
  if msr ≤ MSR_ID_LOW_MAX then
    { bitmap with
      wrmsrLow := update bitmap.wrmsrLow (msr.toNat / 8) (bit <<< (msr &&& 7).toNat) }
  else if MSR_ID_HIGH_MIN ≤ msr ∧ msr ≤ MSR_ID_HIGH_MAX then
    { bitmap with
      wrmsrHigh :=
        update bitmap.wrmsrHigh ((msr - MSR_ID_HIGH_MIN).toNat / 8) (bit <<< (msr &&& 7).toNat) }
  else bitmap

def enableMtrrExiting (msrs : Msrs) (bitmap : MsrBitmap) : MsrBitmap :=
  let mtrrCap := msrs IA32_MTRR_CAPABILITIES
  let bitmap := enableExitForMsrWrite bitmap IA32_MTRR_DEF_TYPE true
  let bitmap :=
    if fixedRangeSupported mtrrCap then
      let bitmap := enableExitForMsrWrite bitmap IA32_MTRR_FIX64K_00000 true
      let bitmap := enableExitForMsrWrite bitmap IA32_MTRR_FIX16K_80000 true
      let bitmap := enableExitForMsrWrite bitmap IA32_MTRR_FIX16K_A0000 true
      (List.range 8).foldl
        (fun bitmap i => enableExitForMsrWrite bitmap (IA32_MTRR_FIX4K_C0000 + BitVec.ofNat 32 i) true)
        bitmap
    else bitmap
  (List.range (variableRangeCount mtrrCap).toNat).foldl
    (fun bitmap i =>
      let bitmap :=
        enableExitForMsrWrite bitmap (IA32_MTRR_PHYSBASE0 + BitVec.ofNat 32 (i * 2)) true
      enableExitForMsrWrite bitmap (IA32_MTRR_PHYSMASK0 + BitVec.ofNat 32 (i * 2)) true)
    bitmap

/-- The processor: a write to the MSR leaves the guest. -/
def MsrBitmap.exits (bitmap : MsrBitmap) (msr : BitVec 32) : Bool :=
  if msr ≤ MSR_ID_LOW_MAX then (bitmap.wrmsrLow (msr.toNat / 8)).getLsbD (msr.toNat % 8)
  else if MSR_ID_HIGH_MIN ≤ msr ∧ msr ≤ MSR_ID_HIGH_MAX then
    (bitmap.wrmsrHigh ((msr - MSR_ID_HIGH_MIN).toNat / 8)).getLsbD (msr.toNat % 8)
  else true

/-- The MTRRs that a processor with these capabilities has, in the order of enable_mtrr_exiting. -/
def existingMtrrs (cap : BitVec 64) : List (BitVec 32) :=
  IA32_MTRR_DEF_TYPE ::
    ((if fixedRangeSupported cap then
        IA32_MTRR_FIX64K_00000 :: IA32_MTRR_FIX16K_80000 :: IA32_MTRR_FIX16K_A0000 ::
          (List.range 8).map fun i => IA32_MTRR_FIX4K_C0000 + BitVec.ofNat 32 i
      else []) ++
      (List.range (variableRangeCount cap).toNat).flatMap fun i =>
        [IA32_MTRR_PHYSBASE0 + BitVec.ofNat 32 (i * 2),
          IA32_MTRR_PHYSMASK0 + BitVec.ofNat 32 (i * 2)])

/-- The MTRRs that share a byte of the bitmap with `msr`. -/
def sameByte (cap : BitVec 64) (msr : BitVec 32) : List (BitVec 32) :=
  (existingMtrrs cap).filter fun other => other.toNat / 8 = msr.toNat / 8

/-- The MTRR is the last one that enable_mtrr_exiting writes into its byte. -/
def LastOfByte (cap : BitVec 64) (msr : BitVec 32) : Prop := (sameByte cap msr).getLast? = some msr

section Bits
variable {bitmap : MsrBitmap} {msr other : BitVec 32} {cap : BitVec 64} {msrs : Msrs}

theorem enableMtrrExiting_eq (msrs : Msrs) (bitmap : MsrBitmap) :
    enableMtrrExiting msrs bitmap = (existingMtrrs (msrs IA32_MTRR_CAPABILITIES)).foldl
      (fun bitmap msr => enableExitForMsrWrite bitmap msr true) bitmap := by
  rw [enableMtrrExiting, existingMtrrs, List.foldl_cons, List.foldl_append, List.foldl_flatMap]
  by_cases fixed : fixedRangeSupported (msrs IA32_MTRR_CAPABILITIES) = true
  · simp only [if_pos fixed, List.foldl_cons, List.foldl_map, List.foldl_nil]
  · simp only [if_neg fixed, List.foldl_cons, List.foldl_nil]

/-- The byte that a call stores has at most the bit of its own MSR. -/
theorem getLsbD_stored (enable : Bool) :
    ((if enable then 1 else 0 : BitVec 8) <<< (other &&& 7).toNat).getLsbD (msr.toNat % 8) =
      (enable && decide (msr.toNat % 8 = other.toNat % 8)) := by
  have bit : (other &&& 7).toNat = other.toNat % 8 := by
    rw [BitVec.toNat_and, show (7 : BitVec 32).toNat = 2^3 - 1 by decide,
      Nat.and_two_pow_sub_one_eq_mod]
  have h := Nat.mod_lt msr.toNat (show 0 < 8 by decide)
  have h' := Nat.mod_lt other.toNat (show 0 < 8 by decide)
  rw [bit]
  generalize msr.toNat % 8 = i at *
  generalize other.toNat % 8 = j at *
  cases enable with
  | false => simp
  | true => interval_cases i <;> interval_cases j <;> rfl

theorem exits_enable (low : msr ≤ MSR_ID_LOW_MAX) (low' : other ≤ MSR_ID_LOW_MAX) :
    (enableExitForMsrWrite bitmap other true).exits msr =
      if other.toNat / 8 = msr.toNat / 8 then decide (other = msr) else bitmap.exits msr := by
  have stored := @getLsbD_stored msr other true
  simp only [MsrBitmap.exits, enableExitForMsrWrite, if_pos low, if_pos low', if_true,
    Bool.true_and] at stored ⊢
  by_cases same : other.toNat / 8 = msr.toNat / 8
  · rw [if_pos same, same, Function.update_self, stored]
    refine decide_eq_decide.mpr ⟨fun bits => BitVec.eq_of_toNat_eq (by omega), ?_⟩
    rintro rfl
    rfl
  · rw [if_neg same, Function.update_of_ne (Ne.symm same)]

theorem mem_existingMtrrs : msr ∈ existingMtrrs cap ↔ msr = IA32_MTRR_DEF_TYPE ∨
    (fixedRangeSupported cap = true ∧ (msr = IA32_MTRR_FIX64K_00000 ∨ msr = IA32_MTRR_FIX16K_80000 ∨
      msr = IA32_MTRR_FIX16K_A0000 ∨ ∃ i, i < 8 ∧ msr = IA32_MTRR_FIX4K_C0000 + BitVec.ofNat 32 i)) ∨
    ∃ i, i < (variableRangeCount cap).toNat ∧ (msr = IA32_MTRR_PHYSBASE0 + BitVec.ofNat 32 (i * 2) ∨
      msr = IA32_MTRR_PHYSMASK0 + BitVec.ofNat 32 (i * 2)) := by
  rw [existingMtrrs, List.mem_cons, List.mem_append, List.mem_flatMap]
  refine or_congr_right (or_congr ?_ ?_)
  · by_cases fixed : fixedRangeSupported cap = true
    · rw [if_pos fixed, and_iff_right fixed]
      simp only [List.mem_cons, List.mem_map, List.mem_range, @eq_comm _ _ msr]
    · rw [if_neg fixed]
      exact iff_of_false List.not_mem_nil fun both => fixed both.1
  · simp only [List.mem_range, List.mem_cons, List.not_mem_nil, or_false]

theorem isMtrr_of_range (low : 0x200 ≤ msr.toNat) (high : msr.toNat ≤ 0x3FF) : isMtrr msr = true := by
  have inside : Mtrr.IA32_MTRR_PHYSBASE0 ≤ msr ∧ msr ≤ Mtrr.IA32_MTRR_PHYSBASE0 + 511 := by
    have first : Mtrr.IA32_MTRR_PHYSBASE0.toNat = 0x200 := by decide
    have last : (Mtrr.IA32_MTRR_PHYSBASE0 + 511).toNat = 0x3FF := by decide
    rw [BitVec.le_def, BitVec.le_def]
    omega
  exact decide_eq_true (.inr (.inr (.inr (.inr (.inr inside)))))

theorem existingMtrrs_range (here : msr ∈ existingMtrrs cap) :
    0x200 ≤ msr.toNat ∧ msr.toNat ≤ 0x3FF := by
  rcases mem_existingMtrrs.mp here with rfl | ⟨-, rfl | rfl | rfl | ⟨i, hi, rfl⟩⟩ | ⟨i, hi, rfl | rfl⟩
  · decide
  · decide
  · decide
  · decide
  · simp only [IA32_MTRR_FIX4K_C0000, BitVec.toNat_add, BitVec.ofNat_eq_ofNat, BitVec.toNat_ofNat]
    omega
  · have count := (variableRangeCount cap).isLt
    simp only [IA32_MTRR_PHYSBASE0, BitVec.toNat_add, BitVec.ofNat_eq_ofNat, BitVec.toNat_ofNat]
    omega
  · have count := (variableRangeCount cap).isLt
    simp only [IA32_MTRR_PHYSMASK0, BitVec.toNat_add, BitVec.ofNat_eq_ofNat, BitVec.toNat_ofNat]
    omega

theorem existingMtrrs_low (here : msr ∈ existingMtrrs cap) : msr ≤ MSR_ID_LOW_MAX := by
  have range := existingMtrrs_range here
  have limit : MSR_ID_LOW_MAX.toNat = 0x1FFF := by decide
  rw [BitVec.le_def]
  omega

/-- After enable_mtrr_exiting an MTRR leaves the guest if it was the last of its byte. -/
theorem exits_enableMtrrExiting (low : msr ≤ MSR_ID_LOW_MAX) :
    (enableMtrrExiting msrs bitmap).exits msr =
      match (sameByte (msrs IA32_MTRR_CAPABILITIES) msr).getLast? with
      | some last => decide (last = msr)
      | none => bitmap.exits msr := by
  rw [enableMtrrExiting_eq, sameByte]
  have all : ∀ other ∈ existingMtrrs (msrs IA32_MTRR_CAPABILITIES), other ≤ MSR_ID_LOW_MAX :=
    fun _ => existingMtrrs_low
  generalize existingMtrrs (msrs IA32_MTRR_CAPABILITIES) = list at all ⊢
  induction list using List.reverseRecOn with
  | nil => rfl
  | append_singleton list last ih =>
      have before := ih fun other mem => all other (List.mem_append_left _ mem)
      rw [List.foldl_append, List.foldl_cons, List.foldl_nil,
        exits_enable low (all last (List.mem_append_right _ List.mem_cons_self)), List.filter_append]
      by_cases same : last.toNat / 8 = msr.toNat / 8
      · rw [if_pos same, List.filter_cons_of_pos (by simpa using same), List.filter_nil,
          List.getLast?_concat]
      · rw [if_neg same, List.filter_cons_of_neg (by simpa using same), List.filter_nil,
          List.append_nil, before]

end Bits

end LMalz.Vmx
