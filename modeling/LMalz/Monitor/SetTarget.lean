import LMalz.Ept.Constructors
import LMalz.Ept.IdentityMap
import LMalz.Ept.Permissions
import LMalz.Ept.Recursion
import LMalz.Lib.Transition

/- The monitor keeps two tables: the vice EPT for the system and the target EPT for the
monitored pages (mods/vmx_monitor.cpp). -/
namespace LMalz.Monitor
open Ept

/-- A call ALvmxMNTsetTarget(va, size), with the ALhvMMgetPA of that time. -/
structure Call where
  va : BitVec 64
  size : BitVec 64
  getPa : BitVec 64 → BitVec 64

/-- The pages from `i` on that lie before `stop`. -/
def pagesBefore (stop i : BitVec 64) : List (BitVec 64) :=
  (List.range ((stop.toNat - i.toNat + 0xfff) / 0x1000)).map fun n => i + BitVec.ofNat 64 (0x1000 * n)

/-- The physical addresses that the loop of ALvmxMNTsetTarget passes to set_pte. -/
def Call.addresses (c : Call) : List (BitVec 64) :=
  let start := c.va &&& ~~~0xfff
  let stop := (c.va + c.size + 0xfff) &&& ~~~0xfff
  (pagesBefore stop start).map c.getPa

/-- The list is the loop `for (i = start; i < stop; i += 0x1000)`. -/
theorem pagesBefore_eq {stop i : BitVec 64} (inside : i.toNat + 0x1000 < 2^64) :
    pagesBefore stop i = if i < stop then i :: pagesBefore stop (i + 0x1000) else [] := by
  have step : (0x1000 : BitVec 64).toNat = 0x1000 := by decide
  have next : (i + 0x1000).toNat = i.toNat + 0x1000 := by
    rw [BitVec.toNat_add, step]
    omega
  have less : i < stop ↔ i.toNat < stop.toNat := BitVec.lt_def
  by_cases more : i.toNat < stop.toNat
  · have count : (stop.toNat - i.toNat + 0xfff) / 0x1000 =
        (stop.toNat - (i + 0x1000).toNat + 0xfff) / 0x1000 + 1 := by
      rw [next]
      omega
    rw [if_pos (less.mpr more), pagesBefore, count, List.range_succ_eq_map, List.map_cons,
      List.map_map, pagesBefore]
    refine congrArg₂ List.cons (by rw [Nat.mul_zero, BitVec.add_zero]) ?_
    refine List.map_congr_left fun n _ => ?_
    apply BitVec.eq_of_toNat_eq
    simp only [Function.comp, BitVec.toNat_add, BitVec.toNat_ofNat, step]
    omega
  · have count : (stop.toNat - i.toNat + 0xfff) / 0x1000 = 0 := by omega
    rw [if_neg (mt less.mp more), pagesBefore, count, List.range_zero, List.map_nil]

section Calls
variable (P : Platform) (fuel : Nat)

/-- The body of the loop: the target EPT may execute the page, the vice EPT may not. -/
def setTargetPage (target vice : EptCls) (pa : BitVec 64) (s : Machine) : Outcome Machine := do
  let (_, s) ← setPteAccess P fuel target pa ⟨true, true, true⟩ s
  let (_, s) ← setPteAccess P fuel vice pa ⟨true, true, false⟩ s
  return s

def setTargetPages (target vice : EptCls) : List (BitVec 64) → Machine → Outcome Machine
  | [], s => .ok s
  | pa :: pas, s => do
      let s ← setTargetPage P fuel target vice pa s
      setTargetPages target vice pas s

def alVmxMntSetTarget (target vice : EptCls) (c : Call) (s : Machine) : Outcome Machine :=
  setTargetPages P fuel target vice c.addresses s

/-- ALhvMMallocateMemory for something that is no table. -/
def request (size : Int) (s : Machine) : Outcome Machine :=
  match Pool.alHvMmAllocateMemory s.limits size with
  | some (_, lim) => .ok { s with limits := lim }
  | none => .killed

/-- The static of getViceEpt, made when the first core starts. -/
def getViceEpt (s : Machine) : Outcome (EptCls × Machine) := newClone P none s

/-- ALvmxMNTinit makes the infos of the cores and the static target_X_ept. `added` says that
the exit handlers could be added. -/
def alVmxMntInit (coreCount : Nat) (callback added : Bool) (s : Machine) :
    Outcome (Bool × EptCls × Machine) := do
  let s ← request (8 * coreCount) s
  let (target, s) ← newView P ⟨true, true, false⟩ s
  return (callback && target.eptPml4 != 0 && added, target, s)

end Calls

section Request
variable {P : Platform} {s : Machine} {role : Frame → Option (List Index)} {k : Nat} {size : Int}

theorem request_cases (h : Tables P s role k) (low : 0 ≤ size) (high : size < 2^62) :
    request size s = .killed ∨ ∃ lim k', request size s = .ok { s with limits := lim } ∧
      Tables P { s with limits := lim } role k' := by
  have bound := h.bound
  have top := h.top
  have usable := h.usable
  have total : Pool.poolSize = 0x1000 * poolPages := rfl
  have pages : poolPages = 2560 := rfl
  obtain ⟨topLow, topHigh⟩ := h.top
  rw [request, Pool.alHvMmAllocateMemory]
  by_cases big : 0x1000 ≤ size
  · have exact : Pool.int64 (s.limits.poolUsable + Pool.alignsPage size) =
        s.limits.poolUsable + (size + 0xfff) / 0x1000 * 0x1000 := by
      rw [Pool.alignsPage_eq low (by omega), Pool.int64_eq (by omega) (by omega)]
    simp only [Pool.beginAllocate, if_pos big, Pool.finishAllocate, exact]
    by_cases room : s.limits.poolUsable + (size + 0xfff) / 0x1000 * 0x1000 ≤ s.limits.poolBigMemEnd
    · right
      rw [if_pos room]
      refine ⟨_, k + ((size + 0xfff) / 0x1000).toNat, rfl, h.shaped, by omega, ?_, top,
        fun f placed => ?_, fun i later inside => h.fresh i (by omega) inside⟩
      · change s.limits.poolUsable + _ = _
        omega
      · obtain ⟨i, below, same⟩ := h.owned f placed
        exact ⟨i, by omega, same⟩
    · left
      rw [if_neg room]
      rfl
  · have exact : Pool.int64 (s.limits.poolBigMemEnd + -size) = s.limits.poolBigMemEnd - size := by
      rw [← Int.sub_eq_add_neg, Pool.int64_eq (by omega) (by omega)]
    simp only [Pool.beginAllocate, if_neg big, Pool.finishAllocate, exact]
    by_cases room : s.limits.poolUsable ≤ s.limits.poolBigMemEnd - size
    · right
      rw [if_pos room]
      refine ⟨_, k, rfl, h.shaped, h.bound, h.usable, ⟨?_, ?_⟩, h.owned, h.fresh⟩
      · change 0 ≤ s.limits.poolBigMemEnd - size
        omega
      · change s.limits.poolBigMemEnd - size ≤ Pool.poolSize
        omega
    · left
      rw [if_neg room]
      rfl

end Request

section Ends
variable {P : Platform} {fuel : Nat}

/-- No call of ALvmxMNTsetTarget recurses more often than the pool has pages. -/
theorem setTargetPages_ends (target vice : EptCls) (pas : List (BitVec 64)) {s : Machine}
    (sound : s.PoolSound) (enough : s.pagesLeft + 1 < fuel) :
    setTargetPages P fuel target vice pas s ≠ .outOfFuel := by
  induction pas generalizing s with
  | nil => simp [setTargetPages]
  | cons pa pas ih =>
      have first := setPteAccess_ends P target pa ⟨true, true, true⟩ fuel sound enough
      rw [setTargetPages, setTargetPage]
      cases run : setPteAccess P fuel target pa ⟨true, true, true⟩ s with
      | outOfFuel => exact absurd run first.stops
      | killed => simp
      | ok r =>
          obtain ⟨sound₁, left₁⟩ := first.after r.1 r.2 run
          have second := setPteAccess_ends P vice pa ⟨true, true, false⟩ fuel sound₁ (by omega)
          simp only [Outcome.ok_bind]
          cases run' : setPteAccess P fuel vice pa ⟨true, true, false⟩ r.2 with
          | outOfFuel => exact absurd run' second.stops
          | killed => simp
          | ok r' =>
              obtain ⟨sound₂, left₂⟩ := second.after r'.1 r'.2 run'
              simp only [Outcome.ok_bind, Outcome.pure_eq]
              exact ih sound₂ (by omega)

theorem alVmxMntSetTarget_ends (target vice : EptCls) (c : Call) {s : Machine}
    (sound : s.PoolSound) (enough : poolPages + 2 ≤ fuel) :
    alVmxMntSetTarget P fuel target vice c s ≠ .outOfFuel :=
  setTargetPages_ends target vice c.addresses sound (by have := pagesLeft_le sound; omega)

end Ends

end LMalz.Monitor
