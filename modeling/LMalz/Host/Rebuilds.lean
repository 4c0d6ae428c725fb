import LMalz.Lib.Transition
import LMalz.Ept.IdentityMap
import LMalz.Host.GbPages

/- When a call of ALhvMMrebuildPath gives an address private tables and leaves the old ones alone,
after any number of calls. -/
namespace LMalz.Host
open Ept (Entry Frame Index Machine Platform Outcome largePage pageFrameNumber setPageFrameNumber
  pml4Index pdptIndex pdIndex ptIndex poolPages)
open Transition (Run)

/-- When a call that does not refuse spares the tables of old and the translations of new. -/
def Spares (P : Platform) (old new : Frame) (va : BitVec 64) (s : Machine) : Prop :=
  let pdpte := alHvMmGetPdpte s.mem new va
  let seen := withCopies P old new va s
  (¬ GbPage s.mem new va ∧ ¬ SharedPdpt s.mem old new va ∧
    (¬ SharedPd s.mem old new va ∨ GbPage s.mem old va ∨
      largePage (alHvMmGetPde s.mem new va) = true)) ∨
  (GbPage s.mem new va ∧ SharedPdpt s.mem old new va ∧
    (pdFrame s.mem new va = poolPage P s 1 ∨ TakesPml4e s.mem new va)) ∨
  (GbPage s.mem new va ∧ ¬ SharedPdpt s.mem old new va ∧
    (SharedPd s.mem old new va → pageFrameNumber1gb (setPageFrameNumber pdpte (poolPage P s 0)) =
      pageFrameNumber1gb pdpte) ∧
    (SharedPt seen old new va → pageFrameNumber (alHvMmGetPde seen new va) =
        poolPage P s (if SharedPd s.mem old new va then 1 else 0) ∨
      (¬ Belongs s.mem old (pdFrame s.mem new va) ∧ ¬ Leaf s.mem new (pdFrame s.mem new va))))

section Call
variable {P : Platform} {old new : Frame} {role : Frame → Option (List Index)} {n : Nat}
  {s t : Machine} {va : BitVec 64} {ret : Bool}

theorem Forest.rebuilt (h : Forest P old new role n s) (call : Rebuilt P old new s va t) :
    ∃ role' n', Forest P old new role' n' t := by
  obtain ⟨ret, done⟩ := call
  rcases h.rebuild_cases done with ⟨-, -, -, n', forest⟩ |
    ⟨-, goes, u, pdptNew, pdtNew, ptNew, b, c, d, x, rfl⟩
  · exact ⟨role, n', forest⟩
  by_cases gb : GbPage s.mem new va
  · by_cases shared : SharedPdpt s.mem old new va
    · obtain ⟨role', forest⟩ := x.forest_shared h gb goes shared
      exact ⟨role', d, forest⟩
    · obtain ⟨role', -, -, forest⟩ := x.forest_unshared h gb goes shared
      exact ⟨role', d, forest⟩
  · obtain ⟨pdpt, pd, path⟩ := Path.of_pdpte gb (accepted goes).2.2.2.1
    rw [x.relink_eq h path]
    obtain ⟨role', forest⟩ := x.forest_relinked h path
    exact ⟨role', d, forest⟩

/-- One call on trees whose pages have one place each. -/
theorem Forest.isolates_iff (h : Forest P old new role n s)
    (done : alHvMmRebuildPath P old new va s = .ok (ret, t)) :
    Isolates old new va s.mem t.mem ret ↔ Refused P old new va s ∨ Spares P old new va s := by
  rcases h.rebuild_cases done with ⟨rfl, refused, same, -⟩ |
    ⟨rfl, goes, u, pdptNew, pdtNew, ptNew, b, c, d, x, rfl⟩
  · refine iff_of_true ?_ (.inl refused)
    rintro f (inOld | inNew)
    · exact same f (h.placed h.oldRoot inOld)
    · exact same f (h.placed h.newRoot inNew)
  rw [Isolates, if_pos rfl, or_iff_right goes, Spares]
  by_cases gb : GbPage s.mem new va
  · by_cases shared : SharedPdpt s.mem old new va
    · simpa only [gb, shared, not_true_eq_false, false_and, true_and, false_or, or_false]
        using x.shared_iff h gb goes shared
    · simpa only [gb, shared, not_true_eq_false, not_false_eq_true, false_and, true_and, false_or]
        using x.unshared_iff h gb goes shared
  · obtain ⟨pdpt, pd, path⟩ := Path.of_pdpte gb (accepted goes).2.2.2.1
    simpa only [gb, not_false_eq_true, true_and, false_and, or_false] using x.path_iff h path goes

end Call

section Example

/-- A tree that maps one page, at the start of the upper half, and its copy in the first page of
the pool. -/
def treeMemory : Memory := fun f a =>
  if f = 0x100000 ∧ a = 256 then 0x100001063
  else if f = 0x100001 ∧ a = 0 then 0x100002063
  else if f = 0x100002 ∧ a = 0 then 0x100003063
  else if f = 0x100003 ∧ a = 0 then 0x200000063
  else if f = 1 ∧ a = 256 then 0x100001063
  else 0

def treeRole (f : Frame) : Option (List Index) :=
  if f = 0x100000 then some []
  else if f = 0x100001 then some [256]
  else if f = 0x100002 then some [256, 0]
  else if f = 0x100003 then some [256, 0, 0]
  else none

def treeMachine : Machine :=
  { Ept.coldMachine with mem := treeMemory, limits := ⟨0x1000, Pool.poolSize⟩ }

theorem treeMemory_cases {f : Frame} {a : Index} (nonzero : treeMemory f a ≠ 0) :
    (f = 0x100000 ∧ a = 256) ∨ (f = 0x100001 ∧ a = 0) ∨ (f = 0x100002 ∧ a = 0) ∨
      (f = 0x100003 ∧ a = 0) ∨ (f = 1 ∧ a = 256) := by
  unfold treeMemory at nonzero
  split_ifs at nonzero <;> simp_all

theorem treeMemory_roots {f : Frame} {a : Index} (root : f = 0x100000 ∨ f = 1) (other : a ≠ 256) :
    treeMemory f a = 0 := by
  by_contra nonzero
  rcases root with rfl | rfl <;> rcases treeMemory_cases nonzero with h | h | h | h | h <;>
    simp_all

theorem treeForest :
    Forest Ept.coldPlatform 0x100000 1 (Function.update treeRole 1 (some [])) 1 treeMachine := by
  refine Forest.of_copy (fun f is a g place short child => ?_) rfl (fun f place => ?_) rfl
    (fun a => ?_) (fun a here => ?_) (by decide) rfl ⟨by decide, Int.le_refl _⟩
    fun i above inside => ?_
  · have nonzero : treeMemory f a ≠ 0 := by
      intro zero
      rw [show treeMachine.mem f a = treeMemory f a from rfl, zero, next_eq_some] at child
      cases child.1
    rcases treeMemory_cases nonzero with ⟨rfl, rfl⟩ | ⟨rfl, rfl⟩ | ⟨rfl, rfl⟩ | ⟨rfl, rfl⟩ | ⟨rfl, rfl⟩
    · cases place
      cases child
      rfl
    · cases place
      cases child
      rfl
    · cases place
      cases child
      rfl
    · cases place
      exact absurd short (by decide)
    · cases place
  · unfold treeRole at place
    split_ifs at place with h
    · exact h
    all_goals cases place
  · by_cases here : a = 256
    · exact .inl (by rw [here]; rfl)
    · right
      rw [show treeMachine.mem 1 a = 0 from treeMemory_roots (.inr rfl) here]
      rfl
  · by_cases entry : a = 256
    · rw [entry]
      rfl
    · rw [show treeMachine.mem 0x100000 a = 0 from treeMemory_roots (.inl rfl) entry] at here
      cases here
  · have bound : poolPages = 2560 := rfl
    have frame : (Ept.coldPlatform.page i).toNat = i + 1 := by
      simp only [Ept.coldPlatform, BitVec.toNat_ofNat]
      omega
    have apart : ∀ f : Frame, f.toNat = 1 ∨ 2560 < f.toNat → Ept.coldPlatform.page i ≠ f := by
      rintro f away rfl
      omega
    refine ⟨?_, apart 1 (by decide)⟩
    rw [treeRole, if_neg (apart _ (by decide)), if_neg (apart _ (by decide)),
      if_neg (apart _ (by decide)), if_neg (apart _ (by decide))]

theorem treeMachine_rebuilt : ∃ t,
    alHvMmRebuildPath Ept.coldPlatform 0x100000 1 0xffff800000000000 treeMachine = .ok (true, t) ∧
      t.mem 0x100001 0 ≠ treeMachine.mem 0x100001 0 := by
  have run : (match alHvMmRebuildPath Ept.coldPlatform 0x100000 1 0xffff800000000000 treeMachine with
      | .ok (ret, t) => ret && t.mem 0x100001 0 != treeMachine.mem 0x100001 0
      | _ => false) = true := by decide +kernel
  split at run
  case h_1 ret t done =>
    obtain ⟨rfl, changed⟩ := Bool.and_eq_true_iff.mp run
    exact ⟨t, done, by simpa using changed⟩
  case h_2 => cases run

end Example

end LMalz.Host
