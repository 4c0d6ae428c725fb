import LMalz.Host.Window
import LMalz.Host.PrivatePaths
import LMalz.Monitor.SetTarget

/- ALhvMMgetHostCr3 of hvmem.cpp: the tables of the host, and what they share with the system. -/
namespace LMalz.Host
open Ept (Entry Frame Index Machine Platform Outcome Fresh pml4Index poolPages largePage)
open Monitor (pagesBefore)

section HostCr3
variable (P : Platform)

/-- The loop of ALhvMMrebuildPath(page_table_old, page_table, vadd, size). -/
def rebuildPages (pageTableOld pageTable : Frame) : List (BitVec 64) → Machine →
    Outcome (Bool × Machine)
  | [], s => .ok (true, s)
  | i :: is, s => do
      let (ret, s) ← alHvMmRebuildPath P pageTableOld pageTable i s
      if ret then rebuildPages pageTableOld pageTable is s else return (false, s)

/-- ALhvMMrebuildPath(page_table_old, page_table, vadd, size). -/
def alHvMmRebuildPathRange (pageTableOld pageTable : Frame) (vadd size : BitVec 64) (s : Machine) :
    Outcome (Bool × Machine) :=
  let size := (size + 0xfff) &&& ~~~0xfff
  rebuildPages P pageTableOld pageTable (pagesBefore size vadd) s

def alHvMmGetPoolSize : BitVec 64 := BitVec.ofInt 64 Pool.poolSize

/-- ALhvMMrebuildMemPoolPath, on ALhvMMgetPoolBase. -/
def alHvMmRebuildMemPoolPath (pageTableOld pageTable : Frame) (s : State) :
    Outcome (Bool × Machine) :=
  alHvMmRebuildPathRange P pageTableOld pageTable s.memBase alHvMmGetPoolSize s.machine

/-- ALhvMMgetHostCr3 for the image of the driver; the result is `*host_cr3_out`, none when it returns
0. -/
def alHvMmGetHostCr3 (known : Frame → Bool) (driverBase driverSize systemCr3 : BitVec 64) (s : State) :
    Outcome (Option (BitVec 64) × State) := do
  let (hostTable, s) ← alHvMmPrepareFakePageTables P known systemCr3 s
  match hostTable with
  | none => return (none, s)
  | some hostTable =>
      if hostTable = 0 then return (none, s)
      let hostcr3 := BitField.set systemCr3 12 hostTable
      let pt := addressOfPageDirectory systemCr3
      if known pt = false then return (none, s)
      let (ret, machine) ← alHvMmRebuildPathRange P pt hostTable driverBase driverSize s.machine
      let s : State := { s with machine }
      if ret = false then return (none, s)
      let (ret, machine) ← alHvMmRebuildMemPoolPath P pt hostTable s
      let s : State := { s with machine }
      if ret = false then return (none, s)
      return (some hostcr3, s)

end HostCr3

/-- The page is mapped by the host, through tables that the system does not have. -/
def PageIsolated (m : Memory) (system host : Frame) (va : BitVec 64) : Prop :=
  walk m host va ≠ none ∧ ∀ k f, 1 ≤ k → k ≤ 3 →
    PageTree.table next m host ((indices va).take k) = some f → ¬ Belongs m system f

/-- All pages of the driver and of the pool are isolated. -/
def HostIsolated (m : Memory) (system host : Frame) (driverBase driverSize pool : BitVec 64) : Prop :=
  (∀ va ∈ pagesBefore (driverBase + driverSize) driverBase, PageIsolated m system host va) ∧
    ∀ va ∈ pagesBefore (pool + alHvMmGetPoolSize) pool, PageIsolated m system host va

section Sharing
variable {P : Platform} {known : Frame → Bool} {s t : State} {k : Nat}
  {driverBase driverSize systemCr3 pool vadd size : BitVec 64}

/-- An address of the upper half is never below a size. -/
theorem pagesBefore_upper (upper : 2^63 ≤ vadd.toNat) (small : size.toNat < 2^63) :
    pagesBefore size vadd = [] := by
  have none : (size.toNat - vadd.toNat + 0xfff) / 0x1000 = 0 := by omega
  rw [pagesBefore, none, List.range_zero, List.map_nil]

theorem alHvMmRebuildPathRange_upper {old new : Frame} {m : Machine} (upper : 2^63 ≤ vadd.toNat)
    (small : size.toNat < 2^62) : alHvMmRebuildPathRange P old new vadd size m = .ok (true, m) := by
  have bound : ((size + 0xfff) &&& ~~~(0xfff : BitVec 64)).toNat < 2^63 := by
    have le : ((size + 0xfff) &&& ~~~(0xfff : BitVec 64)).toNat ≤ (size + 0xfff).toNat := by
      rw [BitVec.toNat_and]
      exact Nat.and_le_left
    have sum : (size + 0xfff).toNat = size.toNat + 0xfff := by
      rw [BitVec.toNat_add]
      exact Nat.mod_eq_of_lt (by simp only [BitVec.ofNat_eq_ofNat, BitVec.toNat_ofNat]; omega)
    omega
  rw [alHvMmRebuildPathRange, pagesBefore_upper upper bound, rebuildPages]

/-- A canonical address of the upper half. -/
def Kernel (va : BitVec 64) : Prop := 0xffff800000000000 ≤ va.toNat

theorem Kernel.pml4Index {va : BitVec 64} (h : Kernel va) : 256 ≤ (pml4Index va).toNat := by
  have low : 0xffff800000000000 ≤ va.toNat := h
  have high := va.isLt
  rw [Ept.pml4Index, BitField.toNat_get]
  omega

/-- Both loops are skipped, so the tables are those of ALhvMMprepare_fake_page_tables. -/
theorem alHvMmGetHostCr3_eq (known : Frame → Bool) (systemCr3 : BitVec 64)
    (fresh : Fresh P s.machine k) (driver : Kernel driverBase) (image : driverSize.toNat < 2^62) :
    Ept.Died (alHvMmGetHostCr3 P known driverBase driverSize systemCr3 s) s.machine (k + 66) ∨
      (∃ t, alHvMmGetHostCr3 P known driverBase driverSize systemCr3 s = .ok (none, t) ∧
        (known (addressOfPageDirectory systemCr3) = false ∨
          ∀ z ∈ upperHalf, s.machine.mem (addressOfPageDirectory systemCr3) z ≠ 0)) ∨
      ∃ z t, alHvMmGetHostCr3 P known driverBase driverSize systemCr3 s =
          .ok (some (BitField.set systemCr3 12 (P.page k)), t) ∧
        Prepared P k (addressOfPageDirectory systemCr3) s z t := by
  have driver' : 0xffff800000000000 ≤ driverBase.toNat := driver
  rw [alHvMmGetHostCr3]
  rcases alHvMmPrepareFakePageTables_cases fresh known systemCr3 with died | ⟨t, none, full⟩ |
    ⟨z, t, done, prepared⟩
  · exact .inl (died.bind _)
  · right
    left
    rw [none]
    exact ⟨t, rfl, full⟩
  · right
    have base : 2^63 ≤ t.memBase.toNat := by
      rw [prepared.memBase, toNat_windowBase]
      omega
    have room : k < poolPages := by
      have := prepared.window.bound
      omega
    rcases seen : known (addressOfPageDirectory systemCr3)
    · left
      rw [done]
      exact ⟨t, by simp only [Outcome.ok_bind, if_neg (P.nonzero k room), seen, if_true]; rfl, .inl rfl⟩
    right
    refine ⟨z, t, ?_, prepared⟩
    simp only [done, Outcome.ok_bind, if_neg (P.nonzero k room), seen, Bool.true_eq_false, if_false,
      alHvMmRebuildPathRange_upper (show 2^63 ≤ driverBase.toNat by omega) image,
      alHvMmRebuildMemPoolPath, alHvMmRebuildPathRange_upper base (show
        alHvMmGetPoolSize.toNat < 2^62 by decide)]
    rfl

theorem Prepared.shares {pt : Frame} {z : Index} (fresh : Fresh P s.machine k)
    (prepared : Prepared P k pt s z t) (kernel : Kernel pool)
    (inside : pool.toNat + alHvMmGetPoolSize.toNat < 2^64)
    (mapped : next (s.machine.mem pt (pml4Index pool)) ≠ none) :
    ¬ HostIsolated t.machine.mem pt (P.page k) driverBase driverSize pool := by
  have entry : s.machine.mem pt (pml4Index pool) ≠ 0 := by
    intro zero
    rw [zero] at mapped
    exact mapped rfl
  have outside : ∀ i, k ≤ i → i < poolPages → pt ≠ P.page i := by
    rintro i above room rfl
    exact entry (fresh.zero i above room _)
  have system : t.machine.mem pt = s.machine.mem pt := prepared.window.others pt outside
  have host : t.machine.mem (P.page k) (pml4Index pool) = s.machine.mem pt (pml4Index pool) := by
    have other : pml4Index pool ≠ z := by
      intro same
      rw [same] at entry
      exact entry prepared.unused
    rw [prepared.window.pml4, Function.update_of_ne other, upperCopy, if_pos kernel.pml4Index]
  obtain ⟨pdpt, toPdpt⟩ := Option.ne_none_iff_exists'.mp mapped
  intro isolated
  have first : pool ∈ pagesBefore (pool + alHvMmGetPoolSize) pool := by
    have sum : (pool + alHvMmGetPoolSize).toNat = pool.toNat + alHvMmGetPoolSize.toNat := by
      rw [BitVec.toNat_add]
      exact Nat.mod_eq_of_lt inside
    have size : alHvMmGetPoolSize.toNat = 0xa00000 := by decide
    rw [Monitor.pagesBefore_eq (by omega), if_pos (BitVec.lt_def.mpr (by omega))]
    exact List.mem_cons_self
  refine (isolated.2 pool first).2 1 pdpt (by decide) (by decide) ?_ ⟨[pml4Index pool], by simp, ?_⟩
  · simp only [indices, List.take, PageTree.table, host, toPdpt, Option.bind_some]
  · simp only [PageTree.table, system, toPdpt, Option.bind_some]

/-- What ALhvMMgetHostCr3 returns shares the tables of the pool with the system. -/
theorem hostCr3_never_isolated (fresh : Fresh P s.machine k) (driver : Kernel driverBase)
    (image : driverSize.toNat < 2^62) (kernel : Kernel pool)
    (inside : pool.toNat + alHvMmGetPoolSize.toNat < 2^64)
    (mapped : next (s.machine.mem (addressOfPageDirectory systemCr3) (pml4Index pool)) ≠ none)
    {hostCr3 : BitVec 64}
    (done : alHvMmGetHostCr3 P known driverBase driverSize systemCr3 s = .ok (some hostCr3, t)) :
    ¬ HostIsolated t.machine.mem (addressOfPageDirectory systemCr3) (addressOfPageDirectory hostCr3)
      driverBase driverSize pool := by
  rcases alHvMmGetHostCr3_eq known systemCr3 fresh driver image with died | ⟨_, refused, -⟩ |
    ⟨z, t', ret, prepared⟩
  · rw [died.1] at done
    cases done
  · rw [refused] at done
    cases done
  · rw [ret] at done
    cases done
    have root : addressOfPageDirectory (BitField.set systemCr3 12 (P.page k)) = P.page k :=
      BitField.get_set _ (by decide)
    rw [root]
    exact prepared.shares fresh kernel inside mapped

end Sharing

section Example

theorem systemState_host : ∃ z t,
    alHvMmGetHostCr3 Ept.coldPlatform (fun _ => true) 0xfffff80000000000 0x8000 0x100000000 systemState =
        .ok (some (BitField.set 0x100000000 12 (Ept.coldPlatform.page 0)), t) ∧
      Prepared Ept.coldPlatform 0 0x100000 systemState z t := by
  have kernel : Kernel 0xfffff80000000000 :=
    show 0xffff800000000000 ≤ (0xfffff80000000000 : BitVec 64).toNat by decide
  have image : (0x8000 : BitVec 64).toNat < 2^62 := by decide
  rcases alHvMmGetHostCr3_eq (fun _ => true) 0x100000000 systemState_fresh kernel image with died | ⟨_, -, unseen | full⟩ | ⟨z, t, done, prepared⟩
  · have short := died.2
    exact absurd short (by decide)
  · cases unseen
  · exact absurd rfl (full 256 (by decide))
  · exact ⟨z, t, done, prepared⟩

theorem hostCr3_never_isolated_system : ∃ hostCr3 t,
    alHvMmGetHostCr3 Ept.coldPlatform (fun _ => true) 0xfffff80000000000 0x8000 0x100000000 systemState =
        .ok (some hostCr3, t) ∧
      ¬ HostIsolated t.machine.mem (addressOfPageDirectory 0x100000000) (addressOfPageDirectory hostCr3)
        0xfffff80000000000 0x8000 0xffffff8000000000 := by
  obtain ⟨z, t, done, -⟩ := systemState_host
  exact ⟨_, t, done, hostCr3_never_isolated systemState_fresh
    (show 0xffff800000000000 ≤ (0xfffff80000000000 : BitVec 64).toNat by decide) (by decide)
    (show 0xffff800000000000 ≤ (0xffffff8000000000 : BitVec 64).toNat by decide) (by decide)
    (by decide) done⟩

theorem hostCr3_shares_pool : ∃ t,
    alHvMmGetHostCr3 Ept.coldPlatform (fun _ => true) 0xfffff80000000000 0x8000 0x100000000 systemState =
        .ok (some (BitField.set 0x100000000 12 (Ept.coldPlatform.page 0)), t) ∧
      ¬ HostIsolated t.machine.mem 0x100000 (Ept.coldPlatform.page 0) 0xfffff80000000000 0x8000
        0xffffff8000000000 := by
  obtain ⟨z, t, done, prepared⟩ := systemState_host
  exact ⟨t, done, prepared.shares systemState_fresh
    (show 0xffff800000000000 ≤ (0xffffff8000000000 : BitVec 64).toNat by decide) (by decide)
    (by decide)⟩

end Example

end LMalz.Host
