import LMalz.Host.Window

/- ALhvMMsetAllPA adds one window to the tables of any root. -/
namespace LMalz.Host
open Ept (Platform Outcome Fresh poolPages Frame Index largePage pageFrameNumber pml4Index pdptIndex
  pdIndex ptIndex Below512G)
open Function (update)

/-- The entries that the walk of an address reads. -/
def reads (m : Memory) (table : Frame) (va : BitVec 64) : List (Frame × Index) :=
  let pml4e := m table (pml4Index va)
  (table, pml4Index va) :: if present pml4e = false then [] else
    let pdpte := m (pageFrameNumber pml4e) (pdptIndex va)
    (pageFrameNumber pml4e, pdptIndex va) :: if present pdpte = false ∨ largePage pdpte then [] else
      let pde := m (pageFrameNumber pdpte) (pdIndex va)
      (pageFrameNumber pdpte, pdIndex va) :: if present pde = false ∨ largePage pde then [] else
        [(pageFrameNumber pde, ptIndex va)]

/-- The address with index `z` in the pml4 and zeros below it. -/
def canonicalBase (z : Index) : BitVec 64 := (z ++ (0 : BitVec 39) : BitVec 48).signExtend 64

/-- `t` is `s` with a window on physical memory in slot `z` of the pml4. -/
structure AddsWindow (P : Platform) (k : Nat) (pageTable : Frame) (s : State) (z : Index)
    (t : State) : Prop where
  upper : 256 ≤ z.toNat
  unused : s.machine.mem pageTable z = 0
  base : t.memBase = canonicalBase z
  window : ∀ off, Below512G off → walk t.machine.mem pageTable (canonicalBase z + off) =
    if off.toNat < 2^36 then some ⟨off, true⟩ else none
  entries : ∀ a, a ≠ z → t.machine.mem pageTable a = s.machine.mem pageTable a
  frames : ∀ f, f ≠ pageTable → (∀ i, k ≤ i → i < poolPages → f ≠ P.page i) →
    t.machine.mem f = s.machine.mem f
  translations : ∀ va, (pageTable, z) ∉ reads s.machine.mem pageTable va →
    walk t.machine.mem pageTable va = walk s.machine.mem pageTable va

section Reads
variable {m m' : Memory} {table : Frame} {va : BitVec 64} {z : Index}

theorem walk_absent (absent : present (m table (pml4Index va)) = false) : walk m table va = none :=
  if_pos absent

theorem walk_congr_reads (same : ∀ r ∈ reads m table va, m' r.1 r.2 = m r.1 r.2) :
    walk m' table va = walk m table va := by
  have pml4e : m' table (pml4Index va) = m table (pml4Index va) :=
    same (table, pml4Index va) List.mem_cons_self
  simp only [walk, pml4e]
  rcases here : present (m table (pml4Index va))
  · rfl
  simp only [reads, here, Bool.true_eq_false, if_false, List.mem_cons, forall_eq_or_imp] at same
  obtain ⟨-, pdpte, same⟩ := same
  simp only [Bool.true_eq_false, if_false, pdpte]
  generalize m (pageFrameNumber (m table (pml4Index va))) (pdptIndex va) = e at same ⊢
  by_cases leaf : present e = false ∨ largePage e = true
  · rcases leaf with absent | large
    · simp only [absent, if_true]
    · simp only [large, if_true]
  rw [if_neg leaf] at same
  simp only [List.mem_cons, forall_eq_or_imp] at same
  obtain ⟨pde, same⟩ := same
  rw [not_or] at leaf
  simp only [leaf.1, leaf.2, pde]
  generalize m (pageFrameNumber e) (pdIndex va) = e' at same ⊢
  by_cases leaf' : present e' = false ∨ largePage e' = true
  · rcases leaf' with absent | large
    · simp only [absent, if_true]
    · simp only [large, if_true]
  rw [if_neg leaf'] at same
  have pte := same _ List.mem_cons_self
  rw [not_or] at leaf'
  simp only [leaf'.1, leaf'.2, pte]

/-- A slot of the upper half needs ones above bit 47. -/
theorem windowBase_eq (upper : 256 ≤ z.toNat) : windowBase z = canonicalBase z := by
  have slot : (z ++ (0 : BitVec 39) : BitVec 48).toNat = z.toNat * 2^39 := by
    rw [BitVec.toNat_append, ← Nat.shiftLeft_add_eq_or_of_lt (BitVec.isLt _), Nat.shiftLeft_eq,
      BitVec.ofNat_eq_ofNat, BitVec.toNat_ofNat, Nat.zero_mod, Nat.add_zero]
  have sign : (z ++ (0 : BitVec 39) : BitVec 48).msb = true := by
    rw [BitVec.msb_eq_decide, slot, decide_eq_true_iff]
    omega
  have bound := z.isLt
  apply BitVec.eq_of_toNat_eq
  rw [toNat_windowBase, canonicalBase, BitVec.toNat_signExtend, sign, BitVec.toNat_setWidth, slot]
  simp only [if_true]
  omega

end Reads

section SetAllPa
variable {P : Platform} {k : Nat} {pageTable : Frame} {s t : State} {z z' : Index}

theorem AddsWindow.unique (h : AddsWindow P k pageTable s z t) (h' : AddsWindow P k pageTable s z' t) :
    z' = z := by
  by_contra other
  have absent : t.machine.mem pageTable z = 0 := by
    rw [h'.entries z (Ne.symm other), h.unused]
  have low : Below512G 0 := show (0 : BitVec 64).toNat < 2^39 by decide
  have slot : pml4Index (canonicalBase z + 0) = z := by
    rw [← windowBase_eq h.upper, (window_indices low).1]
  have first := h.window 0 low
  rw [walk_absent (by rw [slot, absent]; rfl), if_pos (by decide)] at first
  cases first

/-- ALhvMMsetAllPA adds one window and nothing else. The walks do not read the free pages of the
pool. -/
theorem setAllPa_adds_window (fresh : Fresh P s.machine k)
    (unread : ∀ va, ∀ r ∈ reads s.machine.mem pageTable va, ∀ i, k ≤ i → i < poolPages →
      r.1 ≠ P.page i) :
    (∀ t, alHvMmSetAllPa P pageTable s = .ok (true, t) → ∃! z, AddsWindow P k pageTable s z t) ∧
      ((∀ z : Index, 256 ≤ z.toNat → s.machine.mem pageTable z ≠ 0) →
        alHvMmSetAllPa P pageTable s = .ok (false, s)) := by
  have apart : ∀ i, k ≤ i → i < poolPages → pageTable ≠ P.page i :=
    unread 0 (pageTable, pml4Index 0) List.mem_cons_self
  refine ⟨fun t done => ?_, fun full => ?_⟩
  · rcases first : upperHalf.find? fun z => s.machine.mem pageTable z = 0 with _ | z
    · rw [alHvMmSetAllPa, first] at done
      cases done
    have upper := toNat_mem_upperHalf (List.mem_of_find?_eq_some first)
    have unused : s.machine.mem pageTable z = 0 := by simpa using List.find?_some first
    rcases alHvMmSetAllPa_adds fresh apart first with died | ⟨start, u, ret, d, -, root, others⟩
    · rw [died.1] at done
      cases done
    rw [ret] at done
    cases done
    have adds : AddsWindow P k pageTable s z ⟨u, windowBase z⟩ := by
      refine ⟨upper, unused, windowBase_eq upper, fun off low => ?_, fun a other => ?_, others,
        fun va unchanged => walk_congr_reads fun r mem => ?_⟩
      · rw [← windowBase_eq upper]
        exact d.walk (by rw [root, Function.update_self]) low
      · rw [root, Function.update_of_ne other]
      · obtain ⟨f, a⟩ := r
        by_cases here : f = pageTable
        · subst here
          have other : a ≠ z := by
            rintro rfl
            exact unchanged mem
          show u.mem f a = _
          rw [root, Function.update_of_ne other]
        · exact congrFun (others f here (unread va (f, a) mem)) a
    exact ⟨z, adds, fun z' adds' => adds.unique adds'⟩
  · have none : upperHalf.find? (fun z => s.machine.mem pageTable z = 0) = none := by
      refine List.find?_eq_none.mpr fun z mem => ?_
      simpa using full z (toNat_mem_upperHalf mem)
    rw [alHvMmSetAllPa, none]

/-- A machine before init with a table, at frame 0x100000, whose last entry maps the table itself. -/
def selfMapState : State where
  machine := { Ept.coldMachine with
    mem := fun f a => if f = 0x100000 ∧ a = 511 then 0x100000063 else 0 }
  memBase := 0

theorem selfMapState_fresh : Fresh Ept.coldPlatform selfMapState.machine 0 :=
  ⟨Nat.zero_le _, rfl, ⟨by decide, Int.le_refl _⟩, fun _ _ inside _ =>
    if_neg fun here => coldPlatform_page_ne inside here.1⟩

theorem selfMapState_frame {a : Index} (here : present (selfMapState.machine.mem 0x100000 a) = true) :
    pageFrameNumber (selfMapState.machine.mem 0x100000 a) = 0x100000 := by
  have last : a = 511 := by
    by_contra other
    rw [show selfMapState.machine.mem 0x100000 a = 0 from if_neg fun both => other both.2] at here
    cases here
  subst last
  decide

theorem selfMapState_reads {va : BitVec 64} {r : Frame × Index}
    (mem : r ∈ reads selfMapState.machine.mem 0x100000 va) : r.1 = 0x100000 := by
  rcases List.mem_cons.mp mem with rfl | mem
  · rfl
  rcases pml4e : present (selfMapState.machine.mem 0x100000 (pml4Index va))
  · rw [if_pos pml4e] at mem
    cases mem
  rw [if_neg ((Bool.not_eq_false _).mpr pml4e)] at mem
  simp only [selfMapState_frame pml4e] at mem
  rcases List.mem_cons.mp mem with rfl | mem
  · rfl
  rcases pdpte : present (selfMapState.machine.mem 0x100000 (pdptIndex va))
  · rw [if_pos (.inl pdpte)] at mem
    cases mem
  split at mem
  · cases mem
  simp only [selfMapState_frame pdpte] at mem
  rcases List.mem_cons.mp mem with rfl | mem
  · rfl
  rcases pde : present (selfMapState.machine.mem 0x100000 (pdIndex va))
  · rw [if_pos (.inl pde)] at mem
    cases mem
  split at mem
  · cases mem
  rw [List.mem_singleton.mp mem]
  exact selfMapState_frame pde

theorem selfMapState_adds : ∃ start t,
    alHvMmSetAllPa Ept.coldPlatform 0x100000 selfMapState = .ok (true, ⟨t, windowBase 256⟩) ∧
      Directories Ept.coldPlatform 0 start 64 t ∧
      t.mem 0x100000 = update (selfMapState.machine.mem 0x100000) 256
        (windowEntry (Ept.coldPlatform.page 0)) := by
  rcases alHvMmSetAllPa_adds selfMapState_fresh (fun _ _ inside => (coldPlatform_page_ne inside).symm)
    (show _ = some (256 : Index) by decide) with died | ⟨start, t, done, d, -, root, -⟩
  · have short := died.2
    exact absurd short (by decide)
  · exact ⟨start, t, done, d, root⟩

theorem setAllPa_adds_window_self : ∃ t,
    alHvMmSetAllPa Ept.coldPlatform 0x100000 selfMapState = .ok (true, t) ∧
      ∃! z, AddsWindow Ept.coldPlatform 0 0x100000 selfMapState z t := by
  obtain ⟨-, t, done, -⟩ := selfMapState_adds
  refine ⟨_, done, (setAllPa_adds_window selfMapState_fresh fun va r mem i _ inside => ?_).1 _ done⟩
  rw [selfMapState_reads mem]
  exact (coldPlatform_page_ne inside).symm

/-- The address 0xffffffc000000000 goes through the last slot, and then through slot 256 of the same
page. -/
theorem setAllPa_seen_through_self_map : ∃ t,
    alHvMmSetAllPa Ept.coldPlatform 0x100000 selfMapState = .ok (true, t) ∧
      t.memBase = canonicalBase 256 ∧ pml4Index 0xffffffc000000000 = 511 ∧
      walk selfMapState.machine.mem 0x100000 0xffffffc000000000 = none ∧
      walk t.machine.mem 0x100000 0xffffffc000000000 ≠ none := by
  obtain ⟨_, t, done, d, root⟩ := selfMapState_adds
  refine ⟨_, done, windowBase_eq (by decide), by decide, by decide, ?_⟩
  have last : t.mem 0x100000 511 = 0x100000063 := by
    rw [root]
    rfl
  have slot : t.mem 0x100000 256 = windowEntry (Ept.coldPlatform.page 0) := by
    rw [root, Function.update_self]
  have first : t.mem (Ept.coldPlatform.page 0) 0 = windowEntry (Ept.coldPlatform.page 1) := by
    rw [d.pdpt]
    rfl
  have pd : t.mem (Ept.coldPlatform.page 1) 0 = windowPde 0 0 := by
    rw [d.pd 0 (by decide)]
    rfl
  have toRoot : pageFrameNumber 0x100000063 = 0x100000 := by decide
  have mapped : present 0x100000063 = true := by decide
  simp only [walk, show pml4Index 0xffffffc000000000 = 511 by decide,
    show pdptIndex 0xffffffc000000000 = 256 by decide, show pdIndex 0xffffffc000000000 = 0 by decide,
    show ptIndex 0xffffffc000000000 = 0 by decide, last, toRoot, mapped, slot, first, pd,
    present_windowEntry, largePage_windowEntry, pageFrameNumber_windowEntry, present_windowPde,
    Bool.true_eq_false, Bool.false_eq_true, if_false, ne_eq, reduceCtorEq, not_false_iff]

end SetAllPa

end LMalz.Host
