import LMalz.Host.Forest
import LMalz.Host.SetAllPa

/- ALhvMMsetPDPTE, ALhvMMsetPDE and ALhvMMsetPTE beside the entries that the walk consults. -/
namespace LMalz.Host
open Ept (Entry Frame Index Machine largePage pageFrameNumber pml4Index pdptIndex pdIndex ptIndex)

/-- The index of an address at each level of the walk, from the PML4 on. -/
def indexAt (va : BitVec 64) : Nat → Index
  | 0 => pml4Index va
  | 1 => pdptIndex va
  | 2 => pdIndex va
  | _ => ptIndex va

/-- The indices that lead to the table of a level. -/
def wayTo (va : BitVec 64) : Nat → List Index
  | 0 => []
  | k + 1 => wayTo va k ++ [indexAt va k]

/-- The tables of the tree are pairwise distinct frames: tables that walks meet in one frame are met
at one level behind the same indices. -/
def DistinctTables (m : Memory) (root : Frame) : Prop :=
  ∀ va va' j k r r', (reads m root va)[j]? = some r → (reads m root va')[k]? = some r' →
    r.1 = r'.1 → j = k ∧ wayTo va j = wayTo va' k

/-- Nothing was written and 0 returned, or the entry that the walk of the address consults at level
`k` was written and nothing else: the getter finds it, and the walks of addresses with another entry
at that level consult the entries they did before, which have not changed. -/
def SetsEntry (k : Nat) (get : Memory → Frame → BitVec 64 → Entry) (root : Frame) (va : BitVec 64)
    (v : Entry) (s : Machine) (r : Bool × Machine) : Prop :=
  r = (false, s) ∨
  ∃ f, (reads s.mem root va)[k]? = some (f, indexAt va k) ∧
    r = (true, s.store f (indexAt va k) v) ∧ get r.2.mem root va = v ∧
    ∀ va', wayTo va' (k + 1) ≠ wayTo va (k + 1) →
      reads r.2.mem root va' = reads s.mem root va' ∧
        ∀ e ∈ reads s.mem root va', r.2.mem e.1 e.2 = s.mem e.1 e.2

section Reads
variable {m m' : Memory} {root f pdpt pd : Frame} {va va' : BitVec 64} {j k : Nat} {s : Machine}
  {v : Entry} {r : Frame × Index}

theorem reads_congr (same : ∀ r ∈ reads m root va, m' r.1 r.2 = m r.1 r.2) :
    reads m' root va = reads m root va := by
  have pml4e : m' root (pml4Index va) = m root (pml4Index va) :=
    same (root, pml4Index va) List.mem_cons_self
  simp only [reads, pml4e]
  rcases here : present (m root (pml4Index va))
  · rfl
  simp only [reads, here, Bool.true_eq_false, if_false, List.mem_cons, forall_eq_or_imp] at same
  obtain ⟨-, pdpte, same⟩ := same
  simp only [Bool.true_eq_false, if_false, pdpte]
  generalize m (pageFrameNumber (m root (pml4Index va))) (pdptIndex va) = e at same ⊢
  by_cases leaf : present e = false ∨ largePage e = true
  · rw [if_pos leaf, if_pos leaf]
  rw [if_neg leaf] at same ⊢
  rw [if_neg leaf]
  simp only [List.mem_cons, forall_eq_or_imp] at same
  rw [same.1]

theorem reads_pml4e : (reads m root va)[0]? = some (root, pml4Index va) := rfl

theorem reads_pdpte (here : present (m root (pml4Index va)) = true) :
    (reads m root va)[1]? = some (pageFrameNumber (m root (pml4Index va)), pdptIndex va) := by
  simp [reads, here]

theorem reads_pde (path : Path m root va pdpt pd) :
    (reads m root va)[2]? = some (pd, pdIndex va) := by
  simp [reads, path.pml4e, path.toPdpt, path.pdpte, path.small, path.toPd]

theorem reads_pte (path : Path m root va pdpt pd) (here : present (m pd (pdIndex va)) = true)
    (small : largePage (m pd (pdIndex va)) = false) :
    (reads m root va)[3]? = some (pageFrameNumber (m pd (pdIndex va)), ptIndex va) := by
  simp [reads, path.pml4e, path.toPdpt, path.pdpte, path.small, path.toPd, here, small]

theorem reads_gb (gb : GbPage m root va) : (reads m root va)[k + 2]? = none := by
  simp [reads, gb.1, gb.2.1, gb.2.2]

theorem reads_mb (path : Path m root va pdpt pd) (large : largePage (m pd (pdIndex va)) = true) :
    (reads m root va)[3]? = none := by
  simp [reads, path.pml4e, path.toPdpt, path.pdpte, path.small, path.toPd, large]

/-- The walk takes the index of the level in each table. -/
theorem reads_index (h : (reads m root va)[j]? = some r) : r.2 = indexAt va j := by
  unfold reads at h
  dsimp only at h
  split_ifs at h <;> rcases j with _ | _ | _ | _ | j <;> simp at h <;> rw [← h] <;> rfl

end Reads

section Store
variable {m : Memory} {root f pdpt pd : Frame} {va va' : BitVec 64} {j k : Nat} {s : Machine}
  {v : Entry} {r : Frame × Index}

theorem store_apart (other : r ≠ (f, indexAt va k)) :
    (s.store f (indexAt va k) v).mem r.1 r.2 = s.mem r.1 r.2 :=
  store_other (not_and_or.mp fun ⟨frame, index⟩ => other (Prod.ext frame index))

theorem store_level (tree : DistinctTables s.mem root)
    (hit : (reads s.mem root va)[k]? = some (f, indexAt va k)) (h : (reads s.mem root va)[j]? = some r)
    (apart : j ≠ k) : (s.store f (indexAt va k) v).mem r.1 r.2 = s.mem r.1 r.2 :=
  store_apart fun same => apart (tree va va j k _ _ h hit (same ▸ rfl)).1

/-- The walks of other addresses do not meet the entry. -/
theorem store_others (tree : DistinctTables s.mem root)
    (hit : (reads s.mem root va)[k]? = some (f, indexAt va k))
    (other : wayTo va' (k + 1) ≠ wayTo va (k + 1)) :
    reads (s.store f (indexAt va k) v).mem root va' = reads s.mem root va' ∧
      ∀ e ∈ reads s.mem root va', (s.store f (indexAt va k) v).mem e.1 e.2 = s.mem e.1 e.2 := by
  have untouched : ∀ e ∈ reads s.mem root va',
      (s.store f (indexAt va k) v).mem e.1 e.2 = s.mem e.1 e.2 := by
    intro e he
    obtain ⟨i, hi⟩ := List.getElem?_of_mem he
    refine store_apart ?_
    rintro rfl
    obtain ⟨rfl, way⟩ := tree va' va i k _ _ hi hit rfl
    have index : indexAt va i = indexAt va' i := reads_index hi
    exact other (by rw [wayTo, wayTo, way, index])
  exact ⟨reads_congr untouched, untouched⟩

theorem SetsEntry.of_hit {get : Memory → Frame → BitVec 64 → Entry} (tree : DistinctTables s.mem root)
    (hit : (reads s.mem root va)[k]? = some (f, indexAt va k))
    (got : get (s.store f (indexAt va k) v).mem root va = v) :
    SetsEntry k get root va v s (true, s.store f (indexAt va k) v) :=
  .inr ⟨f, hit, rfl, got, fun _ other => store_others tree hit other⟩

/-- A call that returns 1 has written an entry of the walk. -/
theorem SetsEntry.reaches {get : Memory → Frame → BitVec 64 → Entry} {t : Machine}
    (h : SetsEntry k get root va v s (true, t)) : (reads s.mem root va)[k]? ≠ none := by
  rcases h with zero | ⟨f, hit, -⟩
  · exact Bool.noConfusion (congrArg Prod.fst zero : true = false)
  · rw [hit]
    exact Option.some_ne_none _

theorem Path.store (tree : DistinctTables s.mem root) (path : Path s.mem root va pdpt pd)
    (hit : (reads s.mem root va)[k + 2]? = some (f, indexAt va (k + 2))) :
    Path (s.store f (indexAt va (k + 2)) v).mem root va pdpt pd := by
  have pml4e := store_level (v := v) tree hit reads_pml4e (by omega)
  have atPdpt : (reads s.mem root va)[1]? = some (pdpt, pdptIndex va) := by
    rw [reads_pdpte path.pml4e, path.toPdpt]
  have pdpte := store_level (v := v) tree hit atPdpt (by omega)
  refine ⟨?_, ?_, ?_, ?_, ?_⟩
  · rw [show (s.store f _ v).mem root _ = _ from pml4e]
    exact path.pml4e
  · rw [show (s.store f _ v).mem root _ = _ from pml4e]
    exact path.toPdpt
  · rw [show (s.store f _ v).mem pdpt _ = _ from pdpte]
    exact path.pdpte
  · rw [show (s.store f _ v).mem pdpt _ = _ from pdpte]
    exact path.small
  · rw [show (s.store f _ v).mem pdpt _ = _ from pdpte]
    exact path.toPd

theorem alHvMmSetPdpte_sets (tree : DistinctTables s.mem root) (va : BitVec 64) (v : Entry) :
    SetsEntry 1 alHvMmGetPdpte root va v s (alHvMmSetPdpte root va v s) := by
  rw [alHvMmSetPdpte, alHvMmGetPml4e]
  cases here : present (s.mem root (pml4Index va)) with
  | false =>
      rw [if_pos rfl]
      exact .inl rfl
  | true =>
      rw [if_neg (by decide)]
      have hit := reads_pdpte here
      refine .of_hit tree hit ?_
      have pml4e := store_level (v := v) tree hit reads_pml4e (by decide)
      rw [getPdpte_present (by rw [show (s.store _ _ v).mem root _ = _ from pml4e]; exact here),
        show (s.store _ _ v).mem root (pml4Index va) = _ from pml4e]
      exact store_here

theorem alHvMmSetPde_sets_iff (tree : DistinctTables s.mem root) (va : BitVec 64) (v : Entry) :
    SetsEntry 2 alHvMmGetPde root va v s (alHvMmSetPde root va v s) ↔ ¬ GbPage s.mem root va := by
  rw [alHvMmSetPde]
  cases here : present (alHvMmGetPdpte s.mem root va) with
  | false =>
      rw [if_pos rfl]
      refine iff_of_true (.inl rfl) fun gb => ?_
      rw [getPdpte_present gb.1, gb.2.1] at here
      cases here
  | true =>
      rw [if_neg (by decide)]
      constructor
      · intro sets gb
        exact sets.reaches (reads_gb (k := 0) gb)
      · intro noGb
        obtain ⟨pdpt, pd, path⟩ := Path.of_pdpte noGb here
        have hit := reads_pde path
        rw [path.getPdpte, path.toPd]
        refine .of_hit tree hit ?_
        rw [(path.store (k := 0) tree hit).getPde]
        exact store_here

theorem alHvMmSetPte_sets_iff (tree : DistinctTables s.mem root) (va : BitVec 64) (v : Entry) :
    SetsEntry 3 alHvMmGetPte root va v s (alHvMmSetPte root va v s) ↔
      (present (alHvMmGetPde s.mem root va) = true →
        ¬ GbPage s.mem root va ∧ largePage (alHvMmGetPde s.mem root va) = false) := by
  rw [alHvMmSetPte]
  cases here : present (alHvMmGetPde s.mem root va) with
  | false =>
      rw [if_pos rfl]
      exact iff_of_true (.inl rfl) fun wrong => absurd wrong (by decide)
  | true =>
      rw [if_neg (by decide)]
      have above : present (alHvMmGetPdpte s.mem root va) = true := by
        by_contra absent
        rw [getPde_absent (by simpa using absent)] at here
        cases here
      simp only [true_implies]
      constructor
      · intro sets
        have noGb : ¬ GbPage s.mem root va := fun gb => sets.reaches (reads_gb (k := 1) gb)
        obtain ⟨pdpt, pd, path⟩ := Path.of_pdpte noGb above
        refine ⟨noGb, ?_⟩
        rw [path.getPde]
        by_contra large
        exact sets.reaches (reads_mb path (by simpa using large))
      · rintro ⟨noGb, small⟩
        obtain ⟨pdpt, pd, path⟩ := Path.of_pdpte noGb above
        rw [path.getPde] at here small ⊢
        have hit := reads_pte path here small
        refine .of_hit tree hit ?_
        have pde := store_level (v := v) tree hit (reads_pde path) (by decide)
        have kept := (path.store (k := 1) (v := v) tree hit).getPde
        rw [show (s.store _ _ v).mem pd (pdIndex va) = _ from pde] at kept
        rw [alHvMmGetPte, kept, here, if_neg (by decide)]
        exact store_here

/-- Each setter writes the entry of the walk or nothing, unless a page of 1GB or 2MB ends the walk
above its level and what stands there passes for present entries. -/
theorem setters_entry_iff (tree : DistinctTables s.mem root) (va : BitVec 64) (v : Entry) :
    SetsEntry 1 alHvMmGetPdpte root va v s (alHvMmSetPdpte root va v s) ∧
    (SetsEntry 2 alHvMmGetPde root va v s (alHvMmSetPde root va v s) ↔ ¬ GbPage s.mem root va) ∧
    (SetsEntry 3 alHvMmGetPte root va v s (alHvMmSetPte root va v s) ↔
      (present (alHvMmGetPde s.mem root va) = true →
        ¬ GbPage s.mem root va ∧ largePage (alHvMmGetPde s.mem root va) = false)) :=
  ⟨alHvMmSetPdpte_sets tree va v, alHvMmSetPde_sets_iff tree va v, alHvMmSetPte_sets_iff tree va v⟩

def gbMachine : Machine := { Ept.coldMachine with mem := gbMemory }

theorem gb_tables {va : BitVec 64} {j : Nat} {r : Frame × Index}
    (h : (reads gbMemory 0 va)[j]? = some r) :
    j = 0 ∧ r.1 = 0 ∨ j = 1 ∧ r.1 = 1 ∧ pml4Index va = 0 := by
  by_cases slot : pml4Index va = 0
  · have leaf : ∀ i : Index, present (gbMemory 1 i) = false ∨ largePage (gbMemory 1 i) = true := by
      intro i
      by_cases first : i = 0
      · subst first
        exact .inr rfl
      · have zero : gbMemory 1 i = 0 := by
          rw [gbMemory, if_neg (fun top => absurd top.1 (by decide)), if_neg fun both => first both.2]
        exact .inl (by rw [zero]; rfl)
    have two : reads gbMemory 0 va = [(0, 0), (1, pdptIndex va)] := by
      simp only [reads, slot, show gbMemory 0 0 = 0x1003#64 from rfl,
        show present 0x1003#64 = true from rfl, show pageFrameNumber 0x1003#64 = 1 from rfl,
        if_pos (leaf (pdptIndex va)), Bool.true_eq_false, if_false]
    rw [two] at h
    rcases j with _ | _ | j
    · exact .inl ⟨rfl, by cases h; rfl⟩
    · exact .inr ⟨rfl, by cases h; rfl, slot⟩
    · cases h
  · have zero : gbMemory 0 (pml4Index va) = 0 := by
      rw [gbMemory, if_neg (fun both => slot both.2), if_neg fun top => absurd top.1 (by decide)]
    have one : reads gbMemory 0 va = [(0, pml4Index va)] := by
      simp only [reads, zero]
      rfl
    rw [one] at h
    rcases j with _ | j
    · exact .inl ⟨rfl, by cases h; rfl⟩
    · cases h

theorem gb_distinct : DistinctTables gbMemory 0 := by
  intro va va' j k r r' h h' same
  rcases gb_tables h with ⟨rfl, frame⟩ | ⟨rfl, frame, slot⟩ <;>
    rcases gb_tables h' with ⟨rfl, frame'⟩ | ⟨rfl, frame', slot'⟩
  · exact ⟨rfl, rfl⟩
  · rw [frame, frame'] at same
    exact absurd same (by decide)
  · rw [frame, frame'] at same
    exact absurd same (by decide)
  · exact ⟨rfl, by simp only [wayTo, indexAt, slot, slot']⟩

theorem setters_entry_gb :
    SetsEntry 1 alHvMmGetPdpte 0 0x1000 0x2003 gbMachine (alHvMmSetPdpte 0 0x1000 0x2003 gbMachine) ∧
    ¬ SetsEntry 2 alHvMmGetPde 0 0x1000 0x2003 gbMachine (alHvMmSetPde 0 0x1000 0x2003 gbMachine) := by
  obtain ⟨pdpte, pde, -⟩ := setters_entry_iff (s := gbMachine) gb_distinct 0x1000 0x2003
  exact ⟨pdpte, fun sets => pde.mp sets ⟨by decide, by decide, by decide⟩⟩

/-- Address 0 is in a page of 1GB, and ALhvMMsetPDE writes into its first 8 bytes. -/
theorem alHvMmSetPde_writes_data :
    DistinctTables gbMachine.mem 0 ∧
    walk gbMachine.mem 0 0 = some ⟨0x40000000, true⟩ ∧
    alHvMmSetPde 0 0 0x2003 gbMachine = (true, gbMachine.store 0x40000 0 0x2003) ∧
    ¬ SetsEntry 2 alHvMmGetPde 0 0 0x2003 gbMachine (alHvMmSetPde 0 0 0x2003 gbMachine) := by
  refine ⟨gb_distinct, by decide, rfl, fun sets => ?_⟩
  exact sets.reaches (by decide)

end Store
end LMalz.Host
