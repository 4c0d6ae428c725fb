import LMalz.Ept.Edits

/- set_pte as a sequence of edits: copies of shared tables, a split, and the entry. -/
namespace LMalz.Ept
open Function (update)
open PageTree (table entry graft Typed)

/-- The copy of a table takes the access of the entry that pointed to it. -/
def copiedPage (m : Memory) (e : Entry) (b : Index) : Entry :=
  setAccess (m (pageFrameNumber e) b) (access e)

/-- The entry at level `n` gets its own copy of the table below, in pool page `k`. -/
def Machine.remap (P : Platform) (s : Machine) (k : Nat) (gpa : BitVec 64) (n : Nat) (f : Frame) :
    Machine :=
  let e := s.mem f (indexAt gpa n)
  s.hang P k f (indexAt gpa n) (setAccess (setPageFrameNumber e (P.page k)) .full)
    (copiedPage s.mem e)

/-- The 2MB page or absent pde in table `f` becomes a table, in pool page `k`. -/
def Machine.split (P : Platform) (s : Machine) (k : Nat) (gpa : BitVec 64) (f : Frame)
    (demo : Entry) : Machine :=
  (s.hang P k f (indexAt gpa 2) (tableEntry (P.page k))
    fun i => demoPte s (gpa &&& ~~~(0x200000 - 1)) demo 0 i).latch

section Steps
variable {P : Platform} {s : Machine} {role : Frame → Option (List Index)} {k : Nat}
  {X : EptCls} {gpa : BitVec 64} {pte : Entry} {fuel : Nat}

theorem Tables.remap (h : Tables P s role k) (room : k < poolPages)
    (hX : role X.eptPml4 = some []) (low : pml4Index gpa = 0) {n : Nat} (upper : n ≤ 2) {f : Frame}
    (hf : tableAt s.mem X.eptPml4 gpa n = some f)
    (deeper : tableAt s.mem X.eptPml4 gpa (n + 1) ≠ none) :
    Tables P (s.remap P k gpa n f) (roleOfNew P role k (place gpa (n + 1))) (k + 1) := by
  have hrole := h.shaped.role_tableAt hX (by omega) hf
  have first : place gpa n = [] → indexAt gpa n = 0 := by
    intro top
    cases n with
    | zero => exact low
    | succ n => simp [place] at top
  have small : largePage (s.mem f (indexAt gpa n)) = false ∧
      role (pageFrameNumber (s.mem f (indexAt gpa n))) = some (place gpa n ++ [indexAt gpa n]) := by
    rcases h.shaped.below f _ (indexAt gpa n) hrole (by simp; omega) first with below | ⟨-, large⟩
    · exact below
    · rw [tableAt_succ, entryAt_eq hf, Option.bind_some, Ept.child, if_pos (.inl large)] at deeper
      exact absurd rfl deeper
  refine h.hang room hrole (by simp; omega) first (by simpa using small.1) (by simp) ?_
  intro short b
  have more : (place gpa n ++ [indexAt gpa n]).length < 3 := by
    rw [List.length_append, List.length_singleton]
    omega
  rw [copiedPage, largePage_setAccess, pageFrameNumber_setAccess]
  rcases h.shaped.below _ _ b small.2 more (by simp) with deep | ⟨two, large⟩
  · exact .inl deep
  · simp only [List.length_append, List.length_singleton] at two
    exact .inr ⟨by omega, large⟩

theorem child_tableAt {m : Memory} {root f : Frame} {n : Nat}
    (hf : tableAt m root gpa n = some f) (deeper : tableAt m root gpa (n + 1) ≠ none) :
    largePage (m f (indexAt gpa n)) = false ∧
      tableAt m root gpa (n + 1) = some (pageFrameNumber (m f (indexAt gpa n))) := by
  rw [tableAt_succ, entryAt_eq hf, Option.bind_some] at deeper ⊢
  cases hg : child (m f (indexAt gpa n)) with
  | none => exact absurd hg deeper
  | some g =>
      obtain ⟨small, rfl, -⟩ := child_eq_some.mp hg
      exact ⟨small, rfl⟩

theorem setPte_direct (pte : Entry) (fuel : Nat) (needs : (needRemap s X gpa).1 = 0) :
    setPte P (fuel + 1) X gpa pte s = alVmxEptSetPte P fuel gpa pte X.eptPml4 s := by
  rw [setPte]
  exact if_pos needs

theorem setPte_remap (pte : Entry) (fuel : Nat) (h : Tables P s role k) (hX : role X.eptPml4 = some [])
    (low : pml4Index gpa = 0) {n : Nat} {e : Entry} (needs : needRemap s X gpa = (n + 1, e))
    (upper : n ≤ 2) {f : Frame} (hf : tableAt s.mem X.eptPml4 gpa n = some f)
    (he : entryAt s.mem X.eptPml4 gpa n = some e)
    (deeper : tableAt s.mem X.eptPml4 gpa (n + 1) ≠ none) :
    (allocatePage P s = .killed → setPte P (fuel + 1) X gpa pte s = .killed) ∧
      (k < poolPages → allocatePage P s = .ok (P.page k, s.withPages (k + 1)) →
        setPte P (fuel + 1) X gpa pte s = setPte P fuel X gpa pte (s.remap P k gpa n f)) := by
  have inner : ¬ (n + 1 < 1 ∨ 3 < n + 1) := by omega
  constructor
  · intro killed
    rw [setPte, needs]
    simp only [if_neg (Nat.succ_ne_zero n), clonePageTable, if_neg inner, killed,
      Outcome.killed_bind]
  · intro room took
    have unplaced := h.unplaced (Nat.le_refl k) room
    have small := (child_tableAt hf deeper).1
    have apart : f ≠ P.page k := by
      rintro rfl
      rw [h.shaped.role_tableAt hX (by omega) hf] at unplaced
      cases unplaced
    rw [entryAt_eq hf] at he
    obtain rfl := Option.some.inj he
    have info : alVmxEptGetPageTableInfo s.mem gpa (n + 1) X.eptPml4 = s.mem f (indexAt gpa n) := by
      rw [h.shaped.getPageTableInfo hX low (by omega), entryAt_eq hf, Option.getD_some]
    have infoFilled : ∀ page, alVmxEptPageTableInfo (update s.mem (P.page k) page) gpa (n + 1)
        X.eptPml4 = some (f, indexAt gpa n) := by
      intro page
      have same : tableAt (update s.mem (P.page k) page) X.eptPml4 gpa n = some f := by
        rw [tableAt, PageTree.fill_table h.shaped.typed hX unplaced (by simp; omega)]
        exact hf
      rw [(h.shaped.fill unplaced).pageTableInfo hX low (by omega), same, Option.map_some]
    rw [setPte, needs]
    simp only [if_neg (Nat.succ_ne_zero n), clonePageTable, if_neg inner, took, Outcome.ok_bind,
      Machine.withPages, info, small, Bool.false_eq_true, and_false, if_false,
      if_neg (P.nonzero k room), Outcome.pure_eq, Machine.fill, Function.update_self,
      Function.update_idem, pageFrameNumber_setPageFrameNumber, access_setPageFrameNumber,
      alVmxEptSetPageTableInfo, infoFilled]
    exact congrArg _ (Machine.fill_store apart)

theorem Tables.latch (h : Tables P s role k) : Tables P s.latch role k := h.congr rfl rfl

/-- A split leaves the entries of the new table to be set, the upper ones allow everything. -/
theorem Tables.split (h : Tables P s role k) (room : k < poolPages)
    (hX : role X.eptPml4 = some []) {f : Frame} (hf : tableAt s.mem X.eptPml4 gpa 2 = some f)
    (demo : Entry) :
    Tables P (s.split P k gpa f demo) (roleOfNew P role k (place gpa 3)) (k + 1) := by
  have hrole := h.shaped.role_tableAt hX (by omega) hf
  refine (h.hang room hrole (by simp) (by simp [place]) (by simp) (by simp) ?_).latch
  intro short
  simp at short

section Lookups
variable (hs : Shaped role s.mem) (hX : role X.eptPml4 = some []) (low : pml4Index gpa = 0)
  {f : Frame} (hf : tableAt s.mem X.eptPml4 gpa 2 = some f)
include hs hX low hf

theorem lookupPde : alVmxEptGetPageTableInfo s.mem gpa 3 X.eptPml4 = s.mem f (indexAt gpa 2) := by
  rw [hs.getPageTableInfo hX low (show 2 ≤ 3 by omega), entryAt_eq hf, Option.getD_some]

theorem setPde_store (pde : Entry) :
    alVmxEptSetPde P (fuel + 1) gpa pde X.eptPml4 s = .ok (true, s.store f (indexAt gpa 2) pde) := by
  obtain ⟨e0, h0, -, t1⟩ := hs.upperEntry hX low (show 0 ≤ 1 by omega)
  obtain ⟨e1, h1, -, t2⟩ := hs.upperEntry hX low (show 1 ≤ 1 by omega)
  rw [hf] at t2
  obtain rfl := Option.some.inj t2
  have r1 := hs.nonzero (hs.role_tableAt hX (by omega) t1)
  have r2 := hs.nonzero (hs.role_tableAt hX (by omega) hf)
  rw [entryAt_eq t1] at h1
  obtain rfl := Option.some.inj h1
  rw [entryAt_eq (show tableAt s.mem X.eptPml4 gpa 0 = some X.eptPml4 from rfl)] at h0
  obtain rfl := Option.some.inj h0
  exact setPde_put fuel (hs.nonzero hX) rfl r1 rfl r2

theorem setPte_table (present : access (s.mem f (indexAt gpa 2)) ≠ .none)
    (small : largePage (s.mem f (indexAt gpa 2)) = false) :
    alVmxEptSetPte P (fuel + 1) gpa pte X.eptPml4 s =
      .ok (true, s.store (pageFrameNumber (s.mem f (indexAt gpa 2))) (ptIndex gpa) pte) := by
  simp only [alVmxEptSetPte, lookupPde hs hX low hf, ne_eq, present, not_false_eq_true, if_true,
    small, Bool.false_eq_true, if_false, storePte]

end Lookups

section Finish
variable (h : Tables P s role k) (hX : role X.eptPml4 = some []) (low : pml4Index gpa = 0)
  {f : Frame} (hf : tableAt s.mem X.eptPml4 gpa 2 = some f)
include h hX low hf

theorem buildPde_split (demo : Entry) : Died (alVmxEptBuildPde P gpa demo s) s (k + 1) ∨
    k < poolPages ∧ ∃ s', alVmxEptBuildPde P gpa demo s = .ok (tableEntry (P.page k), s') ∧
      ∀ fuel, alVmxEptSetPde P (fuel + 1) gpa (tableEntry (P.page k)) X.eptPml4 s' =
        .ok (true, s.split P k gpa f demo) := by
  rcases h.allocate with died | ⟨room, took⟩
  · exact .inl (died.bind _)
  · right
    have unplaced := h.unplaced (Nat.le_refl k) room
    have apart : f ≠ P.page k := by
      rintro rfl
      rw [h.shaped.role_tableAt hX (by omega) hf] at unplaced
      cases unplaced
    have zero : ∀ i, (s.withPages (k + 1)).latch.mem (P.page k) i = 0 :=
      h.fresh k (Nat.le_refl k) room
    let page : Index → Entry := fun i => demoPte s (gpa &&& ~~~(0x200000 - 1)) demo 0 i
    have filled : tableAt (update s.mem (P.page k) page) X.eptPml4 gpa 2 = some f := by
      rw [tableAt, PageTree.fill_table h.shaped.typed hX unplaced (by simp)]
      exact hf
    refine ⟨room, ((s.withPages (k + 1)).fill (P.page k) page).latch, ?_, fun fuel => ?_⟩
    · rw [alVmxEptBuildPde, took]
      simp only [Outcome.ok_bind, if_neg (P.nonzero k room), zero]
      rfl
    · have hs : Shaped role (((s.withPages (k + 1)).fill (P.page k) page).latch).mem :=
        h.shaped.fill unplaced
      rw [setPde_store hs hX low filled]
      have hung : ((s.withPages (k + 1)).fill (P.page k) page).store f (indexAt gpa 2)
          (tableEntry (P.page k)) = s.hang P k f (indexAt gpa 2) (tableEntry (P.page k)) page :=
        Machine.fill_store apart
      exact congrArg (fun s : Machine => Outcome.ok (true, s.latch)) hung

/-- A 2MB page or an absent pde is split before the entry is written. -/
theorem setPte_split (pte : Entry) (fuel : Nat)
    (large : access (s.mem f (indexAt gpa 2)) = .none ∨ largePage (s.mem f (indexAt gpa 2)) = true) :
    ∃ demo, (access (s.mem f (indexAt gpa 2)) ≠ .none →
        access demo = access (s.mem f (indexAt gpa 2))) ∧
      (access (s.mem f (indexAt gpa 2)) = .none → demo = pte) ∧
      (Died (alVmxEptSetPte P (fuel + 2) gpa pte X.eptPml4 s) s (k + 1) ∨
        k < poolPages ∧ alVmxEptSetPte P (fuel + 2) gpa pte X.eptPml4 s =
          .ok (true, (s.split P k gpa f demo).store (P.page k) (ptIndex gpa) pte)) := by
  have after : ∀ demo, k < poolPages →
      alVmxEptSetPte P (fuel + 1) gpa pte X.eptPml4 (s.split P k gpa f demo) =
        .ok (true, (s.split P k gpa f demo).store (P.page k) (ptIndex gpa) pte) := by
    intro demo room
    have split := h.split room hX hf demo
    have hrole := h.shaped.role_tableAt hX (show 2 ≤ 3 by omega) hf
    have kept : tableAt (s.split P k gpa f demo).mem X.eptPml4 gpa 2 = some f := by
      refine (hang_tableAt h room hX hrole hf (by simp) (by simp) (by omega) (by omega)).trans ?_
      rw [if_neg (fun same => absurd (place_level same) (by omega)), hf]
    have entry : (s.split P k gpa f demo).mem f (indexAt gpa 2) = tableEntry (P.page k) :=
      PageTree.graft_entry
    have placed : roleOfNew P role k (place gpa 3) X.eptPml4 = some [] := by
      refine (Function.update_of_ne ?_ _ _).trans hX
      intro same
      rw [same, h.unplaced (Nat.le_refl k) room] at hX
      cases hX
    rw [setPte_table split.shaped placed low kept (by rw [entry]; simp [Access.full, Access.none])
      (by rw [entry, largePage_tableEntry]), entry, pageFrameNumber_tableEntry]
  have build : ∀ (demo : Entry) (other : Machine → Outcome (Bool × Machine)),
      Died (alVmxEptBuildPde P gpa demo s >>= fun r =>
        if ¬ r.1 = 0 then alVmxEptSetPde P (fuel + 1) gpa r.1 X.eptPml4 r.2 >>= fun r =>
          alVmxEptSetPte P (fuel + 1) gpa pte X.eptPml4 r.2
        else other r.2) s (k + 1) ∨
      k < poolPages ∧ (alVmxEptBuildPde P gpa demo s >>= fun r =>
        if ¬ r.1 = 0 then alVmxEptSetPde P (fuel + 1) gpa r.1 X.eptPml4 r.2 >>= fun r =>
          alVmxEptSetPte P (fuel + 1) gpa pte X.eptPml4 r.2
        else other r.2) = .ok (true, (s.split P k gpa f demo).store (P.page k) (ptIndex gpa) pte) := by
    intro demo other
    rcases buildPde_split h hX low hf demo with died | ⟨room, s', built, set⟩
    · exact .inl (died.bind _)
    · right
      refine ⟨room, ?_⟩
      rw [built]
      simp only [Outcome.ok_bind, tableEntry_ne_zero (P.nonzero k room), not_false_eq_true, if_true,
        set]
      exact after demo room
  by_cases absent : access (s.mem f (indexAt gpa 2)) = .none
  · refine ⟨pte, fun present => absurd absent present, fun _ => rfl, ?_⟩
    rw [alVmxEptSetPte, lookupPde h.shaped hX low hf]
    simp only [ne_eq, absent, not_true_eq_false, if_false]
    exact build pte fun t => .ok (false, t)
  · refine ⟨setAccess 0 (access (s.mem f (indexAt gpa 2))), fun _ => access_setAccess _ _,
      fun none => absurd none absent, ?_⟩
    rw [alVmxEptSetPte, lookupPde h.shaped hX low hf]
    simp only [ne_eq, absent, not_false_eq_true, if_true, large.resolve_left absent]
    exact build _ fun t => .ok (storePte gpa pte (s.mem f (indexAt gpa 2)) t)

/-- With one unit of fuel the split does not get any further than the new table. -/
theorem setPte_split_short (pte : Entry)
    (large : access (s.mem f (indexAt gpa 2)) = .none ∨ largePage (s.mem f (indexAt gpa 2)) = true) :
    alVmxEptSetPte P 1 gpa pte X.eptPml4 s = .outOfFuel ∨
      Died (alVmxEptSetPte P 1 gpa pte X.eptPml4 s) s (k + 1) := by
  rw [alVmxEptSetPte, lookupPde h.shaped hX low hf]
  by_cases absent : access (s.mem f (indexAt gpa 2)) = .none
  · simp only [ne_eq, absent, not_true_eq_false, if_false]
    rcases buildPde_split h hX low hf pte with died | ⟨room, s', built, -⟩
    · exact .inr (died.bind _)
    · rw [built]
      simp only [Outcome.ok_bind, tableEntry_ne_zero (P.nonzero k room), not_false_eq_true, if_true]
      exact .inl rfl
  · simp only [ne_eq, absent, not_false_eq_true, if_true, large.resolve_left absent]
    rcases buildPde_split h hX low hf (setAccess 0 (access (s.mem f (indexAt gpa 2)))) with
      died | ⟨room, s', built, -⟩
    · exact .inr (died.bind _)
    · rw [built]
      simp only [Outcome.ok_bind, tableEntry_ne_zero (P.nonzero k room), not_false_eq_true, if_true]
      exact .inl rfl

end Finish

end Steps

end LMalz.Ept
