import LMalz.Ept.CopyOnWrite

/- The constructors of EPT_CLS: new top tables, and a new pdpt for EPT_CLS(R, W, X). -/
namespace LMalz.Ept
open Function (update)

section Constructors
variable {P : Platform} {s : Machine} {role : Frame → Option (List Index)} {k : Nat} {t r : Frame}
  {page : Index → Entry}

theorem Tables.fill_kept (h : Tables P s role k) (room : k < poolPages) (hr : role r = some []) :
    Kept s.mem (update s.mem (P.page k) page) r := by
  have unplaced := h.unplaced (Nat.le_refl k) room
  have table : ∀ gpa j, j ≤ 3 →
      tableAt (update s.mem (P.page k) page) r gpa j = tableAt s.mem r gpa j := fun gpa j deep =>
    PageTree.fill_table h.shaped.typed hr unplaced (by rw [place_length]; omega)
  refine ⟨table, fun gpa j deep => ?_⟩
  cases hf : tableAt s.mem r gpa j with
  | none => rw [entryAt_none hf, entryAt_none ((table gpa j deep).trans hf)]
  | some f =>
      have other : f ≠ P.page k := by
        rintro rfl
        rw [h.shaped.role_tableAt hr deep hf] at unplaced
        cases unplaced
      rw [entryAt_eq hf, entryAt_eq ((table gpa j deep).trans hf), Function.update_of_ne other]

theorem Tables.copyRoot (h : Tables P s role k) (room : k < poolPages) (ht : role t = some []) :
    Tables P ((s.withPages (k + 1)).fill (P.page k) (s.mem t)) (roleOfNew P role k []) (k + 1) := by
  have unplaced := h.unplaced (Nat.le_refl k) room
  have other : ∀ {f}, f ≠ P.page k → roleOfNew P role k [] f = role f ∧
      ((s.withPages (k + 1)).fill (P.page k) (s.mem t)).mem f = s.mem f :=
    fun ne => ⟨Function.update_of_ne ne _ _, Function.update_of_ne ne _ _⟩
  have new : roleOfNew P role k [] (P.page k) = some [] ∧
      ((s.withPages (k + 1)).fill (P.page k) (s.mem t)).mem (P.page k) = s.mem t :=
    ⟨Function.update_self _ _ _, Function.update_self _ _ _⟩
  refine ⟨⟨?_, fun f l hf high => ?_, fun f is a hf short low => ?_⟩, room, rfl, h.top,
    fun f placed => ?_, fun i later inside a => ?_⟩
  · rw [(other (P.nonzero k room).symm).1]
    exact h.shaped.null
  · by_cases here : f = P.page k
    · rw [here, new.2]
      exact h.shaped.upper t l ht high
    · rw [(other here).1] at hf
      rw [(other here).2]
      exact h.shaped.upper f l hf high
  · by_cases here : f = P.page k
    · rw [here, new.1] at hf
      obtain rfl := Option.some.inj hf
      rw [here, new.2]
      exact (h.shaped.below t [] a ht short low).imp_left fun below =>
        ⟨below.1, roleOfNew_kept h room below.2⟩
    · rw [(other here).1] at hf
      rw [(other here).2]
      exact (h.shaped.below f is a hf short low).imp_left fun below =>
        ⟨below.1, roleOfNew_kept h room below.2⟩
  · by_cases here : f = P.page k
    · exact ⟨k, by omega, here⟩
    · rw [(other here).1] at placed
      obtain ⟨i, below, same⟩ := h.owned f placed
      exact ⟨i, by omega, same⟩
  · have later' : P.page i ≠ P.page k := P.page_ne inside room (by omega)
    rw [(other later').2]
    exact h.fresh i (by omega) inside a

/-- The object that was copied, const_ept if there is none. -/
def EptCls.parent : EptCls → Option EptCls
  | .root _ _ => none
  | .cloneOf _ _ c => some c

theorem EptCls.sources_of_parent {X : EptCls} {c : Frame} (root : X.parent = none) :
    X.sources c = [c] := by
  cases X with
  | root p v => rfl
  | cloneOf p v x => cases root

def copied (constEpt : Frame) (clone : Option EptCls) : Frame :=
  (clone.map EptCls.eptPml4).getD constEpt

theorem newClone_spec (h : Tables P s role k) (clone : Option EptCls) (ready : s.constEptp ≠ 0) :
    Died (newClone P clone s) s (k + 1) ∨
      k < poolPages ∧ ∃ x : EptCls, x.eptPml4 = P.page k ∧ x.parent = clone ∧
        newClone P clone s =
          .ok (x, (s.withPages (k + 1)).fill (P.page k) (s.mem (copied s.constEpt clone))) := by
  simp only [newClone, if_neg ready]
  rcases h.allocate with died | ⟨room, took⟩
  · exact .inl (died.bind _)
  · right
    rw [took]
    cases clone with
    | none => exact ⟨room, .root (P.page k) _, rfl, rfl, rfl⟩
    | some c => exact ⟨room, .cloneOf (P.page k) _ c, rfl, rfl, rfl⟩

theorem newClone_done (h : Tables P s role k) (ready : s.constEptp ≠ 0) {clone : Option EptCls}
    {x : EptCls} {t : Machine} (made : newClone P clone s = .ok (x, t)) :
    k < poolPages ∧ x.eptPml4 = P.page k ∧ x.parent = clone ∧
      t = (s.withPages (k + 1)).fill (P.page k) (s.mem (copied s.constEpt clone)) := by
  rcases newClone_spec h clone ready with died | ⟨room, y, hy, parent, returned⟩
  · rw [died.1] at made
    cases made
  · rw [returned] at made
    cases made
    exact ⟨room, hy, parent, rfl⟩

theorem newClone_pointer {clone : Option EptCls} {x : EptCls} {t : Machine}
    (made : newClone P clone s = .ok (x, t)) : pageFrameNumber x.eptpV = x.eptPml4 := by
  cases clone
  all_goals
    simp only [newClone] at made
    split at made
    · cases made
      exact (by decide : pageFrameNumber 0 = 0)
    · obtain ⟨r, -, made⟩ := Outcome.of_bind made
      cases made
      exact pageFrameNumber_setPageFrameNumber _ _

theorem newView_pointer {a : Access} {x : EptCls} {t : Machine}
    (made : newView P a s = .ok (x, t)) : pageFrameNumber x.eptpV = x.eptPml4 := by
  unfold newView at made
  obtain ⟨r, first, made⟩ := Outcome.of_bind made
  obtain ⟨q, -, made⟩ := Outcome.of_bind made
  simp only at made
  split at made
  · cases made
  · cases made
    exact newClone_pointer first

/-- The machine after the copy that EPT_CLS(R, W, X) starts with. -/
def Machine.copyConst (P : Platform) (s : Machine) (k : Nat) : Machine :=
  (s.withPages (k + 1)).fill (P.page k) (s.mem s.constEpt)

/-- The object of EPT_CLS(R, W, X): a copy of const_ept, then a pdpt of its own. -/
theorem newView_spec (h : Tables P s role k) (hc : role s.constEpt = some [])
    (ready : s.constEptp ≠ 0) (a : Access) :
    Died (newView P a s) s (k + 2) ∨
      k + 1 < poolPages ∧ ∃ x : EptCls, x.eptPml4 = P.page k ∧ x.parent = none ∧
        newView P a s = .ok (x, (s.copyConst P k).hang P (k + 1) (P.page k) 0
          (setPageFrameNumber ((s.copyConst P k).mem (P.page k) 0) (P.page (k + 1)))
          fun b => setAccess ((s.copyConst P k).mem
            (pageFrameNumber ((s.copyConst P k).mem s.constEpt 0)) b) a) := by
  rw [newView]
  rcases newClone_spec h none ready with died | ⟨room, x, hx, parent, made⟩
  · exact .inl ((died.mono (by omega) rfl).bind _)
  have tables : Tables P (s.copyConst P k) (roleOfNew P role k []) (k + 1) := h.copyRoot room hc
  have placed : roleOfNew P role k [] s.constEpt = some [] := roleOfNew_kept h room hc
  rw [made]
  simp only [Outcome.ok_bind]
  change Died (allocatePage P (s.copyConst P k) >>= _) _ _ ∨ _ ∧ ∃ x : EptCls, _ ∧ _ ∧
    (allocatePage P (s.copyConst P k) >>= _) = _
  rcases tables.allocate with died | ⟨room', took⟩
  · exact .inl ((died.mono (by omega) rfl).bind _)
  right
  refine ⟨room', x, hx, parent, ?_⟩
  have apart : P.page k ≠ P.page (k + 1) := P.page_ne room room' (by omega)
  have info : alVmxEptGetPageTableInfo (s.copyConst P k).mem 0 1 s.constEpt =
      (s.copyConst P k).mem s.constEpt 0 :=
    tables.shaped.getPageTableInfo placed rfl (Nat.zero_le 3)
  have same : (s.withPages (k + 1)).fill (P.page k) (s.mem (copied s.constEpt none)) =
      s.copyConst P k := rfl
  have const : (s.copyConst P k).constEpt = s.constEpt := rfl
  rw [took, same, const, info]
  simp only [Outcome.ok_bind, hx, if_neg (P.nonzero k room), Outcome.pure_eq]
  generalize hp : (fun i => setAccess (((s.copyConst P k).withPages (k + 1 + 1)).mem
    (pageFrameNumber ((s.copyConst P k).mem s.constEpt 0)) i) a) = page
  have kept : (((s.copyConst P k).withPages (k + 1 + 1)).fill (P.page (k + 1)) page).mem (P.page k) =
      (s.copyConst P k).mem (P.page k) := Function.update_of_ne apart _ _
  rw [kept, Machine.fill_store apart, ← hp]
  rfl

/-- The memory that EPT_CLS(R, W, X) leaves. -/
def Machine.view (P : Platform) (s : Machine) (k : Nat) (a : Access) : Machine :=
  (s.copyConst P k).hang P (k + 1) (P.page k) 0
    (setPageFrameNumber ((s.copyConst P k).mem (P.page k) 0) (P.page (k + 1)))
    fun b => setAccess ((s.copyConst P k).mem
      (pageFrameNumber ((s.copyConst P k).mem s.constEpt 0)) b) a

def roleOfView (P : Platform) (role : Frame → Option (List Index)) (k : Nat) :
    Frame → Option (List Index) :=
  roleOfNew P (roleOfNew P role k []) (k + 1) [0]

theorem newView_done (h : Tables P s role k) (hc : role s.constEpt = some [])
    (ready : s.constEptp ≠ 0) {a : Access} {x : EptCls} {t : Machine}
    (made : newView P a s = .ok (x, t)) :
    k + 1 < poolPages ∧ x.eptPml4 = P.page k ∧ x.parent = none ∧ t = s.view P k a := by
  rcases newView_spec h hc ready a with died | ⟨room, y, hy, parent, returned⟩
  · rw [died.1] at made
    cases made
  · rw [returned] at made
    cases made
    exact ⟨room, hy, parent, rfl⟩

section View
variable (h : Tables P s role k) (room : k + 1 < poolPages) (hc : role s.constEpt = some [])
include h room hc

theorem Tables.view (a : Access) : Tables P (s.view P k a) (roleOfView P role k) (k + 2) := by
  have tables : Tables P (s.copyConst P k) (roleOfNew P role k []) (k + 1) :=
    h.copyRoot (by omega) hc
  have const : roleOfNew P role k [] s.constEpt = some [] := roleOfNew_kept h (by omega) hc
  have root : roleOfNew P role k [] (P.page k) = some [] := Function.update_self _ _ _
  obtain ⟨-, small, pdpt⟩ := tables.shaped.child const (a := 0) (by simp) (fun _ => rfl)
  obtain ⟨-, smallRoot, -⟩ := tables.shaped.child root (a := 0) (by simp) (fun _ => rfl)
  refine tables.hang room root (by simp) (fun _ => rfl) (by simpa using smallRoot) (by simp) ?_
  intro _ b
  rw [largePage_setAccess, pageFrameNumber_setAccess]
  rcases tables.shaped.below _ _ b pdpt (by simp) (by simp) with below | ⟨two, -⟩
  · exact .inl below
  · simp at two

theorem Tables.view_kept (hr : role r = some []) (a : Access) :
    Kept s.mem (s.view P k a).mem r := by
  have tables : Tables P (s.copyConst P k) (roleOfNew P role k []) (k + 1) :=
    h.copyRoot (by omega) hc
  have copied : Kept s.mem (s.copyConst P k).mem r := h.fill_kept (by omega) hr
  have root : roleOfNew P role k [] (P.page k) = some (place (0 : BitVec 64) 0) :=
    Function.update_self _ _ _
  refine copied.trans (tables.hang_kept room (roleOfNew_kept h (by omega) hr) root ?_)
  intro same
  rw [Option.some.inj (same : some r = some (P.page k)),
    h.unplaced (Nat.le_refl k) (by omega)] at hr
  cases hr

theorem roleOfView_kept {is : List Index} (hr : role r = some is) :
    roleOfView P role k r = some is :=
  roleOfNew_kept (h.copyRoot (by omega) hc) room (roleOfNew_kept h (by omega) hr)

theorem roleOfView_root : roleOfView P role k (P.page k) = some [] :=
  roleOfNew_kept (h.copyRoot (by omega) hc) room (Function.update_self _ _ _)

end View

theorem sameTop {m : Memory} {x y : Frame} {gpa : BitVec 64}
    (same : m x (pml4Index gpa) = m y (pml4Index gpa)) (n : Nat) :
    entryAt m x gpa n = entryAt m y gpa n ∧ tableAt m x gpa (n + 1) = tableAt m y gpa (n + 1) := by
  induction n with
  | zero =>
      have first : entryAt m x gpa 0 = entryAt m y gpa 0 := congrArg some same
      exact ⟨first, by rw [tableAt_succ, tableAt_succ, first]⟩
  | succ n ih =>
      have entries : entryAt m x gpa (n + 1) = entryAt m y gpa (n + 1) := by
        cases hf : tableAt m y gpa (n + 1) with
        | none => rw [entryAt_none hf, entryAt_none (ih.2.trans hf)]
        | some f => rw [entryAt_eq hf, entryAt_eq (ih.2.trans hf)]
      exact ⟨entries, by rw [tableAt_succ, tableAt_succ, entries]⟩

theorem Tables.copyRoot_sameTop (h : Tables P s role k) (room : k < poolPages)
    (ht : role t = some []) (gpa : BitVec 64) :
    ((s.withPages (k + 1)).fill (P.page k) (s.mem t)).mem (P.page k) (pml4Index gpa) =
      ((s.withPages (k + 1)).fill (P.page k) (s.mem t)).mem t (pml4Index gpa) := by
  have apart : t ≠ P.page k := by
    rintro rfl
    rw [h.unplaced (Nat.le_refl k) room] at ht
    cases ht
  change update s.mem (P.page k) (s.mem t) (P.page k) _ = update s.mem (P.page k) (s.mem t) t _
  rw [Function.update_self, Function.update_of_ne apart]

/-- The entries of EPT_CLS(R, W, X): a pdpt of its own with the access, the tables of const_ept
below it. -/
theorem Tables.view_entries (h : Tables P s role k) (room : k + 1 < poolPages)
    (hc : role s.constEpt = some []) (a : Access) {gpa : BitVec 64} (low : pml4Index gpa = 0) :
    (∃ e d, entryAt (s.view P k a).mem s.constEpt gpa 0 = some e ∧
      entryAt (s.view P k a).mem (P.page k) gpa 0 = some (setPageFrameNumber e (P.page (k + 1))) ∧
      entryAt (s.view P k a).mem s.constEpt gpa 1 = some d ∧
      entryAt (s.view P k a).mem (P.page k) gpa 1 = some (setAccess d a)) ∧
      tableAt (s.view P k a).mem (P.page k) gpa 1 = some (P.page (k + 1)) ∧
      ∀ j, 2 ≤ j → j ≤ 3 →
        entryAt (s.view P k a).mem (P.page k) gpa j = entryAt (s.view P k a).mem s.constEpt gpa j ∧
        tableAt (s.view P k a).mem (P.page k) gpa j =
          tableAt (s.view P k a).mem s.constEpt gpa j := by
  have tables : Tables P (s.copyConst P k) (roleOfNew P role k []) (k + 1) :=
    h.copyRoot (by omega) hc
  have const : roleOfNew P role k [] s.constEpt = some [] := roleOfNew_kept h (by omega) hc
  have root : roleOfNew P role k [] (P.page k) = some (place (0 : BitVec 64) 0) :=
    Function.update_self _ _ _
  have top : ∀ gpa, (s.copyConst P k).mem (P.page k) (pml4Index gpa) =
      (s.copyConst P k).mem s.constEpt (pml4Index gpa) := h.copyRoot_sameTop (by omega) hc
  have top0 : (s.copyConst P k).mem (P.page k) 0 = (s.copyConst P k).mem s.constEpt 0 := top 0
  have keptC : Kept (s.copyConst P k).mem (s.view P k a).mem s.constEpt := by
    refine tables.hang_kept room const root ?_
    intro same
    rw [Option.some.inj (same : some s.constEpt = some (P.page k)),
      h.unplaced (Nat.le_refl k) (by omega)] at hc
    cases hc
  obtain ⟨childTop, small, pdpt⟩ := tables.shaped.child const (a := 0) (by simp) (fun _ => rfl)
  have smallTop : largePage (setPageFrameNumber ((s.copyConst P k).mem (P.page k) 0)
      (P.page (k + 1))) = false := by
    rw [largePage_setPageFrameNumber, top0, small]
  have keeps : ∀ b, child (setAccess ((s.copyConst P k).mem
      (pageFrameNumber ((s.copyConst P k).mem s.constEpt 0)) b) a) =
      (child ((s.copyConst P k).mem (P.page k) 0)).bind fun c => child ((s.copyConst P k).mem c b) := by
    intro b
    rw [child_setAccess, top0, childTop, Option.bind_some]
  have table : ∀ gpa' j, j ≤ 3 → tableAt (s.view P k a).mem (P.page k) gpa' j = _ := fun gpa' j deep =>
    hang_tableAt tables room root root rfl smallTop (by simp) (fun _ => keeps) deep
  have entries : ∀ gpa' j, j ≤ 3 → entryAt (s.view P k a).mem (P.page k) gpa' j = _ :=
    fun gpa' j deep =>
      hang_entryAt tables room root root rfl smallTop (by simp) (fun _ => keeps) deep
  have first : place gpa 1 = place 0 1 := by
    simp only [place, indexAt, low]
    rfl
  have level : ∀ {j}, j ≠ 1 → place gpa j ≠ place 0 1 := fun ne same => ne (place_level same)
  obtain ⟨e, he, -, t1⟩ := tables.shaped.upperEntry const low (show 0 ≤ 1 by omega)
  have hd := entryAt_eq t1
  rw [entryAt_eq (show tableAt _ s.constEpt gpa 0 = some s.constEpt from rfl), indexAt, low] at he
  obtain rfl := Option.some.inj he
  have h0 : entryAt (s.copyConst P k).mem s.constEpt gpa 0 =
      some ((s.copyConst P k).mem s.constEpt 0) := by
    rw [entryAt_eq (show tableAt _ s.constEpt gpa 0 = some s.constEpt from rfl), indexAt, low]
  refine ⟨⟨_, _, (keptC.entry gpa 0 (by omega)).trans h0, ?_,
    (keptC.entry gpa 1 (by omega)).trans hd, ?_⟩, ?_, fun j two deep => ⟨?_, ?_⟩⟩
  · rw [entries gpa 0 (by omega), if_pos first, top0]
  · rw [entries gpa 1 (by omega), if_neg (level (by omega)), if_pos first]
  · rw [table gpa 1 (by omega), if_pos first]
  · rw [entries gpa j deep, if_neg (level (by omega)), if_neg (level (by omega)),
      keptC.entry gpa j deep, (sameTop (top gpa) j).1]
  · obtain ⟨i, rfl⟩ : ∃ i, j = i + 1 := ⟨j - 1, by omega⟩
    rw [table gpa (i + 1) deep, if_neg (level (by omega)), keptC.table gpa (i + 1) deep,
      (sameTop (top gpa) i).2]

end Constructors

end LMalz.Ept
