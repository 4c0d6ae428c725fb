import LMalz.Ept.Histories

/- The first table that set_pte writes decides what another root sees of the call, and so whether
the tables of const_ept stay as init left them. -/
namespace LMalz.Ept
open Transition

section Calls
variable {P : Platform} {fuel : Nat} {X : EptCls} {others : List Frame} {gpa : BitVec 64} {pte : Entry}
  {s s' : Machine} {role : Frame → Option (List Index)} {k n : Nat} {r f : Frame} {b : Bool}

theorem Chained.setPte_kept (x : Chained P X others s role k) (low : pml4Index gpa = 0)
    (hr : r ∈ others) (apart : ¬ Shares s.mem X.eptPml4 r gpa (written s X gpa))
    (done : setPte P fuel X gpa pte s = .ok (b, s')) : Kept s.mem s'.mem r := by
  have keeps : Keeps P X others gpa pte fun t _ => Kept s.mem t.mem r ∧
      ¬ Shares t.mem X.eptPml4 r gpa (written t X gpa) := by
    constructor
    · intro t role k n f x room needs hf inv
      have here : ¬ Shares t.mem X.eptPml4 r gpa n := by
        rw [← written_remap needs]
        exact inv.2
      exact ⟨inv.1.trans (x.toAmong.remap_kept low room needs hf (x.placed r hr) here),
        (x.toAmong.remap_shares low room needs hf (x.placed r hr) here).1 _
          (x.toAmong.remap_written low room needs hf x.distinct)⟩
    · intro t role k f demo x room needs hf large _ _ inv
      have level := (x.written_leaf low needs hf).trans (if_pos large)
      obtain ⟨kept, last⟩ := x.toAmong.split_kept room hf demo (x.placed r hr) (level ▸ inv.2)
      rw [x.split_written low room hf demo fun u hu => x.unshared low needs hu]
      exact ⟨inv.1.trans kept, last⟩
  obtain ⟨t, role', k', g, reached, ⟨kept, last⟩, -, rfl⟩ :=
    x.setPte_done keeps low ⟨Kept.refl s.mem r, apart⟩ done
  rw [reached.level] at last
  have placed := reached.tables.shaped.role_tableAt reached.root (Nat.le_refl 3) reached.table
  exact kept.trans (reached.tables.store_kept (reached.placed r hr) placed
    fun met => last ⟨g, reached.table, met⟩)

/-- An entry of a table leads to a page that was no table at the start. -/
structure Overwritten (role : Frame → Option (List Index)) (f : Frame) (a : Index) (t : Machine)
    (role' : Frame → Option (List Index)) : Prop where
  grown : ∀ g js, role g = some js → role' g = some js
  entry : role (pageFrameNumber (t.mem f a)) = none

/-- Places are kept, so a page taken later is no table of the start either. -/
theorem unplaced_before {role' : Frame → Option (List Index)} (h : Tables P s role' k)
    (room : k < poolPages) (grown : ∀ g js, role g = some js → role' g = some js) :
    role (P.page k) = none := by
  cases was : role (P.page k) with
  | none => rfl
  | some js =>
      have now := grown _ js was
      rw [h.unplaced (Nat.le_refl k) room] at now
      cases now

/-- An entry of a table changes only when a new page is hung into it. -/
theorem Overwritten.hang {role' : Frame → Option (List Index)} {a a' : Index} {f' : Frame} {e : Entry}
    {page : Index → Entry} {is : List Index} (h : Overwritten role f a s role')
    (tables : Tables P s role' k) (room : k < poolPages) (table : role f ≠ none)
    (frame : pageFrameNumber e = P.page k) :
    Overwritten role f a (s.hang P k f' a' e page) (roleOfNew P role' k is) := by
  have new := unplaced_before tables room h.grown
  have other : f ≠ P.page k := by
    rintro rfl
    exact table new
  refine ⟨fun g js hg => roleOfNew_kept tables room (h.grown g js hg), ?_⟩
  change role (pageFrameNumber (PageTree.graft s.mem f' a' e (P.page k) page f a)) = none
  by_cases here : f = f'
  · subst here
    by_cases same : a = a'
    · rw [same, PageTree.graft_entry, frame]
      exact new
    · rw [PageTree.graft_sibling same]
      exact h.entry
  · rw [PageTree.graft_frame here other]
    exact h.entry

theorem Overwritten.latch {role' : Frame → Option (List Index)} {a : Index}
    (h : Overwritten role f a s role') : Overwritten role f a s.latch role' :=
  ⟨h.grown, h.entry⟩

theorem Chained.setPte_overwrites (x : Chained P X others s role k) (low : pml4Index gpa = 0)
    (needs : (needRemap s X gpa).1 = n + 1) (hf : tableAt s.mem X.eptPml4 gpa n = some f)
    (done : setPte P fuel X gpa pte s = .ok (b, s')) :
    s'.mem f (indexAt gpa n) ≠ s.mem f (indexAt gpa n) := by
  obtain ⟨upper, -⟩ := x.needs_spec low needs
  have placed := x.tables.shaped.role_tableAt x.root (by omega) hf
  have table : role f ≠ none := by
    rw [placed]
    exact Option.some_ne_none _
  have old : role (pageFrameNumber (s.mem f (indexAt gpa n))) ≠ none := by
    obtain ⟨-, below⟩ := child_tableAt hf (x.deeper low needs)
    rw [x.tables.shaped.role_tableAt x.root (by omega) below]
    exact Option.some_ne_none _
  match fuel with
  | 0 => cases done
  | fuel + 1 =>
    rcases x.setPte_call low needs hf pte fuel with died | ⟨room, call⟩
    · rw [died.1] at done
      cases done
    rw [call] at done
    have first : Overwritten role f (indexAt gpa n) (s.remap P k gpa n f)
        (roleOfNew P role k (place gpa (n + 1))) := by
      refine ⟨fun g js hg => roleOfNew_kept x.tables room hg, ?_⟩
      change role (pageFrameNumber (PageTree.graft s.mem f (indexAt gpa n) _ (P.page k) _ f
        (indexAt gpa n))) = none
      rw [PageTree.graft_entry, pageFrameNumber_setAccess, pageFrameNumber_setPageFrameNumber]
      exact x.tables.unplaced (Nat.le_refl k) room
    have keeps : Keeps P X others gpa pte (Overwritten role f (indexAt gpa n)) :=
      ⟨fun t role' k' n' f' y room' _ _ inv => inv.hang y.tables room' table (by simp),
        fun t role' k' f' demo y room' _ _ _ _ _ inv =>
          (inv.hang y.tables room' table (pageFrameNumber_tableEntry _)).latch⟩
    obtain ⟨t, role', k', g, reached, after, -, rfl⟩ :=
      (x.remap low room needs hf).setPte_done keeps low first done
    have leaf : f ≠ g := by
      rintro rfl
      have deepest := reached.tables.shaped.role_tableAt reached.root (Nat.le_refl 3) reached.table
      rw [after.grown _ _ placed] at deepest
      have := place_level (Option.some.inj deepest)
      omega
    have unwritten : (t.store g (ptIndex gpa) pte).mem f = t.mem f := Function.update_of_ne leaf _ _
    rw [unwritten]
    intro same
    have last := after.entry
    rw [same] at last
    exact old last

theorem Chained.setPte_apart (x : Chained P X others s role k) (low : pml4Index gpa = 0)
    (hr : r ∈ X.sources s.constEpt) (done : setPte P fuel X gpa pte s = .ok (b, s')) :
    ApartTo s'.mem X.eptPml4 r gpa 3 := by
  have keeps : Keeps P X others gpa pte fun t _ => t.constEpt = s.constEpt :=
    ⟨fun _ _ _ _ _ _ _ _ _ inv => inv, fun _ _ _ _ _ _ _ _ _ _ _ _ inv => inv⟩
  obtain ⟨t, role', k', g, reached, const, -, rfl⟩ := x.setPte_done keeps low rfl done
  have needs := reached.needs_zero low
  have placed := reached.tables.shaped.role_tableAt reached.root (Nat.le_refl 3) reached.table
  intro j deep
  rw [Shares, store_tableAt reached.tables reached.root placed deep,
    store_tableAt reached.tables (reached.placed r (x.sources r hr)) placed deep]
  exact reached.unshared low needs (const ▸ hr) j deep

theorem Chained.setPte_elsewhere (x : Chained P X others s role k) (low : pml4Index gpa = 0)
    {gpa' : BitVec 64} {j : Nat} (deep : j ≤ 3) (off : place gpa' j ≠ place gpa j)
    (done : setPte P fuel X gpa pte s = .ok (b, s')) :
    tableAt s'.mem X.eptPml4 gpa' j = tableAt s.mem X.eptPml4 gpa' j := by
  have notHere : ∀ {n}, place gpa' j ≠ place gpa n := by
    intro n same
    obtain rfl := place_level same
    exact off same
  have keeps : Keeps P X others gpa pte fun t _ =>
      tableAt t.mem X.eptPml4 gpa' j = tableAt s.mem X.eptPml4 gpa' j := by
    constructor
    · intro t role k n f x room needs hf inv
      rw [remap_tableAt x.tables room x.root (x.needs_spec low needs).1 hf (x.deeper low needs) deep,
        if_neg notHere]
      exact inv
    · intro t role k f demo x room needs hf large _ _ inv
      rw [split_tableAt x.tables room x.root hf demo deep, if_neg notHere]
      exact inv
  obtain ⟨t, role', k', g, reached, kept, -, rfl⟩ := x.setPte_done keeps low rfl done
  have placed := reached.tables.shaped.role_tableAt reached.root (Nat.le_refl 3) reached.table
  rw [store_tableAt reached.tables reached.root placed deep]
  exact kept

end Calls

end LMalz.Ept
