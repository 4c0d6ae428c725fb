import LMalz.Ept.Constructors
import LMalz.Ept.IdentityMap
import LMalz.Ept.Permissions

/- What a copy of const_ept maps, and a view EPT_CLS(R, W, X) beside it. -/
namespace LMalz.Ept

/-- const_ept is the identity map that init made, and every other top table has its place. -/
structure ConstReady (P : Platform) (s : Machine) (role : Frame → Option (List Index)) (k : Nat) :
    Prop where
  tables : Tables P s role k
  const : role s.constEpt = some []
  ready : s.constEptp ≠ 0
  full : ConstFull s
  identity : ∀ gpa, Below512G gpa → translation s.mem s.constEpt gpa = some (pageOf gpa, .full)

/-- An object that is a copy of const_ept. -/
structure ConstClone (P : Platform) (X : EptCls) (s : Machine) (role : Frame → Option (List Index))
    (k : Nat) : Prop extends ConstReady P s role k where
  root : role X.eptPml4 = some []
  distinct : s.constEpt ≠ X.eptPml4
  parent : X.parent = none
  copy : ∀ gpa n, Below512G gpa → n ≤ 3 →
    entryAt s.mem X.eptPml4 gpa n = entryAt s.mem s.constEpt gpa n ∧
      (1 ≤ n → tableAt s.mem X.eptPml4 gpa n = tableAt s.mem s.constEpt gpa n)

section Clones
variable {P : Platform} {X : EptCls} {s t : Machine} {role role' : Frame → Option (List Index)}
  {k k' fuel : Nat} {a : Access}

theorem ConstReady.init {cold : Machine} (fresh : Fresh P cold k) (enough : 4 ≤ fuel)
    (done : init P fuel cold = .ok (true, s)) :
    ConstReady P s (builtRole P k) (k + 515) ∧
      s.limits.poolBigMemEnd = cold.limits.poolBigMemEnd := by
  obtain ⟨more, rfl⟩ : ∃ more, fuel = more + 4 := ⟨fuel - 4, by omega⟩
  rcases init_cases fresh more with died | ⟨-, refused⟩ |
    ⟨s', s'', done', b, mem, limits, -, -, constRoot, ready⟩
  · rw [died.1] at done
    cases done
  · rw [refused] at done
    cases done
  obtain rfl : s'' = s := by
    rw [done'] at done
    cases done
    rfl
  refine ⟨⟨b.tables.congr mem limits, ?_, ready, fun gpa n e low deep he => ?_, fun gpa low => ?_⟩, ?_⟩
  · rw [constRoot]
    exact role_pml4
  · rw [mem, constRoot] at he
    exact b.access_full low.pml4Index deep he
  · rw [translation, mem, constRoot, b.walk low]
    rfl
  · rw [limits, b.memEnd]

theorem ConstReady.kept (v : ConstReady P s role k) (tables : Tables P t role' k')
    (same : t.constEpt = s.constEpt) (pointer : t.constEptp = s.constEptp)
    (const : role' s.constEpt = some []) (kept : Kept s.mem t.mem s.constEpt) :
    ConstReady P t role' k' := by
  refine ⟨tables, by rw [same]; exact const, by rw [pointer]; exact v.ready,
    fun gpa n e low deep he => ?_, fun gpa low => ?_⟩
  · rw [same, kept.entry gpa n deep] at he
    exact v.full gpa n e low deep he
  · rw [same, translation, v.tables.shaped.walk_congr tables.shaped v.const const
      fun n deep => kept.entry gpa n deep]
    exact v.identity gpa low

theorem ConstReady.clone (v : ConstReady P s role k) (made : newClone P none s = .ok (X, t)) :
    ConstClone P X t (roleOfNew P role k []) (k + 1) := by
  obtain ⟨room, hx, parent, rfl⟩ := newClone_done v.tables v.ready made
  have kept : Kept s.mem (Function.update s.mem (P.page k) (s.mem s.constEpt)) s.constEpt :=
    v.tables.fill_kept room v.const
  refine ⟨v.kept (v.tables.copyRoot room v.const) rfl rfl (roleOfNew_kept v.tables room v.const) kept,
    ?_, ?_, parent, fun gpa n low deep => ?_⟩
  · rw [hx]
    exact Function.update_self _ _ _
  · rw [hx]
    intro same
    have const := v.const
    change s.constEpt = _ at same
    rw [same, v.tables.unplaced (Nat.le_refl _) room] at const
    cases const
  · rw [hx]
    have top := v.tables.copyRoot_sameTop room v.const gpa
    refine ⟨(sameTop top n).1, fun some => ?_⟩
    obtain ⟨i, rfl⟩ : ∃ i, n = i + 1 := ⟨n - 1, by omega⟩
    exact (sameTop top i).2

/-- A copy shares no more with other roots than with const_ept. -/
theorem ConstClone.maps {others : List Frame} {own : Frame → Prop} (v : ConstClone P X s role k)
    (apart : ∀ r ∈ others, r ≠ X.eptPml4) (nothing : ∀ page, ¬ own page) :
    Maps X others s (fun _ => .full) own := by
  refine ⟨apart, fun r hr gpa n low some deep shared => ?_,
    fun gpa n e low deep he _ _ => ?_, fun gpa low => ?_, fun gpa _ owned => absurd owned (nothing _)⟩
  · obtain ⟨f, hf, -⟩ := shared
    exact ⟨f, hf, ((v.copy gpa n low deep).2 some).symm.trans hf⟩
  · exact v.full gpa n e low (by omega) (((v.copy gpa n low (by omega)).1).symm.trans he)
  · have shaped := v.tables.shaped
    obtain ⟨e0, e1, e2, h0, h1, h2⟩ := shaped.entries v.const low
    have copied : ∀ n, n ≤ 3 → entryAt s.mem X.eptPml4 gpa n = entryAt s.mem s.constEpt gpa n :=
      fun n deep => (v.copy gpa n low deep).1
    rw [shaped.translation_eq v.root low ((copied 0 (by omega)).trans h0)
      ((copied 1 (by omega)).trans h1) ((copied 2 (by omega)).trans h2), copied 3 (by omega),
      ← shaped.translation_eq v.const low h0 h1 h2, v.identity gpa low]

section View
variable (v : ConstClone P X s role k) (room : k + 1 < poolPages)
include v room

theorem ConstClone.view (a : Access) :
    ConstClone P X (s.view P k a) (roleOfView P role k) (k + 2) := by
  have keptC := v.tables.view_kept room v.const v.const a
  have keptX := v.tables.view_kept room v.const v.root a
  refine ⟨v.kept (v.tables.view room v.const a) rfl rfl (roleOfView_kept v.tables room v.const v.const)
    keptC, roleOfView_kept v.tables room v.const v.root, v.distinct, v.parent, fun gpa n low deep => ?_⟩
  have before := v.copy gpa n low deep
  exact ⟨(keptX.entry gpa n deep).trans (before.1.trans (keptC.entry gpa n deep).symm),
    fun some => (keptX.table gpa n deep).trans ((before.2 some).trans (keptC.table gpa n deep).symm)⟩

theorem ConstClone.view_leaf (allows : a ≠ .none) {gpa : BitVec 64} (low : Below512G gpa) :
    translation (s.view P k a).mem (P.page k) gpa = some (pageOf gpa, a) := by
  have shaped := (v.tables.view room v.const a).shaped
  have constPlaced := roleOfView_kept v.tables room v.const v.const
  obtain ⟨⟨e0, d, h0, h0', h1, h1'⟩, -, lower⟩ := v.tables.view_entries room v.const a low.pml4Index
  obtain ⟨c0, c1, c2, k0, k1, k2⟩ := shaped.entries constPlaced low
  rw [h0] at k0
  rw [h1] at k1
  obtain rfl := Option.some.inj k0
  obtain rfl := Option.some.inj k1
  have full := (v.view room a).full
  have fullPresent : Access.full ≠ .none := by decide
  have full0 := full gpa 0 _ low (by omega) h0
  have full1 := full gpa 1 _ low (by omega) h1
  have full2 := full gpa 2 _ low (by omega) k2
  have identity := (v.view room a).identity gpa low
  change translation (s.view P k a).mem s.constEpt gpa = _ at identity
  rw [shaped.translation_eq constPlaced low h0 h1 k2] at identity
  rw [shaped.translation_eq (roleOfView_root v.tables room v.const) low h0' h1'
    (((lower 2 (by omega) (by omega)).1).trans k2), (lower 3 (by omega) (by omega)).1]
  cases h3 : entryAt (s.view P k a).mem s.constEpt gpa 3 with
  | none =>
      rw [h3] at identity
      simp only [leafOf, full0, full1, full2, fullPresent, or_self, if_false, Option.map_some,
        Access.full_meet] at identity
      simp only [leafOf, access_setPageFrameNumber, access_setAccess, full0, full2, fullPresent,
        allows, or_self, if_false, Option.map_some, Access.full_meet, Access.meet_full]
      rw [(Prod.mk.inj (Option.some.inj identity)).1]
  | some pte =>
      have full3 := full gpa 3 _ low (by omega) h3
      rw [h3] at identity
      simp only [leafOf, full0, full1, full2, full3, fullPresent, or_self, if_false,
        Option.map_some, Access.full_meet] at identity
      simp only [leafOf, access_setPageFrameNumber, access_setAccess, full0, full2, full3,
        fullPresent, allows, or_self, if_false, Option.map_some, Access.full_meet,
        Access.meet_full]
      rw [(Prod.mk.inj (Option.some.inj identity)).1]

theorem ConstClone.viewMaps (target : EptCls) {own : Frame → Prop}
    (root : target.eptPml4 = P.page k) (allows : a ≠ .none) (nothing : ∀ page, ¬ own page) :
    Maps target [s.constEpt, X.eptPml4] (s.view P k a) (fun _ => a) own := by
  have shaped := (v.tables.view room v.const a).shaped
  have unreached : ∀ {r gpa}, role r = some [] →
      tableAt (s.view P k a).mem r gpa 1 ≠ some (P.page (k + 1)) := by
    intro r gpa hr met
    rw [(v.tables.view_kept room v.const hr a).table gpa 1 (by omega)] at met
    have placed := v.tables.shaped.role_tableAt hr (by omega) met
    rw [v.tables.unplaced (by omega) room] at placed
    cases placed
  have placed : ∀ r ∈ [s.constEpt, X.eptPml4], role r = some [] := by
    intro r hr
    rcases List.mem_cons.mp hr with rfl | same
    · exact v.const
    · rw [List.mem_singleton.mp same]
      exact v.root
  have full := (v.view room a).full
  refine ⟨fun r hr => ?_, fun r hr gpa n low one deep shared => ?_,
    fun gpa n e low deep he small apart => ?_, fun gpa low => ?_, fun gpa _ owned => absurd owned (nothing _)⟩
  · rintro rfl
    have := placed _ hr
    rw [root, v.tables.unplaced (Nat.le_refl k) (by omega)] at this
    cases this
  · obtain ⟨-, t1, lower⟩ := v.tables.view_entries room v.const a low.pml4Index
    rw [root] at shared ⊢
    obtain ⟨f, left, right⟩ := shared
    by_cases first : n = 1
    · subst first
      rw [t1] at left
      obtain rfl := Option.some.inj left
      exact absurd right (unreached (placed r hr))
    · exact ⟨f, left, ((lower n (by omega) deep).2).symm.trans left⟩
  · obtain ⟨⟨e0, d, h0, h0', h1, h1'⟩, t1, lower⟩ := v.tables.view_entries room v.const a low.pml4Index
    rw [root] at he apart
    match n, deep with
    | 0, _ =>
        rw [h0'] at he
        rw [← Option.some.inj he, access_setPageFrameNumber]
        exact full gpa 0 e0 low (by omega) h0
    | 1, _ =>
        obtain ⟨g, hg⟩ := shaped.upperTable
          (roleOfView_root v.tables room v.const) low.pml4Index (Nat.le_refl 2)
        exact absurd ⟨g, hg, ((lower 2 (by omega) (by omega)).2).symm.trans hg⟩ apart
    | 2, _ =>
        rw [(lower 2 (by omega) (by omega)).1] at he
        exact full gpa 2 e low (by omega) he
  · rw [root]
    exact v.view_leaf room allows low

end View

/-- What set_pte writes for a page of its own is seen through every root with the same top entry. -/
theorem Maps.setPteAccess_through {others : List Frame} {perm : Frame → Access}
    {own : Frame → Prop} {gpa : BitVec 64} {r : Frame} (h : Maps X others s perm own)
    (x : Among P X others s role k) (one : X.sources s.constEpt = [s.constEpt]) (low : Below512G gpa)
    (hr : role r = some []) (top : s.mem r (pml4Index gpa) = s.mem X.eptPml4 (pml4Index gpa))
    (allows : a ≠ .none) (owned : own (pageOf gpa)) (enough : 6 ≤ fuel) :
    ∃ t, Ept.setPteAccess P fuel X gpa a s = .ok (true, t) ∧
      translation s.mem r gpa = some (pageOf gpa, perm (pageOf gpa)) ∧
      translation t.mem r gpa = some (pageOf gpa, a) := by
  obtain ⟨g, hg, before, above, done⟩ := h.setPteAccess_own x one low a owned enough
  have shaped := x.tables.shaped
  have placed := shaped.role_tableAt x.root (Nat.le_refl 3) hg
  obtain ⟨e0, e1, e2, h0, h1, h2⟩ := shaped.entries x.root low
  have same : ∀ n, entryAt s.mem r gpa n = entryAt s.mem X.eptPml4 gpa n := fun n => (sameTop top n).1
  have table : tableAt s.mem r gpa 3 = some g := ((sameTop top 2).2).trans hg
  have mapped := h.leaf gpa low
  refine ⟨_, done, ?_, ?_⟩
  · rw [shaped.translation_eq hr low ((same 0).trans h0) ((same 1).trans h1) ((same 2).trans h2),
      same 3, ← shaped.translation_eq x.root low h0 h1 h2]
    exact mapped
  · have shapedAfter : Shaped role (s.store g (ptIndex gpa)
        (setAccess (s.mem g (ptIndex gpa)) a)).mem := (x.tables.store placed).shaped
    have kept : ∀ n, n ≤ 2 → entryAt (s.store g (ptIndex gpa)
        (setAccess (s.mem g (ptIndex gpa)) a)).mem r gpa n = entryAt s.mem X.eptPml4 gpa n := by
      intro n upper
      rw [store_entryAt x.tables hr placed (by omega), if_neg fun both => ?_, same n]
      have level := place_level both.2
      omega
    have last : entryAt (s.store g (ptIndex gpa) (setAccess (s.mem g (ptIndex gpa)) a)).mem r gpa 3 =
        some (setAccess (s.mem g (ptIndex gpa)) a) := by
      rw [store_entryAt x.tables hr placed (Nat.le_refl 3), if_pos ⟨table, rfl⟩]
    have full0 := above 0 e0 (by omega) h0
    have full1 := above 1 e1 (by omega) h1
    have full2 := above 2 e2 (by omega) h2
    have fullPresent : Access.full ≠ .none := by decide
    have present := (h.present x low h0 h1 h2).2.2.2 _ (entryAt_eq hg)
    rw [shaped.translation_eq x.root low h0 h1 h2, entryAt_eq hg] at mapped
    simp only [leafOf, full0, full1, full2, fullPresent, present, or_self, if_false, Option.map_some]
      at mapped
    rw [shapedAfter.translation_eq hr low ((kept 0 (by omega)).trans h0)
      ((kept 1 (by omega)).trans h1) ((kept 2 (by omega)).trans h2), last]
    simp only [leafOf, full0, full1, full2, fullPresent, allows, access_setAccess, or_self, if_false,
      Option.map_some, Access.full_meet, pageFrameNumber_setAccess]
    have frame : pageFrameNumber (s.mem g (ptIndex gpa)) = pageOf gpa :=
      (Prod.mk.inj (Option.some.inj mapped)).1
    rw [frame]

end Clones

end LMalz.Ept
