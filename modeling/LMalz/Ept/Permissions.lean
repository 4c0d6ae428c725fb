import LMalz.Ept.CopyOnWrite

/- What an object maps, as a function from pages to permissions, and set_pte as an update of
this function. -/
namespace LMalz.Ept

/-- The frame of the page of an address. -/
def pageOf (gpa : BitVec 64) : Frame := BitField.get gpa 12 36

/-- The frame an address is mapped to and what all levels allow together. -/
def translation (m : Memory) (root : Frame) (gpa : BitVec 64) : Option (Frame × Access) :=
  (walk m root gpa).map fun l => (l.frame, l.access)

/-- Every entry of const_ept allows everything. -/
def ConstFull (s : Machine) : Prop :=
  ∀ gpa n e, Below512G gpa → n ≤ 3 → entryAt s.mem s.constEpt gpa n = some e → access e = .full

/-- The tables of an object that shares tables only with const_ept: pages are mapped to
themselves with the permissions `perm`, and for the pages of `own` no table is shared. -/
structure Maps (X : EptCls) (others : List Frame) (s : Machine) (perm : Frame → Access)
    (own : Frame → Prop) : Prop where
  distinct : ∀ r ∈ others, r ≠ X.eptPml4
  sharing : ∀ r ∈ others, ∀ gpa n, Below512G gpa → 1 ≤ n → n ≤ 3 →
    Shares s.mem X.eptPml4 r gpa n → Shares s.mem X.eptPml4 s.constEpt gpa n
  upper : ∀ gpa n e, Below512G gpa → n ≤ 2 → entryAt s.mem X.eptPml4 gpa n = some e →
    largePage e = false → ¬ Shares s.mem X.eptPml4 s.constEpt gpa (n + 1) → access e = .full
  leaf : ∀ gpa, Below512G gpa →
    translation s.mem X.eptPml4 gpa = some (pageOf gpa, perm (pageOf gpa))
  private_ : ∀ gpa, Below512G gpa → own (pageOf gpa) → (∃ g, tableAt s.mem X.eptPml4 gpa 3 = some g) ∧
    ¬ Shares s.mem X.eptPml4 s.constEpt gpa 3

section Pages
variable {gpa gpa' : BitVec 64}

theorem pageOf_eq_iff (low : Below512G gpa) (low' : Below512G gpa') :
    pageOf gpa' = pageOf gpa ↔ place gpa' 4 = place gpa 4 := by
  have small : gpa.toNat < 2^39 := low
  have small' : gpa'.toNat < 2^39 := low'
  have lists : place gpa' 4 = place gpa 4 ↔ pml4Index gpa' = pml4Index gpa ∧
      pdptIndex gpa' = pdptIndex gpa ∧ pdIndex gpa' = pdIndex gpa ∧ ptIndex gpa' = ptIndex gpa := by
    simp [place, indexAt]
  rw [lists, pageOf, pageOf, ← BitVec.toNat_inj, ← BitVec.toNat_inj, ← BitVec.toNat_inj,
    ← BitVec.toNat_inj, ← BitVec.toNat_inj]
  simp only [pml4Index, pdptIndex, pdIndex, ptIndex, BitField.toNat_get]
  omega

theorem align2mb (gpa : BitVec 64) :
    gpa &&& ~~~(0x200000 - 1 : BitVec 64) = gpa >>> 21 <<< 21 :=
  BitField.and_not_low (by decide)

theorem demoPte_frame {s : Machine} {demo : Entry} (low : Below512G gpa) (low' : Below512G gpa')
    (same : place gpa' 3 = place gpa 3) :
    pageFrameNumber (demoPte s (gpa &&& ~~~(0x200000 - 1)) demo 0 (ptIndex gpa')) = pageOf gpa' := by
  have small : gpa.toNat < 2^39 := low
  have small' : gpa'.toNat < 2^39 := low'
  have lists : pdptIndex gpa' = pdptIndex gpa ∧ pdIndex gpa' = pdIndex gpa := by
    simp only [place, indexAt, List.nil_append, List.cons_append, List.cons.injEq, and_true] at same
    exact ⟨same.2.1, same.2.2⟩
  rw [← BitVec.toNat_inj, ← BitVec.toNat_inj, pdptIndex, pdptIndex, pdIndex, pdIndex] at lists
  simp only [BitField.toNat_get] at lists
  rw [demoPte, pageFrameNumber_setMemoryType, pageFrameNumber_setPageFrameNumber, align2mb, pageOf]
  apply BitVec.eq_of_toNat_eq
  simp only [BitField.toNat_get, BitVec.toNat_setWidth, BitVec.toNat_add, BitVec.toNat_ushiftRight,
    BitVec.toNat_shiftLeft, Nat.shiftRight_eq_div_pow, Nat.shiftLeft_eq, ptIndex]
  omega

end Pages

theorem Maps.kept {X : EptCls} {others others' : List Frame} {s s' : Machine}
    {perm : Frame → Access} {own : Frame → Prop} {role role' : Frame → Option (List Index)}
    (h : Maps X others s perm own) (shaped : Shaped role s.mem) (shaped' : Shaped role' s'.mem)
    (root : role X.eptPml4 = some []) (root' : role' X.eptPml4 = some [])
    (const : s'.constEpt = s.constEpt) (keptX : Kept s.mem s'.mem X.eptPml4)
    (keptC : Kept s.mem s'.mem s.constEpt) (distinct : ∀ r ∈ others', r ≠ X.eptPml4)
    (sharing : ∀ r ∈ others', ∀ gpa n, Below512G gpa → 1 ≤ n → n ≤ 3 →
      Shares s'.mem X.eptPml4 r gpa n → Shares s'.mem X.eptPml4 s'.constEpt gpa n) :
    Maps X others' s' perm own := by
  have withConst : ∀ gpa n, n ≤ 3 → (Shares s'.mem X.eptPml4 s'.constEpt gpa n ↔
      Shares s.mem X.eptPml4 s.constEpt gpa n) := by
    intro gpa n deep
    rw [Shares, Shares, const, keptX.table gpa n deep, keptC.table gpa n deep]
  refine ⟨distinct, sharing, fun gpa n e low deep he small apart => ?_, fun gpa low => ?_,
    fun gpa low owned => ?_⟩
  · rw [keptX.entry gpa n (by omega)] at he
    exact h.upper gpa n e low deep he small fun old =>
      apart ((withConst gpa (n + 1) (by omega)).mpr old)
  · rw [translation, shaped.walk_congr shaped' root root' fun n deep => keptX.entry gpa n deep]
    exact h.leaf gpa low
  · obtain ⟨⟨g, hg⟩, apart⟩ := h.private_ gpa low owned
    exact ⟨⟨g, (keptX.table gpa 3 (Nat.le_refl 3)).trans hg⟩,
      fun shared => apart ((withConst gpa 3 (Nat.le_refl 3)).mp shared)⟩

section Alone
variable {P : Platform} {X : EptCls} {others : List Frame} {s : Machine} {gpa : BitVec 64}
  {role : Frame → Option (List Index)} {k : Nat} {perm : Frame → Access} {own : Frame → Prop}

/-- need_remap keeps set_pte away from every table that is shared. -/
theorem Maps.alone (h : Maps X others s perm own) (a : Among P X others s role k)
    (one : X.sources s.constEpt = [s.constEpt]) (low : Below512G gpa) :
    Alone P X others gpa s role k := by
  refine ⟨a, fun r hr shares => ?_⟩
  cases needs : (needRemap s X gpa).1 with
  | succ n =>
      rw [written_remap needs] at shares
      obtain ⟨upper, pre, t, post, split, -, -, -, -, above⟩ := a.needs_spec low.pml4Index needs
      obtain rfl : t = s.constEpt := by
        have member : t ∈ X.sources s.constEpt := by simp [split]
        rwa [one, List.mem_singleton] at member
      cases n with
      | zero =>
          obtain ⟨f, left, right⟩ := shares
          obtain rfl : X.eptPml4 = f := Option.some.inj left
          exact h.distinct r hr (Option.some.inj right)
      | succ n =>
          exact above (n + 1) (by omega) (Nat.le_refl _)
            (h.sharing r hr gpa (n + 1) low (by omega) (by omega) shares)
  | zero =>
      have unshared := a.unshared low.pml4Index needs (t := s.constEpt) (by simp [one])
      rcases written_direct needs with level | level
      · rw [level] at shares
        exact unshared 2 (by omega) (by omega) (h.sharing r hr gpa 2 low (by omega) (by omega) shares)
      · rw [level] at shares
        exact unshared 3 (by omega) (by omega) (h.sharing r hr gpa 3 low (by omega) (by omega) shares)

end Alone

section Leaves
variable {m m' : Memory} {role role' : Frame → Option (List Index)} {root : Frame}
  {gpa : BitVec 64}

theorem Shaped.translation_eq (h : Shaped role m) (hr : role root = some []) (low : Below512G gpa)
    {e0 e1 e2 : Entry} (h0 : entryAt m root gpa 0 = some e0) (h1 : entryAt m root gpa 1 = some e1)
    (h2 : entryAt m root gpa 2 = some e2) : translation m root gpa =
      (leafOf gpa e0 e1 e2 (entryAt m root gpa 3)).map fun l => (l.frame, l.access) := by
  obtain ⟨f0, f1, f2, h0', h1', h2', eq⟩ := h.walk_eq hr low
  rw [h0] at h0'
  rw [h1] at h1'
  rw [h2] at h2'
  rw [translation, eq, ← Option.some.inj h0', ← Option.some.inj h1', ← Option.some.inj h2']

theorem Shaped.entries (h : Shaped role m) (hr : role root = some []) (low : Below512G gpa) :
    ∃ e0 e1 e2, entryAt m root gpa 0 = some e0 ∧ entryAt m root gpa 1 = some e1 ∧
      entryAt m root gpa 2 = some e2 := by
  obtain ⟨e0, e1, e2, h0, h1, h2, -⟩ := h.walk_eq hr low
  exact ⟨e0, e1, e2, h0, h1, h2⟩

end Leaves

section Pushes
variable {gpa : BitVec 64} {e e' d e0 e1 e2 : Entry} {pte : Option Entry}
  (full : access e' = .full) (below : access d = .full)
include full below

/-- The access of an entry moves to the table below, where everything was allowed. -/
theorem leafOf_push0 :
    leafOf gpa e' (setAccess d (access e)) e2 pte = leafOf gpa e d e2 pte := by
  have present : Access.full ≠ .none := by decide
  simp only [leafOf, full, below, access_setAccess, present, false_or, Access.full_meet,
    Access.meet_full]

theorem leafOf_push1 :
    leafOf gpa e0 e' (setAccess d (access e)) pte = leafOf gpa e0 e d pte := by
  have present : Access.full ≠ .none := by decide
  have frame : pageFrameNumber2mb (setAccess d (access e)) = pageFrameNumber2mb d :=
    pageFrameNumber2mb_setAccess d _
  simp only [leafOf, full, below, access_setAccess, present, false_or, or_false, Access.meet_full,
    frame, memoryType_setAccess]

theorem leafOf_push2 :
    leafOf gpa e0 e1 e' (some (setAccess d (access e))) = leafOf gpa e0 e1 e (some d) := by
  have present : Access.full ≠ .none := by decide
  simp only [leafOf, full, below, access_setAccess, present, or_false, Access.meet_full,
    pageFrameNumber_setAccess, memoryType_setAccess, if_false]
  by_cases none : access e = .none
  · simp only [none, if_true, or_true, ite_self]
  · simp only [none, if_false, or_false]

end Pushes

section Edited
variable {m m' : Memory} {x r q : Frame} {gpa gpa' : BitVec 64} {p : List Index} {n j : Nat}

theorem Shares.place_iff (same : place gpa' n = place gpa n) :
    Shares m x r gpa' n ↔ Shares m x r gpa n := by
  rw [Shares, Shares, tableAt, tableAt, tableAt, tableAt, same]

/-- A new table on the way of `x` is shared with nobody; the rest is shared as before. -/
theorem shares_edit (deep : j ≤ 3)
    (table : tableAt m' x gpa' j = if place gpa' j = p then some q else tableAt m x gpa' j)
    (kept : Kept m m' r) (new : tableAt m r gpa' j ≠ some q) :
    Shares m' x r gpa' j ↔ place gpa' j ≠ p ∧ Shares m x r gpa' j := by
  rw [Shares, Shares, table, kept.table gpa' j deep]
  by_cases here : place gpa' j = p
  · rw [if_pos here]
    constructor
    · rintro ⟨g, left, right⟩
      obtain rfl := Option.some.inj left
      exact absurd right new
    · rintro ⟨other, -⟩
      exact absurd here other
  · rw [if_neg here]
    exact ⟨fun shares => ⟨here, shares⟩, fun both => both.2⟩

theorem Shaped.smallEntry {role : Frame → Option (List Index)} {e : Entry} (h : Shaped role m)
    (hr : role x = some []) (low : pml4Index gpa = 0) (upper : n ≤ 2)
    (he : entryAt m x gpa n = some e) (small : largePage e = false) :
    tableAt m x gpa (n + 1) = some (pageFrameNumber e) := by
  obtain ⟨f, hf⟩ := h.upperTable hr low upper
  have placed := h.role_tableAt hr (by omega) hf
  rw [entryAt_eq hf] at he
  obtain rfl := Option.some.inj he
  rw [tableAt_succ, entryAt_eq hf, Option.bind_some]
  have first : place gpa n = [] → indexAt gpa n = 0 := by
    intro top
    cases n with
    | zero => exact low
    | succ n => simp [place] at top
  rcases h.below f _ (indexAt gpa n) placed (by rw [place_length]; omega) first with
    ⟨-, deeper⟩ | ⟨-, large⟩
  · exact child_eq_some.mpr ⟨small, rfl, h.nonzero deeper⟩
  · rw [small] at large
    cases large

end Edited

section Remap
variable {P : Platform} {X : EptCls} {others : List Frame} {s : Machine} {gpa gpa' : BitVec 64}
  {role : Frame → Option (List Index)} {k n : Nat} {perm : Frame → Access}
  {own : Frame → Prop} {f : Frame}

theorem Among.const (a : Among P X others s role k) (one : X.sources s.constEpt = [s.constEpt]) :
    s.constEpt ∈ others := a.sources _ (by simp [one])

theorem Among.unreached (a : Among P X others s role k) (room : k < poolPages) {r : Frame}
    (hr : r ∈ others) {j : Nat} (deep : j ≤ 3) : tableAt s.mem r gpa' j ≠ some (P.page k) := by
  intro met
  have placed := a.tables.shaped.role_tableAt (a.placed r hr) deep met
  rw [a.tables.unplaced (Nat.le_refl k) room] at placed
  cases placed

/-- With one source, the table that a remap copies is that of const_ept. -/
theorem Alone.shares_const (a : Alone P X others gpa s role k) (one : X.sources s.constEpt = [s.constEpt])
    (low : Below512G gpa) (needs : (needRemap s X gpa).1 = n + 1) :
    n ≤ 2 ∧ Shares s.mem X.eptPml4 s.constEpt gpa (n + 1) := by
  obtain ⟨upper, pre, t, post, split, -, -, -, shares, -⟩ := a.needs_spec low.pml4Index needs
  obtain rfl : t = s.constEpt := by
    have member : t ∈ X.sources s.constEpt := by simp [split]
    rwa [one, List.mem_singleton] at member
  exact ⟨upper, shares⟩

variable (full : ConstFull s) (a : Alone P X others gpa s role k)
  (one : X.sources s.constEpt = [s.constEpt]) (low : Below512G gpa) (room : k < poolPages)
  (needs : (needRemap s X gpa).1 = n + 1) (hf : tableAt s.mem X.eptPml4 gpa n = some f)
include full a one low room needs hf

/-- A remap moves permissions one level down for the object and changes nothing it maps. -/
theorem Alone.remap_translation (low' : Below512G gpa') :
    translation (s.remap P k gpa n f).mem X.eptPml4 gpa' = translation s.mem X.eptPml4 gpa' := by
  obtain ⟨upper, shares⟩ := a.shares_const one low needs
  have deeper := a.deeper low.pml4Index needs
  have next := (a.remap low.pml4Index room needs hf).1
  have shaped := a.tables.shaped
  have entries : ∀ j, j ≤ 3 → entryAt (s.remap P k gpa n f).mem X.eptPml4 gpa' j = _ := fun j deep =>
    remap_entryAt a.tables room a.root upper hf deeper deep
  by_cases same : place gpa' (n + 1) = place gpa (n + 1)
  case neg =>
    rw [translation, translation,
      shaped.walk_congr next.tables.shaped a.root next.root fun j deep => ?_]
    rw [entries j deep, if_neg, if_neg]
    · intro here
      obtain rfl := place_level here
      exact same here
    · intro here
      obtain ⟨rfl, -, -⟩ := place_succ_inj.mp here
      exact same here
  obtain ⟨-, above, index⟩ := place_succ_inj.mp same
  have hf' : tableAt s.mem X.eptPml4 gpa' n = some f := by
    rw [tableAt, above]
    exact hf
  have he := entryAt_eq hf'
  obtain ⟨small, shared⟩ := child_tableAt hf' (by rw [tableAt, same]; exact deeper)
  have hd := entryAt_eq shared
  have fullD : access (s.mem (pageFrameNumber (s.mem f (indexAt gpa' n))) (indexAt gpa' (n + 1))) =
      .full := by
    obtain ⟨g, left, right⟩ := (Shares.place_iff same).mpr shares
    rw [shared] at left
    obtain rfl := Option.some.inj left
    exact full gpa' (n + 1) _ low' (by omega) (entryAt_eq right)
  have fullE : access (setAccess (setPageFrameNumber (s.mem f (indexAt gpa n)) (P.page k)) .full) =
      .full := access_setAccess _ _
  have entryN := entries n (by omega)
  have entryD := entries (n + 1) (by omega)
  rw [if_pos same] at entryN
  rw [if_neg fun here => absurd (place_level here) (by omega), if_pos same, copiedPage] at entryD
  have rest : ∀ j, j ≤ 3 → j ≠ n → j ≠ n + 1 →
      entryAt (s.remap P k gpa n f).mem X.eptPml4 gpa' j = entryAt s.mem X.eptPml4 gpa' j := by
    intro j deep ne ne'
    rw [entries j deep, if_neg, if_neg]
    · exact fun here => ne' (place_level here)
    · exact fun here => ne (place_succ_inj.mp here).1
  obtain ⟨e0, e1, e2, h0, h1, h2⟩ := shaped.entries a.root low'
  rw [index] at he hd fullD
  obtain rfl | rfl | rfl : n = 0 ∨ n = 1 ∨ n = 2 := by omega
  · rw [next.tables.shaped.translation_eq next.root low' entryN entryD
      ((rest 2 (by omega) (by omega) (by omega)).trans h2), rest 3 (by omega) (by omega) (by omega),
      shaped.translation_eq a.root low' he hd h2, leafOf_push0 fullE fullD]
  · rw [next.tables.shaped.translation_eq next.root low'
      ((rest 0 (by omega) (by omega) (by omega)).trans h0) entryN entryD,
      rest 3 (by omega) (by omega) (by omega), shaped.translation_eq a.root low' h0 he hd,
      leafOf_push1 fullE fullD]
  · rw [next.tables.shaped.translation_eq next.root low'
      ((rest 0 (by omega) (by omega) (by omega)).trans h0)
      ((rest 1 (by omega) (by omega) (by omega)).trans h1) entryN, entryD,
      shaped.translation_eq a.root low' h0 h1 he, hd, leafOf_push2 fullE fullD]

theorem Maps.remap (h : Maps X others s perm own) :
    Maps X others (s.remap P k gpa n f) perm own ∧ ConstFull (s.remap P k gpa n f) := by
  obtain ⟨upper, shares⟩ := a.shares_const one low needs
  have const := a.toAmong.const one
  have deeper := a.deeper low.pml4Index needs
  have next := (a.remap low.pml4Index room needs hf).1
  have kept : ∀ r ∈ others, Kept s.mem (s.remap P k gpa n f).mem r := fun r hr =>
    a.remap_kept low.pml4Index room needs hf hr
  have table : ∀ gpa' j, j ≤ 3 → tableAt (s.remap P k gpa n f).mem X.eptPml4 gpa' j = _ :=
    fun gpa' j deep => remap_tableAt a.tables room a.root upper hf deeper deep
  have sharing : ∀ r ∈ others, ∀ gpa' j, j ≤ 3 →
      (Shares (s.remap P k gpa n f).mem X.eptPml4 r gpa' j ↔
        place gpa' j ≠ place gpa (n + 1) ∧ Shares s.mem X.eptPml4 r gpa' j) := fun r hr gpa' j deep =>
    shares_edit deep (table gpa' j deep) (kept r hr) (a.unreached room hr deep)
  constructor
  · refine ⟨h.distinct, fun r hr gpa' j low' some deep shared => ?_,
      fun gpa' j e low' deep he small apart => ?_, fun gpa' low' => ?_, fun gpa' low' owned => ?_⟩
    · obtain ⟨ne, old⟩ := (sharing r hr gpa' j deep).mp shared
      exact (sharing _ const gpa' j deep).mpr ⟨ne, h.sharing r hr gpa' j low' some deep old⟩
    · by_cases here : place gpa' (j + 1) = place gpa (n + 1)
      · rw [remap_entryAt a.tables room a.root upper hf deeper (by omega), if_pos here] at he
        rw [← Option.some.inj he, access_setAccess]
      · by_cases copied : place gpa' j = place gpa (n + 1)
        · obtain rfl := place_level copied
          have met := next.tables.shaped.smallEntry next.root low'.pml4Index deep he small
          rw [table gpa' (n + 1 + 1) (by omega), if_neg here] at met
          refine absurd ((sharing _ const gpa' _ (by omega)).mpr ⟨here, ?_⟩) apart
          exact ((Shares.place_iff copied).mpr shares).mono (by omega) met
        · rw [remap_entryAt a.tables room a.root upper hf deeper (by omega), if_neg here,
            if_neg copied] at he
          refine h.upper gpa' j e low' deep he small fun old => apart ?_
          exact (sharing _ const gpa' _ (by omega)).mpr ⟨here, old⟩
    · rw [a.remap_translation full one low room needs hf low']
      exact h.leaf gpa' low'
    · obtain ⟨⟨g, hg⟩, apart⟩ := h.private_ gpa' low' owned
      have elsewhere : place gpa' 3 ≠ place gpa (n + 1) := by
        intro here
        obtain level := place_level here
        rw [level] at apart here
        exact apart ((Shares.place_iff here).mpr shares)
      refine ⟨⟨g, by rw [table gpa' 3 (Nat.le_refl 3), if_neg elsewhere, hg]⟩, fun shared => apart ?_⟩
      exact ((sharing _ const gpa' 3 (Nat.le_refl 3)).mp shared).2
  · intro gpa' j e low' deep he
    exact full gpa' j e low' deep (((kept _ const).entry gpa' j deep).symm.trans he)

end Remap

section Split
variable {P : Platform} {X : EptCls} {others : List Frame} {s : Machine} {gpa gpa' : BitVec 64}
  {role : Frame → Option (List Index)} {k : Nat} {perm : Frame → Access}
  {own : Frame → Prop} {f : Frame} {demo : Entry}

theorem Maps.present (h : Maps X others s perm own) (a : Among P X others s role k)
    (low : Below512G gpa) {e0 e1 e2 : Entry} (h0 : entryAt s.mem X.eptPml4 gpa 0 = some e0)
    (h1 : entryAt s.mem X.eptPml4 gpa 1 = some e1) (h2 : entryAt s.mem X.eptPml4 gpa 2 = some e2) :
    access e0 ≠ .none ∧ access e1 ≠ .none ∧ access e2 ≠ .none ∧
      ∀ pte ∈ entryAt s.mem X.eptPml4 gpa 3, access pte ≠ .none := by
  have mapped := h.leaf gpa low
  rw [a.tables.shaped.translation_eq a.root low h0 h1 h2, leafOf] at mapped
  by_cases absent : access e0 = .none ∨ access e1 = .none ∨ access e2 = .none
  · rw [if_pos absent] at mapped
    cases mapped
  · rw [not_or, not_or] at absent
    refine ⟨absent.1, absent.2.1, absent.2.2, fun pte hpte none => ?_⟩
    rw [if_neg (by rw [not_or, not_or]; exact absent), Option.mem_def.mp hpte] at mapped
    simp only [none, if_true] at mapped
    cases mapped

theorem Maps.split_leaf (h : Maps X others s perm own) (a : Among P X others s role k)
    (room : k < poolPages) (low : Below512G gpa) (hf : tableAt s.mem X.eptPml4 gpa 2 = some f)
    (twoMb : largePage (s.mem f (indexAt gpa 2)) = true)
    (same : access demo = access (s.mem f (indexAt gpa 2))) (low' : Below512G gpa')
    (here : place gpa' 3 = place gpa 3) :
    translation (s.split P k gpa f demo).mem X.eptPml4 gpa' =
      some (pageOf gpa', perm (pageOf gpa')) := by
  have shaped := a.tables.shaped
  obtain ⟨next, -⟩ := a.split room hf demo
  obtain ⟨-, above, index⟩ := place_succ_inj.mp here
  have hf' : tableAt s.mem X.eptPml4 gpa' 2 = some f := by
    rw [tableAt, above]
    exact hf
  have pde : entryAt s.mem X.eptPml4 gpa' 2 = some (s.mem f (indexAt gpa 2)) := by
    rw [entryAt_eq hf', index]
  have entries : ∀ j, j ≤ 3 → entryAt (s.split P k gpa f demo).mem X.eptPml4 gpa' j = _ :=
    fun j deep => split_entryAt a.tables room a.root hf demo deep
  have upper : ∀ j, j ≤ 1 → entryAt (s.split P k gpa f demo).mem X.eptPml4 gpa' j =
      entryAt s.mem X.eptPml4 gpa' j := by
    intro j deep
    rw [entries j (by omega), if_neg fun at2 => absurd (place_level at2) (by omega),
      if_neg fun at3 => absurd (place_level at3) (by omega)]
  have entry2 := entries 2 (by omega)
  rw [if_pos here] at entry2
  have entry3 := entries 3 (by omega)
  rw [if_neg fun at4 => absurd (place_level at4) (by omega), if_pos here] at entry3
  obtain ⟨e0, e1, -, h0, h1, -⟩ := shaped.entries a.root low'
  obtain ⟨present0, present1, present2, -⟩ := h.present a low' h0 h1 pde
  have none3 : entryAt s.mem X.eptPml4 gpa' 3 = none := by
    refine (shaped.lowestEntry a.root hf').1 ?_
    rw [index]
    exact twoMb
  have mapped := h.leaf gpa' low'
  rw [shaped.translation_eq a.root low' h0 h1 pde, none3] at mapped
  rw [next.tables.shaped.translation_eq next.root low' ((upper 0 (by omega)).trans h0)
    ((upper 1 (by omega)).trans h1) entry2, entry3]
  have accessPte : access (demoPte s (gpa &&& ~~~(0x200000 - 1)) demo 0 (ptIndex gpa')) =
      access (s.mem f (indexAt gpa 2)) := by
    rw [demoPte, access_setMemoryType, access_setPageFrameNumber, access_setAccess, same]
  have fullPresent : Access.full ≠ .none := by decide
  have last : indexAt gpa' 3 = ptIndex gpa' := rfl
  simp only [leafOf, present0, present1, present2, or_self, if_false, Option.map_some,
    last, accessPte, access_tableEntry, fullPresent, Access.meet_full] at mapped ⊢
  rw [demoPte_frame low low' here]
  have parts := Option.some.inj mapped
  rw [Prod.mk.injEq] at parts
  rw [← parts.2]

/-- The walks of the other addresses do not meet what a split changes. -/
theorem Among.split_elsewhere (a : Among P X others s role k) (room : k < poolPages)
    (hf : tableAt s.mem X.eptPml4 gpa 2 = some f) (other : place gpa' 3 ≠ place gpa 3) :
    translation (s.split P k gpa f demo).mem X.eptPml4 gpa' = translation s.mem X.eptPml4 gpa' := by
  obtain ⟨next, -⟩ := a.split room hf demo
  rw [translation, translation,
    a.tables.shaped.walk_congr next.tables.shaped a.root next.root fun j deep => ?_]
  rw [split_entryAt a.tables room a.root hf demo deep, if_neg, if_neg]
  · intro at3
    obtain rfl := place_level at3
    exact other at3
  · intro at2
    obtain ⟨rfl, -, -⟩ := place_succ_inj.mp at2
    exact other at2

variable (h : Maps X others s perm own) (full : ConstFull s) (a : Alone P X others gpa s role k)
  (const : s.constEpt ∈ others) (low : Below512G gpa) (room : k < poolPages)
  (level : written s X gpa = 2) (hf : tableAt s.mem X.eptPml4 gpa 2 = some f)
  (large : access (s.mem f (indexAt gpa 2)) = .none ∨ largePage (s.mem f (indexAt gpa 2)) = true)
  (same : access (s.mem f (indexAt gpa 2)) ≠ .none →
    access demo = access (s.mem f (indexAt gpa 2)))
include h full a const low room level hf large same

theorem Maps.split : Maps X others (s.split P k gpa f demo) perm own ∧
    ConstFull (s.split P k gpa f demo) := by
  have shaped := a.tables.shaped
  have kept : ∀ r ∈ others, Kept s.mem (s.split P k gpa f demo).mem r := fun r hr =>
    (a.split_kept room level hf demo hr).1
  have table : ∀ gpa' j, j ≤ 3 → tableAt (s.split P k gpa f demo).mem X.eptPml4 gpa' j = _ :=
    fun gpa' j deep => split_tableAt a.tables room a.root hf demo deep
  have entries : ∀ gpa' j, j ≤ 3 → entryAt (s.split P k gpa f demo).mem X.eptPml4 gpa' j = _ :=
    fun gpa' j deep => split_entryAt a.tables room a.root hf demo deep
  have sharing : ∀ r ∈ others, ∀ gpa' j, j ≤ 3 →
      (Shares (s.split P k gpa f demo).mem X.eptPml4 r gpa' j ↔
        place gpa' j ≠ place gpa 3 ∧ Shares s.mem X.eptPml4 r gpa' j) := fun r hr gpa' j deep =>
    shares_edit deep (table gpa' j deep) (kept r hr) (a.unreached room hr deep)
  obtain ⟨e0, e1, e2, h0, h1, h2⟩ := shaped.entries a.root low
  have present := (h.present a.toAmong low h0 h1 h2).2.2.1
  have pde := entryAt_eq hf
  rw [h2] at pde
  obtain rfl := Option.some.inj pde
  have twoMb := large.resolve_left present
  constructor
  · refine ⟨h.distinct, fun r hr gpa' j low' some deep shared => ?_,
      fun gpa' j e low' deep he small apart => ?_, fun gpa' low' => ?_, fun gpa' low' owned => ?_⟩
    · obtain ⟨ne, old⟩ := (sharing r hr gpa' j deep).mp shared
      exact (sharing _ const gpa' j deep).mpr ⟨ne, h.sharing r hr gpa' j low' some deep old⟩
    · rw [entries gpa' j (by omega)] at he
      by_cases here : place gpa' (j + 1) = place gpa 3
      · rw [if_pos here] at he
        rw [← Option.some.inj he, access_tableEntry]
      · rw [if_neg here, if_neg fun at3 => absurd (place_level at3) (by omega)] at he
        refine h.upper gpa' j e low' deep he small fun old => apart ?_
        exact (sharing _ const gpa' _ (by omega)).mpr ⟨here, old⟩
    · by_cases here : place gpa' 3 = place gpa 3
      · exact h.split_leaf a.toAmong room low hf twoMb (same present) low' here
      · rw [a.toAmong.split_elsewhere room hf here]
        exact h.leaf gpa' low'
    · obtain ⟨⟨g, hg⟩, apart⟩ := h.private_ gpa' low' owned
      have elsewhere : place gpa' 3 ≠ place gpa 3 := by
        intro here
        rw [tableAt, here] at hg
        have met : tableAt s.mem X.eptPml4 gpa 3 = some g := hg
        rw [tableAt_succ, h2, Option.bind_some, child, if_pos (.inl twoMb)] at met
        cases met
      refine ⟨⟨g, by rw [table gpa' 3 (Nat.le_refl 3), if_neg elsewhere, hg]⟩, fun shared => apart ?_⟩
      exact ((sharing _ const gpa' 3 (Nat.le_refl 3)).mp shared).2
  · intro gpa' j e low' deep he
    exact full gpa' j e low' deep (((kept _ const).entry gpa' j deep).symm.trans he)

end Split

section Store
variable {P : Platform} {X : EptCls} {others : List Frame} {s : Machine} {gpa gpa' : BitVec 64}
  {role : Frame → Option (List Index)} {k : Nat} {perm : Frame → Access}
  {own : Frame → Prop} {g : Frame} {pte : Entry}
theorem Maps.above_full (h : Maps X others s perm own)
    (hg : tableAt s.mem X.eptPml4 gpa 3 = some g)
    (apart : ¬ Shares s.mem X.eptPml4 s.constEpt gpa 3) (low' : Below512G gpa')
    (same : place gpa' 3 = place gpa 3) {n : Nat} (upper : n ≤ 2) {e : Entry}
    (he : entryAt s.mem X.eptPml4 gpa' n = some e) : access e = .full := by
  have hg' : tableAt s.mem X.eptPml4 gpa' 3 = some g := by
    rw [tableAt, same]
    exact hg
  obtain ⟨f, hf⟩ := tableAt_le (show n ≤ 3 by omega) hg'
  obtain ⟨c, hc⟩ := tableAt_le (show n + 1 ≤ 3 by omega) hg'
  have small := (child_tableAt hf (by rw [hc]; exact Option.some_ne_none c)).1
  rw [entryAt_eq hf] at he
  obtain rfl := Option.some.inj he
  refine h.upper gpa' n _ low' upper (entryAt_eq hf) small fun shares => apart ?_
  exact (Shares.place_iff same).mp (shares.mono (by omega) hg')

variable (h : Maps X others s perm own) (a : Among P X others s role k)
  (const : s.constEpt ∈ others) (low : Below512G gpa)
  (hg : tableAt s.mem X.eptPml4 gpa 3 = some g)
  (alone : ∀ r ∈ others, ¬ Shares s.mem X.eptPml4 r gpa 3)
include h a const low hg alone

theorem Maps.store (allows : access pte ≠ .none) (frame : pageFrameNumber pte = pageOf gpa) :
    Maps X others (s.store g (ptIndex gpa) pte) (Function.update perm (pageOf gpa) (access pte))
      fun page => own page ∨ page = pageOf gpa := by
  have shaped := a.tables.shaped
  have placed := shaped.role_tableAt a.root (Nat.le_refl 3) hg
  have shapedAfter : Shaped role (s.store g (ptIndex gpa) pte).mem := (a.tables.store placed).shaped
  have table : ∀ r gpa' j, role r = some [] → j ≤ 3 →
      tableAt (s.store g (ptIndex gpa) pte).mem r gpa' j = tableAt s.mem r gpa' j :=
    fun r gpa' j hr deep => store_tableAt a.tables hr placed deep
  have entries : ∀ gpa' j, j ≤ 3 →
      entryAt (s.store g (ptIndex gpa) pte).mem X.eptPml4 gpa' j = _ :=
    fun gpa' j deep => store_entryAt a.tables a.root placed deep
  have sharing : ∀ r ∈ others, ∀ gpa' j, j ≤ 3 →
      (Shares (s.store g (ptIndex gpa) pte).mem X.eptPml4 r gpa' j ↔
        Shares s.mem X.eptPml4 r gpa' j) := by
    intro r hr gpa' j deep
    rw [Shares, Shares, table _ gpa' j a.root deep, table r gpa' j (a.placed r hr) deep]
  refine ⟨h.distinct, fun r hr gpa' j low' some deep shared => ?_,
    fun gpa' j e low' deep he small apart => ?_, fun gpa' low' => ?_, fun gpa' low' owned => ?_⟩
  · exact (sharing _ const gpa' j deep).mpr
      (h.sharing r hr gpa' j low' some deep ((sharing r hr gpa' j deep).mp shared))
  · rw [entries gpa' j (by omega), if_neg fun both => absurd (place_level both.2) (by omega)] at he
    exact h.upper gpa' j e low' deep he small fun old =>
      apart ((sharing _ const gpa' (j + 1) (by omega)).mpr old)
  · by_cases here : pageOf gpa' = pageOf gpa
    · have same := (pageOf_eq_iff low low').mp here
      obtain ⟨-, above, -⟩ := place_succ_inj.mp same
      obtain ⟨e0, e1, e2, h0, h1, h2⟩ := shapedAfter.entries a.root low'
      have old : ∀ j e, j ≤ 2 → entryAt (s.store g (ptIndex gpa) pte).mem X.eptPml4 gpa' j =
          some e → access e = .full := by
        intro j e deep he
        rw [entries gpa' j (by omega), if_neg fun both => absurd (place_level both.2) (by omega)] at he
        exact h.above_full hg (alone _ const) low' above deep he
      have entry3 := entries gpa' 3 (by omega)
      rw [if_pos ⟨hg, same⟩] at entry3
      have fullPresent : Access.full ≠ .none := by decide
      rw [shapedAfter.translation_eq a.root low' h0 h1 h2, entry3, here, Function.update_self]
      simp only [leafOf, old 0 e0 (by omega) h0, old 1 e1 (by omega) h1, old 2 e2 (by omega) h2,
        fullPresent, or_self, if_false, allows, Access.full_meet, Option.map_some, frame]
    · have elsewhere : ∀ j, j ≤ 3 → entryAt (s.store g (ptIndex gpa) pte).mem X.eptPml4 gpa' j =
          entryAt s.mem X.eptPml4 gpa' j := by
        intro j deep
        rw [entries gpa' j deep, if_neg]
        rintro ⟨-, at4⟩
        obtain ⟨rfl, -, -⟩ := place_succ_inj.mp at4
        exact here ((pageOf_eq_iff low low').mpr at4)
      rw [translation, shaped.walk_congr shapedAfter a.root a.root elsewhere,
        Function.update_of_ne here]
      exact h.leaf gpa' low'
  · have private_ : (∃ c, tableAt s.mem X.eptPml4 gpa' 3 = some c) ∧
        ¬ Shares s.mem X.eptPml4 s.constEpt gpa' 3 := by
      rcases owned with before | here
      · exact h.private_ gpa' low' before
      · obtain ⟨-, above, -⟩ := place_succ_inj.mp ((pageOf_eq_iff low low').mp here)
        refine ⟨⟨g, by rw [tableAt, above]; exact hg⟩, fun shared => ?_⟩
        exact alone _ const ((Shares.place_iff above).mp shared)
    obtain ⟨⟨c, hc⟩, apart⟩ := private_
    refine ⟨⟨c, by rw [table _ gpa' 3 a.root (Nat.le_refl 3), hc]⟩, fun shared => apart ?_⟩
    exact (sharing _ const gpa' 3 (Nat.le_refl 3)).mp shared

end Store

theorem Maps.congr {X : EptCls} {others : List Frame} {s t : Machine} {perm : Frame → Access}
    {own : Frame → Prop} (h : Maps X others s perm own) (mem : t.mem = s.mem)
    (const : t.constEpt = s.constEpt) : Maps X others t perm own := by
  refine ⟨h.distinct, ?_, ?_, ?_, ?_⟩
  · rw [mem, const]
    exact h.sharing
  · rw [mem, const]
    exact h.upper
  · rw [mem]
    exact h.leaf
  · rw [mem, const]
    exact h.private_

/-- The machine after a set_pte that gives the permissions `allowed` to `page`. -/
structure Updated (P : Platform) (X : EptCls) (others : List Frame) (s : Machine) (k : Nat)
    (perm : Frame → Access) (own : Frame → Prop) (page : Frame) (allowed : Access) (s' : Machine)
    (role' : Frame → Option (List Index)) (k' : Nat) : Prop where
  among : Among P X others s' role' k'
  grown : Grown s k s' k' 4
  const : s'.constEpt = s.constEpt
  pointer : s'.constEptp = s.constEptp
  full : ConstFull s'
  kept : ∀ r ∈ others, Kept s.mem s'.mem r
  maps : Maps X others s' (Function.update perm page allowed) fun p => own p ∨ p = page

section SetPte
variable {P : Platform} {X : EptCls} {others : List Frame} {s : Machine} {gpa : BitVec 64}
  {role : Frame → Option (List Index)} {k fuel : Nat} {perm : Frame → Access} {own : Frame → Prop}
  {pte : Entry}
variable (h : Maps X others s perm own) (full : ConstFull s) (a : Among P X others s role k)
  (one : X.sources s.constEpt = [s.constEpt]) (low : Below512G gpa)
include h full a one low

theorem Maps.setPte (allows : access pte ≠ .none) (frame : pageFrameNumber pte = pageOf gpa)
    (enough : 6 ≤ fuel) :
    Died (setPte P fuel X gpa pte s) s (k + 4) ∨ ∃ s' role' k',
      setPte P fuel X gpa pte s = .ok (true, s') ∧
      Updated P X others s k perm own (pageOf gpa) (access pte) s' role' k' := by
  have outcome := setPte_outcome (fun t => t.constEpt = s.constEpt ∧
      t.constEptp = s.constEptp ∧ ConstFull t ∧
      (∀ r ∈ others, Kept s.mem t.mem r) ∧ Maps X others t perm own) pte fuel low.pml4Index
    (fun t role k n f a room needs hf inv => by
      obtain ⟨const, pointer, full, kept, maps⟩ := inv
      rw [← const] at one
      obtain ⟨maps', full'⟩ := Maps.remap full a one low room needs hf maps
      exact ⟨const, pointer, full', fun r hr => (kept r hr).trans
        (a.remap_kept low.pml4Index room needs hf hr), maps'⟩)
    (fun t role k f demo a room level hf large same inv => by
      obtain ⟨const, pointer, full, kept, maps⟩ := inv
      rw [← const] at one
      obtain ⟨maps', full'⟩ := maps.split full a (a.toAmong.const one) low room level hf large same
      exact ⟨const, pointer, full', fun r hr => (kept r hr).trans (a.split_kept room level hf demo hr).1,
        maps'⟩)
    (h.alone a one low) ⟨rfl, rfl, full, fun r _ => Kept.refl s.mem r, h⟩ enough
  refine outcome.imp_right ?_
  rintro ⟨t, role', k', g, among, ⟨const, pointer, full, kept, maps⟩, grown, hg, alone, returned⟩
  rw [← const] at one
  have member := among.const one
  have placed := among.tables.shaped.role_tableAt among.root (Nat.le_refl 3) hg
  have stored : ∀ r ∈ others, Kept t.mem (t.store g (ptIndex gpa) pte).mem r := fun r hr =>
    among.tables.store_kept (among.placed r hr) placed fun met => alone r hr ⟨g, hg, met⟩
  refine ⟨t.store g (ptIndex gpa) pte, role', k', returned,
    ⟨among.tables.store placed, among.root, among.placed, among.sources⟩,
    ⟨grown.pages, grown.upper⟩, const, pointer, fun gpa' j e low' deep he => full gpa' j e low' deep ?_,
    fun r hr => (kept r hr).trans (stored r hr),
    maps.store among member low hg alone allows frame⟩
  exact ((stored _ member).entry gpa' j deep).symm.trans he

omit full one in
theorem Maps.getPte_frame (present : getPte s X gpa ≠ 0) :
    pageFrameNumber (getPte s X gpa) = pageOf gpa := by
  have shaped := a.tables.shaped
  have info : getPte s X gpa = (entryAt s.mem X.eptPml4 gpa 3).getD 0 :=
    shaped.getPageTableInfo a.root low.pml4Index (Nat.le_refl 3)
  obtain ⟨e0, e1, e2, h0, h1, h2⟩ := shaped.entries a.root low
  cases h3 : entryAt s.mem X.eptPml4 gpa 3 with
  | none =>
      rw [info, h3] at present
      exact absurd rfl present
  | some e =>
      have mapped := h.leaf gpa low
      obtain ⟨p0, p1, p2, p3⟩ := h.present a low h0 h1 h2
      have p3 := p3 e h3
      rw [shaped.translation_eq a.root low h0 h1 h2, h3] at mapped
      simp only [leafOf, p0, p1, p2, p3, or_self, if_false, Option.map_some] at mapped
      rw [info, h3, Option.getD_some]
      exact (Prod.mk.inj (Option.some.inj mapped)).1

theorem Maps.setPteAccess (allowed : Access) (allows : allowed ≠ .none) (enough : 6 ≤ fuel) :
    Died (setPteAccess P fuel X gpa allowed s) s (k + 4) ∨ ∃ s' role' k',
      setPteAccess P fuel X gpa allowed s = .ok (true, s') ∧
      Updated P X others s k perm own (pageOf gpa) allowed s' role' k' := by
  have call : ∀ e t, (t = s ∨ t = s.latch) → pageFrameNumber e = pageOf gpa →
      Died (Ept.setPte P fuel X gpa (setAccess e allowed) t) s (k + 4) ∨ ∃ s' role' k',
        Ept.setPte P fuel X gpa (setAccess e allowed) t = .ok (true, s') ∧
        Updated P X others s k perm own (pageOf gpa) allowed s' role' k' := by
    intro e t start frame
    have allows' : access (setAccess e allowed) ≠ .none := by
      rw [access_setAccess]
      exact allows
    have frame' : pageFrameNumber (setAccess e allowed) = pageOf gpa := by
      rw [pageFrameNumber_setAccess]
      exact frame
    rcases start with rfl | rfl
    · have result := h.setPte full a one low allows' frame' enough
      rw [access_setAccess] at result
      exact result
    · have result := (h.congr (t := s.latch) rfl rfl).setPte full
          ⟨a.tables.latch, a.root, a.placed, a.sources⟩ one low allows' frame' enough
      rw [access_setAccess] at result
      rcases result with died | ⟨s', role', k', done, u⟩
      · exact .inl died
      · exact .inr ⟨s', role', k', done, u.among, ⟨u.grown.pages, u.grown.upper⟩, u.const,
          u.pointer, u.full, u.kept, u.maps⟩
  rw [Ept.setPteAccess]
  by_cases absent : getPte s X gpa = 0
  · simp only [if_pos absent]
    exact call _ _ (.inr rfl) (by rw [pageFrameNumber_setMemoryType,
      pageFrameNumber_setPageFrameNumber, pageOf])
  · simp only [if_neg absent]
    exact call _ _ (.inl rfl) (h.getPte_frame a low absent)

omit full one in
theorem Maps.getPte_own (owned : own (pageOf gpa)) : ∃ g, tableAt s.mem X.eptPml4 gpa 3 = some g ∧
    getPte s X gpa = s.mem g (ptIndex gpa) ∧ access (s.mem g (ptIndex gpa)) = perm (pageOf gpa) ∧
    access (s.mem g (ptIndex gpa)) ≠ .none ∧
    ∀ n e, n ≤ 2 → entryAt s.mem X.eptPml4 gpa n = some e → access e = .full := by
  have shaped := a.tables.shaped
  obtain ⟨⟨g, hg⟩, apart⟩ := h.private_ gpa low owned
  obtain ⟨e0, e1, e2, h0, h1, h2⟩ := shaped.entries a.root low
  have h3 := entryAt_eq hg
  have above : ∀ n e, n ≤ 2 → entryAt s.mem X.eptPml4 gpa n = some e → access e = .full :=
    fun n e upper he => h.above_full hg apart low rfl upper he
  have full0 := above 0 e0 (by omega) h0
  have full1 := above 1 e1 (by omega) h1
  have full2 := above 2 e2 (by omega) h2
  have fullPresent : Access.full ≠ .none := by decide
  have present := (h.present a low h0 h1 h2).2.2.2 _ h3
  have mapped := h.leaf gpa low
  rw [shaped.translation_eq a.root low h0 h1 h2, h3] at mapped
  simp only [leafOf, full0, full1, full2, fullPresent, present, or_self, if_false, Option.map_some,
    Access.full_meet] at mapped
  refine ⟨g, hg, ?_, (Prod.mk.inj (Option.some.inj mapped)).2, present, above⟩
  rw [getPte, shaped.getPageTableInfo a.root low.pml4Index (Nat.le_refl 3), h3, Option.getD_some]
  rfl

omit full in
/-- set_pte for a page of its own writes the entry of the page and nothing else. -/
theorem Maps.setPteAccess_own (allowed : Access) (owned : own (pageOf gpa)) (enough : 6 ≤ fuel) :
    ∃ g, tableAt s.mem X.eptPml4 gpa 3 = some g ∧
      access (s.mem g (ptIndex gpa)) = perm (pageOf gpa) ∧
      (∀ n e, n ≤ 2 → entryAt s.mem X.eptPml4 gpa n = some e → access e = .full) ∧
      Ept.setPteAccess P fuel X gpa allowed s =
        .ok (true, s.store g (ptIndex gpa) (setAccess (s.mem g (ptIndex gpa)) allowed)) := by
  obtain ⟨more, rfl⟩ : ∃ more, fuel = more + 2 := ⟨fuel - 2, by omega⟩
  have shaped := a.tables.shaped
  obtain ⟨g, hg, pte, before, present, above⟩ := h.getPte_own a low owned
  have apart := (h.private_ gpa low owned).2
  have nonzero : s.mem g (ptIndex gpa) ≠ 0 := by
    intro zero
    rw [zero] at present
    exact present access_zero
  have direct : (needRemap s X gpa).1 = 0 := by
    cases needs : (needRemap s X gpa).1 with
    | zero => rfl
    | succ n =>
        obtain ⟨upper, pre, t, post, split, -, -, -, shares, -⟩ := a.needs_spec low.pml4Index needs
        have member : t ∈ X.sources s.constEpt := by simp [split]
        rw [one, List.mem_singleton] at member
        rw [member] at shares
        exact absurd (shares.mono (by omega) hg) apart
  obtain ⟨f, hf⟩ := tableAt_le (show 2 ≤ 3 by omega) hg
  have full2 := above 2 _ (Nat.le_refl 2) (entryAt_eq hf)
  have fullPresent : Access.full ≠ .none := by decide
  obtain ⟨small, below⟩ := child_tableAt hf (by rw [hg]; exact Option.some_ne_none g)
  rw [hg] at below
  refine ⟨g, hg, before, above, ?_⟩
  simp only [Ept.setPteAccess, pte, if_neg nonzero]
  rw [setPte_direct _ _ direct, setPte_table shaped a.root low.pml4Index hf (by rw [full2]; exact fullPresent) small,
    ← Option.some.inj below]

omit full in
theorem Maps.setPteAccess_again (allowed : Access) (owned : own (pageOf gpa))
    (same : perm (pageOf gpa) = allowed) (enough : 6 ≤ fuel) :
    Ept.setPteAccess P fuel X gpa allowed s = .ok (true, s) := by
  obtain ⟨g, hg, before, -, done⟩ := h.setPteAccess_own a one low allowed owned enough
  have kept : s.store g (ptIndex gpa) (s.mem g (ptIndex gpa)) = s := by
    simp only [Machine.store, Function.update_eq_self]
  rw [done, ← same, ← before, setAccess_access, kept]

end SetPte

end LMalz.Ept
