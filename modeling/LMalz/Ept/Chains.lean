import LMalz.Ept.CopyOnWrite

/- set_pte on an object of any history: the recursion goes along the objects that were copied, and
for each of them down the levels. -/
namespace LMalz.Ept

/-- An object among other roots, with a top table that no object it was copied from uses. -/
structure Chained (P : Platform) (X : EptCls) (others : List Frame) (s : Machine)
    (role : Frame → Option (List Index)) (k : Nat) : Prop extends Among P X others s role k where
  distinct : ∀ r ∈ X.sources s.constEpt, r ≠ X.eptPml4

section Chains
variable {P : Platform} {X : EptCls} {others : List Frame} {gpa : BitVec 64} {s : Machine}
  {role : Frame → Option (List Index)} {k n : Nat} {f r : Frame}

/-- Two roots that share no table down to the level. -/
def ApartTo (m : Memory) (x r : Frame) (gpa : BitVec 64) (n : Nat) : Prop :=
  ∀ j, j ≤ n → ¬ Shares m x r gpa j

theorem ApartTo.mono {m : Memory} {x r : Frame} {n j : Nat} (h : ApartTo m x r gpa n) (le : j ≤ n) :
    ApartTo m x r gpa j :=
  fun i below => h i (by omega)

theorem Chained.apart_top (x : Chained P X others s role k) (hr : r ∈ X.sources s.constEpt) :
    ¬ Shares s.mem X.eptPml4 r gpa 0 := by
  rintro ⟨g, left, right⟩
  exact x.distinct r hr (Option.some.inj (right.trans left.symm))

/-- What need_remap finds: nothing is shared with the objects before, and with this one nothing
down to the entry. -/
theorem Chained.needs_spec (x : Chained P X others s role k) (low : pml4Index gpa = 0)
    (needs : (needRemap s X gpa).1 = n + 1) :
    n ≤ 2 ∧ ∃ pre t post, X.sources s.constEpt = pre ++ t :: post ∧
      (∀ u ∈ pre, ApartTo s.mem X.eptPml4 u gpa 3) ∧ Shares s.mem X.eptPml4 t gpa (n + 1) ∧
      ApartTo s.mem X.eptPml4 t gpa n := by
  obtain ⟨upper, pre, t, post, split, -, before, -, shares, above⟩ := x.toAmong.needs_spec low needs
  refine ⟨upper, pre, t, post, split, fun u hu j deep => ?_, shares, fun j deep => ?_⟩
  · by_cases top : j = 0
    · rw [top]
      exact x.apart_top (by simp [split, hu])
    · exact before u hu j (by omega) deep
  · by_cases top : j = 0
    · rw [top]
      exact x.apart_top (by simp [split])
    · exact above j (by omega) deep

theorem Chained.unshared (x : Chained P X others s role k) (low : pml4Index gpa = 0)
    (needs : (needRemap s X gpa).1 = 0) (hr : r ∈ X.sources s.constEpt) :
    ApartTo s.mem X.eptPml4 r gpa 3 := by
  intro j deep
  by_cases top : j = 0
  · rw [top]
    exact x.apart_top hr
  · exact x.toAmong.unshared low needs hr j (by omega) deep

theorem Among.needs_zero (x : Among P X others s role k) (low : pml4Index gpa = 0)
    (apart : ∀ r ∈ X.sources s.constEpt, ApartTo s.mem X.eptPml4 r gpa 3) :
    (needRemap s X gpa).1 = 0 := by
  cases needs : (needRemap s X gpa).1 with
  | zero => rfl
  | succ n =>
      obtain ⟨upper, pre, t, post, split, -, -, -, shares, -⟩ := x.needs_spec low needs
      exact absurd shares (apart t (by simp [split]) (n + 1) (by omega))

section Remap
variable (x : Chained P X others s role k) (low : pml4Index gpa = 0) (room : k < poolPages)
  (needs : (needRemap s X gpa).1 = n + 1) (hf : tableAt s.mem X.eptPml4 gpa n = some f)
include x low room needs hf

theorem Chained.remap : Chained P X others (s.remap P k gpa n f)
    (roleOfNew P role k (place gpa (n + 1))) (k + 1) :=
  ⟨x.toAmong.remap low room needs hf, x.distinct⟩

/-- What was shared with a root that does not find the changed entry is shared below the new table
at most. -/
theorem Chained.remap_apart {j : Nat} (hr : role r = some []) (deep : n ≤ j) (bound : j ≤ 3)
    (apart : ApartTo s.mem X.eptPml4 r gpa j) :
    ApartTo (s.remap P k gpa n f).mem X.eptPml4 r gpa (max j (n + 1)) := by
  obtain ⟨upper, lower⟩ := x.toAmong.remap_shares low room needs hf hr (apart n deep)
  intro i le
  by_cases near : i ≤ n + 1
  · exact upper i near
  · exact fun shares => apart i (by omega) ((lower i (by omega) (by omega)).mp shares)

end Remap

section Split
variable (x : Chained P X others s role k) (low : pml4Index gpa = 0) (room : k < poolPages)
  (hf : tableAt s.mem X.eptPml4 gpa 2 = some f) (demo : Entry)
include x room hf

theorem Chained.split : Chained P X others (s.split P k gpa f demo)
    (roleOfNew P role k (place gpa 3)) (k + 1) :=
  ⟨(x.toAmong.split room hf demo).1, x.distinct⟩

theorem Chained.split_apart (hr : role r = some []) (apart : ApartTo s.mem X.eptPml4 r gpa 2) :
    ApartTo (s.split P k gpa f demo).mem X.eptPml4 r gpa 3 := by
  obtain ⟨kept, last⟩ := x.toAmong.split_kept room hf demo hr (apart 2 (Nat.le_refl 2))
  intro j deep
  by_cases leaf : j = 3
  · rw [leaf]
    exact last
  · rw [Shares, split_tableAt x.tables room x.root hf demo deep,
      if_neg fun same => leaf (place_level same), kept.table gpa j deep]
    exact apart j (by omega)

include low

theorem Chained.split_written
    (apart : ∀ r ∈ X.sources s.constEpt, ApartTo s.mem X.eptPml4 r gpa 3) :
    written (s.split P k gpa f demo) X gpa = 3 := by
  have after := x.split room hf demo
  have needs : (needRemap (s.split P k gpa f demo) X gpa).1 = 0 :=
    after.toAmong.needs_zero low fun r hr =>
      x.split_apart room hf demo (x.placed r (x.sources r hr)) ((apart r hr).mono (by omega))
  have kept : tableAt (s.split P k gpa f demo).mem X.eptPml4 gpa 2 = some f := by
    rw [split_tableAt x.tables room x.root hf demo (by omega),
      if_neg fun same => absurd (place_level same) (by omega), hf]
  have entry : (s.split P k gpa f demo).mem f (indexAt gpa 2) = tableEntry (P.page k) :=
    PageTree.graft_entry
  rw [after.written_leaf low needs kept, entry, access_tableEntry, largePage_tableEntry]
  rfl

end Split

/-- The end of the recursion: the entry goes into a table that no object of the chain shares. -/
structure Reached (P : Platform) (X : EptCls) (others : List Frame) (gpa : BitVec 64) (s : Machine)
    (role : Frame → Option (List Index)) (k : Nat) (g : Frame) : Prop
    extends Chained P X others s role k where
  level : written s X gpa = 3
  table : tableAt s.mem X.eptPml4 gpa 3 = some g

theorem Reached.needs_zero (h : Reached P X others gpa s role k f) (low : pml4Index gpa = 0) :
    (needRemap s X gpa).1 = 0 := by
  have level := h.level
  cases needs : (needRemap s X gpa).1 with
  | zero => rfl
  | succ n =>
      rw [written_remap needs] at level
      have upper := (h.needs_spec low needs).1
      omega

theorem Chained.setPte_last (x : Chained P X others s role k) (low : pml4Index gpa = 0)
    (needs : (needRemap s X gpa).1 = 0) (hf : tableAt s.mem X.eptPml4 gpa 2 = some f) (pte : Entry)
    (fuel : Nat) : alVmxEptSetPte P fuel gpa pte X.eptPml4 s = .outOfFuel ∨
      Died (alVmxEptSetPte P fuel gpa pte X.eptPml4 s) s (k + 1) ∨
      (∃ g, Reached P X others gpa s role k g ∧
        alVmxEptSetPte P fuel gpa pte X.eptPml4 s = .ok (true, s.store g (ptIndex gpa) pte)) ∨
      ∃ demo, k < poolPages ∧
        (access (s.mem f (indexAt gpa 2)) = .none ∨ largePage (s.mem f (indexAt gpa 2)) = true) ∧
        (access (s.mem f (indexAt gpa 2)) ≠ .none →
          access demo = access (s.mem f (indexAt gpa 2))) ∧
        (access (s.mem f (indexAt gpa 2)) = .none → demo = pte) ∧
        alVmxEptSetPte P fuel gpa pte X.eptPml4 s =
          .ok (true, (s.split P k gpa f demo).store (P.page k) (ptIndex gpa) pte) := by
  match fuel with
  | 0 => exact .inl rfl
  | fuel + 1 =>
    by_cases large : access (s.mem f (indexAt gpa 2)) = .none ∨
        largePage (s.mem f (indexAt gpa 2)) = true
    · match fuel with
      | 0 =>
          rcases setPte_split_short x.tables x.root low hf pte large with stops | died
          · exact .inl stops
          · exact .inr (.inl died)
      | more + 1 =>
          obtain ⟨demo, same, absent, died | ⟨room, done⟩⟩ :=
            setPte_split x.tables x.root low hf pte more large
          · exact .inr (.inl died)
          · exact .inr (.inr (.inr ⟨demo, room, large, same, absent, done⟩))
    · have level := (x.written_leaf low needs hf).trans (if_neg large)
      rw [not_or, Bool.not_eq_true] at large
      exact .inr (.inr (.inl ⟨_, ⟨x, level, x.tables.shaped.pageTable x.root low hf large.2⟩,
        setPte_table x.tables.shaped x.root low hf large.1 large.2⟩))

/-- What the remaps and the split of a call keep. -/
structure Keeps (P : Platform) (X : EptCls) (others : List Frame) (gpa : BitVec 64) (pte : Entry)
    (Inv : Machine → (Frame → Option (List Index)) → Prop) : Prop where
  remap : ∀ s role k n f, Chained P X others s role k → k < poolPages →
    (needRemap s X gpa).1 = n + 1 → tableAt s.mem X.eptPml4 gpa n = some f → Inv s role →
    Inv (s.remap P k gpa n f) (roleOfNew P role k (place gpa (n + 1)))
  split : ∀ s role k f demo, Chained P X others s role k → k < poolPages →
    (needRemap s X gpa).1 = 0 → tableAt s.mem X.eptPml4 gpa 2 = some f →
    (access (s.mem f (indexAt gpa 2)) = .none ∨ largePage (s.mem f (indexAt gpa 2)) = true) →
    (access (s.mem f (indexAt gpa 2)) ≠ .none → access demo = access (s.mem f (indexAt gpa 2))) →
    (access (s.mem f (indexAt gpa 2)) = .none → demo = pte) → Inv s role →
    Inv (s.split P k gpa f demo) (roleOfNew P role k (place gpa 3))

/-- The next shared table belongs to a later object than the last one, or is further down. -/
theorem Chained.needs_next (x : Chained P X others s role k) (low : pml4Index gpa = 0)
    {pre rest : List Frame} {level : Nat} (needs : (needRemap s X gpa).1 = n + 1)
    (chain : X.sources s.constEpt = pre ++ rest)
    (before : ∀ u ∈ pre, ApartTo s.mem X.eptPml4 u gpa 3)
    (first : ∀ t ∈ rest.head?, ApartTo s.mem X.eptPml4 t gpa level) :
    ∃ mid t post, rest = mid ++ t :: post ∧ ApartTo s.mem X.eptPml4 t gpa n ∧
      (∀ u ∈ pre ++ mid, ApartTo s.mem X.eptPml4 u gpa 3) ∧
      (mid = [] → level ≤ n) := by
  obtain ⟨upper, pre', t, post, found, before', shares, above⟩ := x.needs_spec low needs
  obtain ⟨mid, rfl, rfl⟩ : ∃ mid, pre' = pre ++ mid ∧ rest = mid ++ t :: post := by
    rcases List.append_eq_append_iff.mp (chain.symm.trans found) with
      ⟨mid, left, right⟩ | ⟨mid, left, right⟩
    · exact ⟨mid, left, right⟩
    · cases mid with
      | nil => exact ⟨[], by simpa using left.symm, by simpa using right.symm⟩
      | cons u mid =>
          obtain rfl : t = u := (List.cons.inj right).1
          exact absurd shares (before t (by simp [left]) (n + 1) (by omega))
  refine ⟨mid, t, post, rfl, above, before', ?_⟩
  rintro rfl
  by_contra beyond
  exact first t rfl (n + 1) (by omega) shares

/-- Whatever the remaps and the split of a call keep holds when the entry is written. Three remaps
for each object of the chain and one split are enough. -/
theorem Chained.setPte_outcome {Inv : Machine → (Frame → Option (List Index)) → Prop} {pte : Entry}
    (keeps : Keeps P X others gpa pte Inv) (fuel : Nat) (low : pml4Index gpa = 0)
    (x : Chained P X others s role k) (inv : Inv s role) :
    setPte P fuel X gpa pte s = .outOfFuel ∨
      Died (setPte P fuel X gpa pte s) s (k + (3 * (X.sources s.constEpt).length + 1)) ∨
      ∃ s' role' k' g, Reached P X others gpa s' role' k' g ∧ Inv s' role' ∧
        Grown s k s' k' (3 * (X.sources s.constEpt).length + 1) ∧
        setPte P fuel X gpa pte s = .ok (true, s'.store g (ptIndex gpa) pte) := by
  -- the objects before `rest` share nothing any more, and the first of `rest` nothing down to `level`
  suffices chain : ∀ pre rest level, X.sources s.constEpt = pre ++ rest → level ≤ 3 →
      level ≤ 3 * rest.length → (∀ u ∈ pre, ApartTo s.mem X.eptPml4 u gpa 3) →
      (∀ t ∈ rest.head?, ApartTo s.mem X.eptPml4 t gpa level) →
      setPte P fuel X gpa pte s = .outOfFuel ∨
        Died (setPte P fuel X gpa pte s) s (k + (3 * rest.length - level + 1)) ∨
        ∃ s' role' k' g, Reached P X others gpa s' role' k' g ∧ Inv s' role' ∧
          Grown s k s' k' (3 * rest.length - level + 1) ∧
          setPte P fuel X gpa pte s = .ok (true, s'.store g (ptIndex gpa) pte) by
    refine chain [] (X.sources s.constEpt) 0 rfl (by omega) (by omega) (by simp) fun t ht j top => ?_
    obtain rfl : j = 0 := by omega
    exact x.apart_top (List.mem_of_mem_head? ht)
  induction fuel generalizing s role k with
  | zero =>
      intro pre rest level split' bound more before first
      exact .inl rfl
  | succ fuel ih =>
      intro pre rest level split' bound more before first
      cases needs : (needRemap s X gpa).1 with
      | succ n =>
          obtain ⟨upper, -⟩ := x.needs_spec low needs
          obtain ⟨mid, t, post, rfl, above, before', further⟩ :=
            x.needs_next low needs split' before first
          have found : X.sources s.constEpt = (pre ++ mid) ++ t :: post := by simp [split']
          obtain ⟨f, hf⟩ := x.tables.shaped.upperTable x.root low upper
          have shorter : 3 * (t :: post).length - (n + 1) + 1 ≤
              3 * (mid ++ t :: post).length - level := by
            cases mid with
            | nil =>
                have below := further rfl
                simp only [List.nil_append, List.length_cons]
                omega
            | cons u mid =>
                simp only [List.length_append, List.length_cons]
                omega
          rcases x.setPte_call low needs hf pte fuel with died | ⟨room, call⟩
          · exact .inr (.inl (died.mono (by omega) rfl))
          · have member : ∀ {u}, u ∈ X.sources s.constEpt → role u = some [] :=
              fun hu => x.placed _ (x.sources _ hu)
            have earlier : ∀ u ∈ pre ++ mid, ApartTo (s.remap P k gpa n f).mem X.eptPml4 u gpa 3 :=
              fun u hu => (x.remap_apart low room needs hf
                (member (by rw [found]; exact List.mem_append_left _ hu)) (by omega) (Nat.le_refl 3)
                (before' u hu)).mono (by omega)
            have here : ∀ u ∈ (t :: post).head?,
                ApartTo (s.remap P k gpa n f).mem X.eptPml4 u gpa (n + 1) := by
              intro u hu
              obtain rfl : t = u := by simpa using hu
              exact (x.remap_apart low room needs hf (member (by simp [found])) (Nat.le_refl n)
                (by omega) above).mono (by omega)
            rw [call]
            rcases ih (x.remap low room needs hf) (keeps.remap s role k n f x room needs hf inv) (pre ++ mid)
                (t :: post) (n + 1) found (by omega) (by simp only [List.length_cons]; omega)
                earlier here with
              stops | died | ⟨s', role', k', g, reached, inv', grown, done⟩
            · exact .inl stops
            · exact .inr (.inl (died.mono (by omega) rfl))
            · exact .inr (.inr ⟨s', role', k', g, reached, inv',
                ⟨by have := grown.pages; omega, grown.upper⟩, done⟩)
      | zero =>
          obtain ⟨f, hf⟩ := x.tables.shaped.upperTable x.root low (Nat.le_refl 2)
          rw [setPte_direct pte fuel needs]
          rcases x.setPte_last low needs hf pte fuel with
            stops | died | ⟨g, reached, done⟩ | ⟨demo, room, large, same, absent, done⟩
          · exact .inl stops
          · exact .inr (.inl (died.mono (by omega) rfl))
          · exact .inr (.inr ⟨s, role, k, g, reached, inv, ⟨by omega, rfl⟩, done⟩)
          · have apart : ∀ r ∈ X.sources s.constEpt, ApartTo s.mem X.eptPml4 r gpa 3 :=
              fun r hr => x.unshared low needs hr
            refine .inr (.inr ⟨_, _, _, _, ⟨x.split room hf demo,
              x.split_written low room hf demo apart, (x.toAmong.split room hf demo).2⟩,
              keeps.split s role k f demo x room needs hf large same absent inv, ⟨by omega, rfl⟩, done⟩)

theorem Chained.setPte_done {Inv : Machine → (Frame → Option (List Index)) → Prop} {pte : Entry}
    {fuel : Nat} {b : Bool} {s' : Machine} (keeps : Keeps P X others gpa pte Inv)
    (low : pml4Index gpa = 0) (x : Chained P X others s role k) (inv : Inv s role)
    (done : setPte P fuel X gpa pte s = .ok (b, s')) :
    ∃ t role' k' g, Reached P X others gpa t role' k' g ∧ Inv t role' ∧
      b = true ∧ s' = t.store g (ptIndex gpa) pte := by
  rcases x.setPte_outcome keeps fuel low inv with
    stops | died | ⟨t, role', k', g, reached, after, -, returned⟩
  · rw [stops] at done
    cases done
  · rw [died.1] at done
    cases done
  · rw [returned] at done
    cases done
    exact ⟨t, role', k', g, reached, after, rfl, rfl⟩

theorem Reached.store {g : Frame} (h : Reached P X others gpa s role k g) (pte : Entry) :
    Chained P X others (s.store g (ptIndex gpa) pte) role k :=
  ⟨⟨h.tables.store (h.tables.shaped.role_tableAt h.root (Nat.le_refl 3) h.table), h.root, h.placed,
    h.sources⟩, h.distinct⟩

theorem Reached.getPte {g : Frame} (h : Reached P X others gpa s role k g) (low : pml4Index gpa = 0)
    (pte : Entry) : getPte (s.store g (ptIndex gpa) pte) X gpa = pte := by
  have placed := h.tables.shaped.role_tableAt h.root (Nat.le_refl 3) h.table
  rw [Ept.getPte, (h.store pte).tables.shaped.getPageTableInfo h.root low (Nat.le_refl 3),
    store_entryAt h.tables h.root placed (Nat.le_refl 3), if_pos ⟨h.table, rfl⟩]
  rfl

section High
variable (high : pml4Index gpa ≠ 0)
include high

theorem Shaped.lookup_high (h : Shaped role s.mem) (hr : role r = some []) (layer : Nat) :
    alVmxEptPageTableInfo s.mem gpa layer r = none := by
  have absent : pageFrameNumber (s.mem r (pml4Index gpa)) = 0 := by
    rw [h.upper r _ hr high]
    exact pageFrameNumber_zero
  simp only [alVmxEptPageTableInfo, absent, if_true, ite_self]

theorem Among.needRemap_high (x : Among P X others s role k) : needRemap s X gpa = (1, 0) := by
  have shaped := x.tables.shaped
  have found : ∀ t ∈ X.sources s.constEpt, needRemapOf s.mem X.eptPml4 t gpa = (1, 0) := by
    intro t ht
    have missing : ∀ r layer, role r = some [] → alVmxEptGetPageTableInfo s.mem gpa layer r = 0 := by
      intro r layer hr
      rw [alVmxEptGetPageTableInfo, shaped.lookup_high high hr layer]
    rw [needRemapOf, missing _ 1 x.root, missing _ 1 (x.placed t (x.sources t ht))]
    exact if_pos rfl
  obtain ⟨t, ts, split⟩ : ∃ t ts, X.sources s.constEpt = t :: ts := by
    cases X with
    | root p v => exact ⟨_, [], rfl⟩
    | cloneOf p v c => exact ⟨_, _, rfl⟩
  rw [needRemap, split, needRemapLoop, found t (by rw [split]; exact List.mem_cons_self)]
  exact if_pos (by decide)

/-- Two absent entries compare equal, and no entry can be written: set_pte starts again, with one
page less each time. -/
theorem Among.setPte_high (x : Among P X others s role k) (pte : Entry) (fuel : Nat) :
    setPte P fuel X gpa pte s = .outOfFuel ∨ setPte P fuel X gpa pte s = .killed := by
  induction fuel generalizing s role k with
  | zero => exact .inl rfl
  | succ fuel ih =>
      have shaped := x.tables.shaped
      rw [setPte, x.needRemap_high high]
      simp only [Nat.one_ne_zero, if_false, clonePageTable]
      rcases x.tables.allocate with died | ⟨room, took⟩
      · simp [died.1]
      · have unplaced := x.tables.unplaced (Nat.le_refl k) room
        have missing : alVmxEptGetPageTableInfo s.mem gpa 1 X.eptPml4 = 0 := by
          rw [alVmxEptGetPageTableInfo, shaped.lookup_high high x.root 1]
        have inner : ¬ (1 < 1 ∨ 3 < 1) := by omega
        have lost : ∀ page, Among P X others ((s.withPages (k + 1)).fill (P.page k) page) role
            (k + 1) := by
          intro page
          refine ⟨⟨shaped.fill unplaced, room, rfl, x.tables.top, fun f placed => ?_,
            fun i later inside a => ?_⟩, x.root, x.placed, x.sources⟩
          · obtain ⟨i, below, same⟩ := x.tables.owned f placed
            exact ⟨i, by omega, same⟩
          · have other : P.page i ≠ P.page k := P.page_ne inside room (by omega)
            exact (congrFun (Function.update_of_ne other _ _) a).trans
              (x.tables.fresh i (by omega) inside a)
        have unwritten : ∀ page v, alVmxEptSetPageTableInfo gpa 1 v X.eptPml4
            ((s.withPages (k + 1)).fill (P.page k) page) =
              (false, (s.withPages (k + 1)).fill (P.page k) page) := by
          intro page v
          rw [alVmxEptSetPageTableInfo, (lost page).tables.shaped.lookup_high high x.root 1]
        have noLeaf : ¬ ((1 : Nat) = 3 ∧ largePage 0 = true) := by omega
        simp only [Machine.withPages, Machine.fill] at unwritten
        simp only [if_neg inner, took, Outcome.ok_bind, Machine.withPages, missing, if_neg noLeaf,
          if_neg (P.nonzero k room), Outcome.pure_eq, Machine.fill, Function.update_self,
          Function.update_idem, pageFrameNumber_setPageFrameNumber, unwritten]
        exact ih (lost _)

end High

end Chains

end LMalz.Ept
