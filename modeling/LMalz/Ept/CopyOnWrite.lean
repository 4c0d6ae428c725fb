import LMalz.Ept.SetPte

/- set_pte on tables of which the first one written is not used by any other object: every
table written later is not used by another object either. -/
namespace LMalz.Ept

/-- The level of the table that set_pte writes first. -/
def written (s : Machine) (X : EptCls) (gpa : BitVec 64) : Nat :=
  match (needRemap s X gpa).1 with
  | n + 1 => n
  | 0 =>
      let pde := alVmxEptGetPageTableInfo s.mem gpa 3 X.eptPml4
      if access pde = .none ∨ largePage pde then 2 else 3

/-- An object among other roots, those of its clone chain included. -/
structure Among (P : Platform) (X : EptCls) (others : List Frame) (s : Machine)
    (role : Frame → Option (List Index)) (k : Nat) : Prop where
  tables : Tables P s role k
  root : role X.eptPml4 = some []
  placed : ∀ r ∈ others, role r = some []
  sources : ∀ r ∈ X.sources s.constEpt, r ∈ others

/-- The first table that set_pte writes is on the way of no other root. -/
structure Alone (P : Platform) (X : EptCls) (others : List Frame) (gpa : BitVec 64) (s : Machine)
    (role : Frame → Option (List Index)) (k : Nat) : Prop extends Among P X others s role k where
  apart : ∀ r ∈ others, ¬ Shares s.mem X.eptPml4 r gpa (written s X gpa)

section CopyOnWrite
variable {P : Platform} {X : EptCls} {others : List Frame} {gpa gpa' : BitVec 64} {s : Machine}
  {role : Frame → Option (List Index)} {k n j : Nat} {f r : Frame}

theorem roleOfNew_kept (h : Tables P s role k) (room : k < poolPages) {is js : List Index}
    (hr : role r = some is) : roleOfNew P role k js r = some is := by
  refine (Function.update_of_ne ?_ _ _).trans hr
  rintro rfl
  rw [h.unplaced (Nat.le_refl k) room] at hr
  cases hr

theorem written_remap (needs : (needRemap s X gpa).1 = n + 1) : written s X gpa = n := by
  rw [written, needs]

theorem Among.needs_spec (a : Among P X others s role k) (low : pml4Index gpa = 0)
    (needs : (needRemap s X gpa).1 = n + 1) :
    n ≤ 2 ∧ ∃ pre t post, X.sources s.constEpt = pre ++ t :: post ∧
      (needRemap s X gpa).2 = (entryAt s.mem X.eptPml4 gpa n).getD 0 ∧
      (∀ u ∈ pre, ∀ k, 1 ≤ k → k ≤ 3 → ¬ Shares s.mem X.eptPml4 u gpa k) ∧
      t ∈ others ∧ Shares s.mem X.eptPml4 t gpa (n + 1) ∧
      ∀ k, 1 ≤ k → k ≤ n → ¬ Shares s.mem X.eptPml4 t gpa k := by
  rcases a.tables.shaped.needRemapLoop a.root low fun t ht => a.placed t (a.sources t ht) with
    ⟨none, -⟩ | ⟨i, e, pre, t, post, eq, upper, he, split, before, shares, above⟩
  · rw [needRemap, none] at needs
    cases needs
  · have eq : needRemap s X gpa = (i + 1, e) := eq
    rw [eq] at needs ⊢
    obtain rfl : i = n := Nat.succ.inj needs
    exact ⟨upper, pre, t, post, split, by rw [he, Option.getD_some], before,
      a.sources t (by simp [split]), shares, above⟩

theorem Among.unshared (a : Among P X others s role k) (low : pml4Index gpa = 0)
    (needs : (needRemap s X gpa).1 = 0) {t : Frame} (ht : t ∈ X.sources s.constEpt) :
    ∀ n, 1 ≤ n → n ≤ 3 → ¬ Shares s.mem X.eptPml4 t gpa n := by
  rcases a.tables.shaped.needRemapLoop a.root low fun t ht => a.placed t (a.sources t ht) with
    ⟨-, apart⟩ | ⟨i, e, -, -, -, eq, -⟩
  · exact apart t ht
  · have eq : needRemap s X gpa = (i + 1, e) := eq
    rw [eq] at needs
    cases needs

theorem written_direct (needs : (needRemap s X gpa).1 = 0) :
    written s X gpa = 2 ∨ written s X gpa = 3 := by
  rw [written, needs]
  simp only
  split
  · exact .inl rfl
  · exact .inr rfl

theorem Among.deeper (a : Among P X others s role k) (low : pml4Index gpa = 0)
    (needs : (needRemap s X gpa).1 = n + 1) : tableAt s.mem X.eptPml4 gpa (n + 1) ≠ none := by
  obtain ⟨-, pre, t, post, -, -, -, -, ⟨g, hg, -⟩, -⟩ := a.needs_spec low needs
  rw [hg]
  exact Option.some_ne_none g

/-- A call that finds a shared table takes a page for the copy and starts again. -/
theorem Among.setPte_call (a : Among P X others s role k) (low : pml4Index gpa = 0)
    (needs : (needRemap s X gpa).1 = n + 1) (hf : tableAt s.mem X.eptPml4 gpa n = some f)
    (pte : Entry) (fuel : Nat) : Died (setPte P (fuel + 1) X gpa pte s) s (k + 1) ∨
      k < poolPages ∧ setPte P (fuel + 1) X gpa pte s =
        setPte P fuel X gpa pte (s.remap P k gpa n f) := by
  obtain ⟨upper, -, -, -, -, he, -⟩ := a.needs_spec low needs
  have pair : needRemap s X gpa = (n + 1, s.mem f (indexAt gpa n)) := by
    rw [entryAt_eq hf, Option.getD_some] at he
    rw [← needs, ← he]
  have call := setPte_remap pte fuel a.tables a.root low pair upper hf (entryAt_eq hf)
    (a.deeper low needs)
  rcases a.tables.allocate with died | ⟨room, took⟩
  · exact .inl ⟨call.1 died.1, died.2⟩
  · exact .inr ⟨room, call.2 room took⟩

/-- Where nothing is shared, the pde decides which table is written first. -/
theorem Among.written_leaf (a : Among P X others s role k) (low : pml4Index gpa = 0)
    (needs : (needRemap s X gpa).1 = 0) (hf : tableAt s.mem X.eptPml4 gpa 2 = some f) :
    written s X gpa = if access (s.mem f (indexAt gpa 2)) = .none ∨
      largePage (s.mem f (indexAt gpa 2)) = true then 2 else 3 := by
  rw [written, needs]
  simp only [lookupPde a.tables.shaped a.root low hf]

theorem Among.table (a : Among P X others s role k) (low : pml4Index gpa = 0) :
    written s X gpa ≤ 3 ∧ ∃ f, tableAt s.mem X.eptPml4 gpa (written s X gpa) = some f := by
  have shaped := a.tables.shaped
  cases needs : (needRemap s X gpa).1 with
  | succ n =>
      rw [written_remap needs]
      obtain ⟨upper, -⟩ := a.needs_spec low needs
      exact ⟨by omega, shaped.upperTable a.root low upper⟩
  | zero =>
      obtain ⟨g, hg⟩ := shaped.upperTable a.root low (Nat.le_refl 2)
      rw [a.written_leaf low needs hg]
      split
      · exact ⟨by omega, g, hg⟩
      · next small =>
          rw [not_or, Bool.not_eq_true] at small
          exact ⟨Nat.le_refl 3, _, shaped.pageTable a.root low hg small.2⟩

namespace Alone

theorem above (a : Alone P X others gpa s role k) (hr : r ∈ others)
    (hf : tableAt s.mem X.eptPml4 gpa (written s X gpa) = some f) (le : j ≤ written s X gpa) :
    ¬ Shares s.mem X.eptPml4 r gpa j :=
  fun shares => a.apart r hr (shares.mono le hf)

theorem apart_table (a : Alone P X others gpa s role k) (needs : (needRemap s X gpa).1 = n + 1)
    (hr : r ∈ others) : ¬ Shares s.mem X.eptPml4 r gpa n := by
  rw [← written_remap needs]
  exact a.apart r hr

theorem distinct (a : Alone P X others gpa s role k) (low : pml4Index gpa = 0) (hr : r ∈ others) :
    r ≠ X.eptPml4 := by
  rintro rfl
  obtain ⟨-, g, hg⟩ := a.table low
  exact a.above hr hg (Nat.zero_le _) ⟨X.eptPml4, rfl, rfl⟩

end Alone

/-- What a root sees after the edit of a table it does not reach. -/
structure Kept (m m' : Memory) (r : Frame) : Prop where
  table : ∀ gpa j, j ≤ 3 → tableAt m' r gpa j = tableAt m r gpa j
  entry : ∀ gpa j, j ≤ 3 → entryAt m' r gpa j = entryAt m r gpa j

theorem Kept.refl (m : Memory) (r : Frame) : Kept m m r := ⟨fun _ _ _ => rfl, fun _ _ _ => rfl⟩

theorem Kept.trans {m m' m'' : Memory} (h : Kept m m' r) (h' : Kept m' m'' r) : Kept m m'' r :=
  ⟨fun gpa j deep => (h'.table gpa j deep).trans (h.table gpa j deep),
    fun gpa j deep => (h'.entry gpa j deep).trans (h.entry gpa j deep)⟩

theorem Tables.hang_kept (h : Tables P s role k) (room : k < poolPages) (hr : role r = some [])
    (hf : role f = some (place gpa n)) (avoid : tableAt s.mem r gpa n ≠ some f) {e : Entry}
    {page : Index → Entry} : Kept s.mem (s.hang P k f (indexAt gpa n) e page).mem r :=
  ⟨fun _ _ deep => hang_tableAt_apart h room hr hf avoid deep,
    fun _ _ deep => hang_entryAt_apart h room hr hf avoid deep⟩

theorem Tables.store_kept (h : Tables P s role k) (hr : role r = some [])
    (hf : role f = some (place gpa 3)) (avoid : tableAt s.mem r gpa 3 ≠ some f) {pte : Entry} :
    Kept s.mem (s.store f (ptIndex gpa) pte).mem r :=
  ⟨fun _ _ deep => store_tableAt h hr hf deep,
    fun _ _ deep => (store_entryAt h hr hf deep).trans (if_neg fun both => avoid both.1)⟩

@[simp] theorem child_setAccess (e : Entry) (a : Access) : child (setAccess e a) = child e := by
  rw [child, child, largePage_setAccess, pageFrameNumber_setAccess]

section Remap
variable (h : Tables P s role k) (room : k < poolPages) (hX : role X.eptPml4 = some [])
  (upper : n ≤ 2) (hf : tableAt s.mem X.eptPml4 gpa n = some f)
  (deeper : tableAt s.mem X.eptPml4 gpa (n + 1) ≠ none)
include h room hX upper hf deeper

theorem remap_tableAt (deep : j ≤ 3) :
    tableAt (s.remap P k gpa n f).mem X.eptPml4 gpa' j =
      if place gpa' j = place gpa (n + 1) then some (P.page k)
      else tableAt s.mem X.eptPml4 gpa' j := by
  obtain ⟨small, shared⟩ := child_tableAt hf deeper
  have hrole := h.shaped.role_tableAt hX (by omega) hf
  refine hang_tableAt h room hX hrole hf (by simpa using small) (by simp) ?_ deep
  intro _ b
  rw [tableAt_succ, entryAt_eq hf, Option.bind_some] at shared
  rw [shared, Option.bind_some, copiedPage, child_setAccess]

theorem remap_entryAt (deep : j ≤ 3) :
    entryAt (s.remap P k gpa n f).mem X.eptPml4 gpa' j =
      if place gpa' (j + 1) = place gpa (n + 1) then
        some (setAccess (setPageFrameNumber (s.mem f (indexAt gpa n)) (P.page k)) .full)
      else if place gpa' j = place gpa (n + 1) then
        some (copiedPage s.mem (s.mem f (indexAt gpa n)) (indexAt gpa' j))
      else entryAt s.mem X.eptPml4 gpa' j := by
  obtain ⟨small, shared⟩ := child_tableAt hf deeper
  have hrole := h.shaped.role_tableAt hX (by omega) hf
  refine hang_entryAt h room hX hrole hf (by simpa using small) (by simp) ?_ deep
  intro _ b
  rw [tableAt_succ, entryAt_eq hf, Option.bind_some] at shared
  rw [shared, Option.bind_some, copiedPage, child_setAccess]

end Remap

section RemapAmong
variable (x : Among P X others s role k) (low : pml4Index gpa = 0) (room : k < poolPages)
  (needs : (needRemap s X gpa).1 = n + 1) (hf : tableAt s.mem X.eptPml4 gpa n = some f)
include x low room needs hf

theorem Among.remap : Among P X others (s.remap P k gpa n f) (roleOfNew P role k (place gpa (n + 1)))
    (k + 1) :=
  ⟨x.tables.remap room x.root low (x.needs_spec low needs).1 hf (x.deeper low needs),
    roleOfNew_kept x.tables room x.root, fun r hr => roleOfNew_kept x.tables room (x.placed r hr),
    x.sources⟩

theorem Among.remap_own (deep : j ≤ 3) : tableAt (s.remap P k gpa n f).mem X.eptPml4 gpa j =
    if j = n + 1 then some (P.page k) else tableAt s.mem X.eptPml4 gpa j := by
  rw [remap_tableAt x.tables room x.root (x.needs_spec low needs).1 hf (x.deeper low needs) deep]
  exact if_congr ⟨place_level, fun same => by rw [same]⟩ rfl rfl

section Apart
variable (hr : role r = some []) (apart : ¬ Shares s.mem X.eptPml4 r gpa n)
include hr apart

/-- A root that does not find the table whose entry changes keeps its view. -/
theorem Among.remap_kept : Kept s.mem (s.remap P k gpa n f).mem r := by
  have upper := (x.needs_spec low needs).1
  exact x.tables.hang_kept room hr (x.tables.shaped.role_tableAt x.root (by omega) hf)
    fun met => apart ⟨f, hf, met⟩

theorem Among.remap_shares : (∀ j, j ≤ n + 1 →
      ¬ Shares (s.remap P k gpa n f).mem X.eptPml4 r gpa j) ∧
    ∀ j, n + 1 < j → j ≤ 3 → (Shares (s.remap P k gpa n f).mem X.eptPml4 r gpa j ↔
      Shares s.mem X.eptPml4 r gpa j) := by
  have upper := (x.needs_spec low needs).1
  have kept := x.remap_kept low room needs hf hr apart
  constructor
  · rintro j le ⟨g, left, right⟩
    rw [x.remap_own low room needs hf (by omega)] at left
    rw [kept.table gpa j (by omega)] at right
    by_cases new : j = n + 1
    · rw [if_pos new] at left
      obtain rfl := Option.some.inj left
      have placed := x.tables.shaped.role_tableAt hr (by omega) right
      rw [x.tables.unplaced (Nat.le_refl k) room] at placed
      cases placed
    · rw [if_neg new] at left
      have shares : Shares s.mem X.eptPml4 r gpa j := ⟨g, left, right⟩
      exact apart (shares.mono (by omega) hf)
  · intro j below deep
    rw [Shares, Shares, x.remap_own low room needs hf deep, kept.table gpa j deep, if_neg (by omega)]

end Apart

/-- The table written next is the new one or lies above it: the object behind which the shared
table was found shares the next one too. -/
theorem Among.remap_written (distinct : ∀ r ∈ X.sources s.constEpt, r ≠ X.eptPml4) :
    written (s.remap P k gpa n f) X gpa ≤ n + 1 := by
  obtain ⟨upper, pre, t, post, split, -, before, ht, shares, above⟩ := x.needs_spec low needs
  have among := x.remap low room needs hf
  have apartTop : ∀ {u}, u ∈ X.sources s.constEpt → ¬ Shares s.mem X.eptPml4 u gpa 0 := by
    rintro u hu ⟨g, left, right⟩
    exact distinct u hu (Option.some.inj (right.trans left.symm))
  obtain ⟨bound, g, hg⟩ := among.table low
  by_contra beyond
  obtain ⟨g', hg'⟩ := tableAt_le (show n + 2 ≤ written (s.remap P k gpa n f) X gpa by omega) hg
  rw [x.remap_own low room needs hf (by omega), if_neg (by omega)] at hg'
  have apart : ∀ {u}, u ∈ X.sources s.constEpt →
      (∀ j, 1 ≤ j → j ≤ n → ¬ Shares s.mem X.eptPml4 u gpa j) → ¬ Shares s.mem X.eptPml4 u gpa n := by
    intro u hu lower
    by_cases top : n = 0
    · rw [top]
      exact apartTop hu
    · exact lower n (by omega) (Nat.le_refl n)
  have member : t ∈ X.sources s.constEpt := by simp [split]
  have next := ((x.remap_shares low room needs hf (x.placed t ht) (apart member above)).2 (n + 2)
    (by omega) (by omega)).mpr (shares.mono (by omega) hg')
  obtain ⟨j, e, eq, le⟩ := among.tables.shaped.needRemapLoop_le among.root low
    (show n + 1 ≤ 2 by omega)
    (fun u hu => among.placed u (x.sources u (by rw [split]; exact hu)))
    (fun u hu j low' high sharesU => by
      have hu' : u ∈ X.sources s.constEpt := by
        rw [split]
        exact List.mem_append_left _ hu
      have kept := x.remap_shares low room needs hf (x.placed u (x.sources u hu'))
        (apart hu' fun j low deep => before u hu j low (by omega))
      by_cases near : j ≤ n + 1
      · exact kept.1 j near sharesU
      · exact before u hu j low' high ((kept.2 j (by omega) high).mp sharesU))
    next
  have found : (needRemap (s.remap P k gpa n f) X gpa).1 = j + 1 := by
    rw [needRemap]
    change (needRemapLoop _ _ _ (X.sources s.constEpt)).1 = _
    rw [split, eq]
  rw [written_remap found] at beyond
  omega

end RemapAmong

section RemapAlone
variable (a : Alone P X others gpa s role k) (low : pml4Index gpa = 0) (room : k < poolPages)
  (needs : (needRemap s X gpa).1 = n + 1) (hf : tableAt s.mem X.eptPml4 gpa n = some f)
include a low room needs hf

theorem Alone.remap_kept (hr : r ∈ others) : Kept s.mem (s.remap P k gpa n f).mem r :=
  a.toAmong.remap_kept low room needs hf (a.placed r hr) (a.apart_table needs hr)

theorem Alone.remap : Alone P X others gpa (s.remap P k gpa n f)
    (roleOfNew P role k (place gpa (n + 1))) (k + 1) ∧
      ∀ j, (needRemap (s.remap P k gpa n f) X gpa).1 = j + 1 → n < j := by
  have among := a.toAmong.remap low room needs hf
  have shares : ∀ r ∈ others, ∀ j, j ≤ n + 1 →
      ¬ Shares (s.remap P k gpa n f).mem X.eptPml4 r gpa j := fun r hr =>
    (a.toAmong.remap_shares low room needs hf (a.placed r hr) (a.apart_table needs hr)).1
  refine ⟨⟨among, fun r hr => shares r hr _ ?_⟩, fun j again => ?_⟩
  · exact a.toAmong.remap_written low room needs hf fun r hr => a.distinct low (a.sources r hr)
  · by_contra early
    obtain ⟨-, pre', t', post', -, -, -, ht', shares', -⟩ := among.needs_spec low again
    exact shares t' ht' (j + 1) (by omega) shares'

end RemapAlone

section SplitAlone
variable (h : Tables P s role k) (room : k < poolPages) (hX : role X.eptPml4 = some [])
  (hf : tableAt s.mem X.eptPml4 gpa 2 = some f) (demo : Entry)
include h room hX hf

theorem split_tableAt (deep : j ≤ 3) :
    tableAt (s.split P k gpa f demo).mem X.eptPml4 gpa' j =
      if place gpa' j = place gpa 3 then some (P.page k) else tableAt s.mem X.eptPml4 gpa' j :=
  hang_tableAt h room hX (h.shaped.role_tableAt hX (by omega) hf) hf (by simp) (by simp) (by omega)
    deep

theorem split_entryAt (deep : j ≤ 3) :
    entryAt (s.split P k gpa f demo).mem X.eptPml4 gpa' j =
      if place gpa' (j + 1) = place gpa 3 then some (tableEntry (P.page k))
      else if place gpa' j = place gpa 3 then
        some (demoPte s (gpa &&& ~~~(0x200000 - 1)) demo 0 (indexAt gpa' j))
      else entryAt s.mem X.eptPml4 gpa' j :=
  hang_entryAt h room hX (h.shaped.role_tableAt hX (by omega) hf) hf (by simp) (by simp) (by omega)
    deep

end SplitAlone

section SplitAmong
variable (x : Among P X others s role k) (room : k < poolPages)
  (hf : tableAt s.mem X.eptPml4 gpa 2 = some f) (demo : Entry)
include x room hf

theorem Among.split : Among P X others (s.split P k gpa f demo) (roleOfNew P role k (place gpa 3))
      (k + 1) ∧ tableAt (s.split P k gpa f demo).mem X.eptPml4 gpa 3 = some (P.page k) := by
  refine ⟨⟨x.tables.split room x.root hf demo, roleOfNew_kept x.tables room x.root,
    fun r hr => roleOfNew_kept x.tables room (x.placed r hr), x.sources⟩, ?_⟩
  rw [split_tableAt x.tables room x.root hf demo (Nat.le_refl 3), if_pos rfl]

theorem Among.split_kept (hr : role r = some []) (apart : ¬ Shares s.mem X.eptPml4 r gpa 2) :
    Kept s.mem (s.split P k gpa f demo).mem r ∧
      ¬ Shares (s.split P k gpa f demo).mem X.eptPml4 r gpa 3 := by
  have kept : Kept s.mem (s.split P k gpa f demo).mem r := x.tables.hang_kept room hr
    (x.tables.shaped.role_tableAt x.root (by omega) hf) fun met => apart ⟨f, hf, met⟩
  refine ⟨kept, ?_⟩
  rintro ⟨g, left, right⟩
  rw [(x.split room hf demo).2] at left
  obtain rfl := Option.some.inj left
  rw [kept.table gpa 3 (Nat.le_refl 3)] at right
  have placed := x.tables.shaped.role_tableAt hr (Nat.le_refl 3) right
  rw [x.tables.unplaced (Nat.le_refl k) room] at placed
  cases placed

end SplitAmong

theorem Alone.split_kept (a : Alone P X others gpa s role k) (room : k < poolPages)
    (level : written s X gpa = 2) (hf : tableAt s.mem X.eptPml4 gpa 2 = some f) (demo : Entry)
    (hr : r ∈ others) : Kept s.mem (s.split P k gpa f demo).mem r ∧
      ¬ Shares (s.split P k gpa f demo).mem X.eptPml4 r gpa 3 :=
  a.toAmong.split_kept room hf demo (a.placed r hr) (level ▸ a.apart r hr)

/-- Whatever the remaps and the split of a call keep holds when the entry is written, into a
table that no other root finds. -/
theorem setPte_outcome (Inv : Machine → Prop) (pte : Entry) (fuel : Nat) (low : pml4Index gpa = 0)
    (remap : ∀ s role k n f, Alone P X others gpa s role k → k < poolPages →
      (needRemap s X gpa).1 = n + 1 → tableAt s.mem X.eptPml4 gpa n = some f → Inv s →
      Inv (s.remap P k gpa n f))
    (split : ∀ s role k f demo, Alone P X others gpa s role k → k < poolPages →
      written s X gpa = 2 → tableAt s.mem X.eptPml4 gpa 2 = some f →
      (access (s.mem f (indexAt gpa 2)) = .none ∨ largePage (s.mem f (indexAt gpa 2)) = true) →
      (access (s.mem f (indexAt gpa 2)) ≠ .none →
        access demo = access (s.mem f (indexAt gpa 2))) → Inv s → Inv (s.split P k gpa f demo))
    (a : Alone P X others gpa s role k) (inv : Inv s) (enough : 6 ≤ fuel) :
    Died (setPte P fuel X gpa pte s) s (k + 4) ∨ ∃ s' role' k' g, Among P X others s' role' k' ∧ Inv s' ∧
      Grown s k s' k' 4 ∧ tableAt s'.mem X.eptPml4 gpa 3 = some g ∧
      (∀ r ∈ others, ¬ Shares s'.mem X.eptPml4 r gpa 3) ∧
      setPte P fuel X gpa pte s = .ok (true, s'.store g (ptIndex gpa) pte) := by
  -- each remap is at a deeper level than the one before
  suffices deepens : ∀ level, level ≤ 3 → 6 ≤ fuel + level →
      (∀ j, (needRemap s X gpa).1 = j + 1 → level ≤ j) →
      Died (setPte P fuel X gpa pte s) s (k + 4 - level) ∨ ∃ s' role' k' g,
        Among P X others s' role' k' ∧ Inv s' ∧ Grown s k s' k' (4 - level) ∧
        tableAt s'.mem X.eptPml4 gpa 3 = some g ∧ (∀ r ∈ others, ¬ Shares s'.mem X.eptPml4 r gpa 3) ∧
        setPte P fuel X gpa pte s = .ok (true, s'.store g (ptIndex gpa) pte) from
    deepens 0 (by omega) enough fun j _ => Nat.zero_le j
  clear enough
  induction fuel generalizing s role k with
  | zero =>
      intro level bound enough
      omega
  | succ fuel ih =>
      intro level bound enough start
      cases needs : (needRemap s X gpa).1 with
      | succ n =>
          obtain ⟨upper, -⟩ := a.needs_spec low needs
          obtain ⟨f, hf⟩ := a.tables.shaped.upperTable a.root low upper
          have deeper := start n needs
          rcases a.setPte_call low needs hf pte fuel with died | ⟨room, call⟩
          · exact .inl (died.mono (by omega) rfl)
          · obtain ⟨next, later⟩ := a.remap low room needs hf
            rw [call]
            rcases ih next (remap s role k n f a room needs hf inv) (n + 1) (by omega) (by omega)
              fun j again => later j again with died | ⟨s', role', k', g, among, inv', grown, rest⟩
            · exact .inl (died.mono (by omega) rfl)
            · exact .inr ⟨s', role', k', g, among, inv', ⟨by have := grown.pages; omega, grown.upper⟩,
                rest⟩
      | zero =>
          obtain ⟨more, rfl⟩ : ∃ more, fuel = more + 2 := ⟨fuel - 2, by omega⟩
          obtain ⟨f, hf⟩ := a.tables.shaped.upperTable a.root low (Nat.le_refl 2)
          have level := a.written_leaf low needs hf
          rw [setPte_direct pte (more + 2) needs]
          by_cases large : access (s.mem f (indexAt gpa 2)) = .none ∨
              largePage (s.mem f (indexAt gpa 2)) = true
          · rw [if_pos large] at level
            obtain ⟨demo, same, -, died | ⟨room, done⟩⟩ :=
              setPte_split a.tables a.root low hf pte more large
            · exact .inl (died.mono (by omega) rfl)
            · obtain ⟨among, new⟩ := a.toAmong.split room hf demo
              exact .inr ⟨_, _, _, _, among, split s role k f demo a room level hf large same inv,
                ⟨by omega, rfl⟩, new, fun r hr => (a.split_kept room level hf demo hr).2, done⟩
          · rw [if_neg large] at level
            rw [not_or, Bool.not_eq_true] at large
            refine .inr ⟨s, role, k, _, a.toAmong, inv, ⟨by omega, rfl⟩,
              a.tables.shaped.pageTable a.root low hf large.2, ?_,
              setPte_table a.tables.shaped a.root low hf large.1 large.2⟩
            rw [← level]
            exact a.apart

end CopyOnWrite

end LMalz.Ept
