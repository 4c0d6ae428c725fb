import LMalz.Ept.LargePages
import Mathlib.Data.Nat.Find

/- What a set_pte does to the other pages of its object. The tables shared on the way are copied
from the uppermost one down, and the permissions of their entries are overwritten. -/
namespace LMalz.Ept

/-- The uppermost level at which a table on the way is shared with an object that need_remap looks
at; 4 if there is none. -/
structure TopShared (s : Machine) (X : EptCls) (gpa : BitVec 64) (i : Nat) : Prop where
  positive : 1 ≤ i
  bound : i ≤ 4
  shared : i ≤ 3 → ∃ r ∈ X.sources s.constEpt, Shares s.mem X.eptPml4 r gpa i
  apart : ∀ r ∈ X.sources s.constEpt, ∀ j, j < i → ¬ Shares s.mem X.eptPml4 r gpa j

/-- The permissions on the way of another address, without its entries in those tables from level `i`
on that the way of `gpa` uses too. -/
def uncopied (m : Memory) (x : Frame) (gpa : BitVec 64) (i : Nat) (gpa' : BitVec 64) (l : Nat) :
    Access :=
  if i ≤ l ∧ place gpa' l = place gpa l then .full else accessAt m x gpa' l

/-- The copies leave a pde that allows nothing. A copy takes its permission from the entry above the
uppermost shared table. -/
def PdeAbsent (m : Memory) (x : Frame) (gpa : BitVec 64) (i : Nat) : Prop :=
  accessAt m x gpa (min (i - 1) 2) = .none ∧ (i = 4 ∨ tableAt m x gpa 3 = none)

instance (m : Memory) (x : Frame) (gpa : BitVec 64) (i : Nat) : Decidable (PdeAbsent m x gpa i) :=
  inferInstanceAs (Decidable (_ ∧ _))

/-- What the levels allow after the call. An absent pde gives way to a table that allows what the
new entry allows. -/
def foreseen (m : Memory) (x : Frame) (gpa : BitVec 64) (pte : Entry) (i : Nat) (gpa' : BitVec 64)
    (l : Nat) : Access :=
  if PdeAbsent m x gpa i ∧ place gpa' 3 = place gpa 3 then
    if l < min (i - 1) 2 then accessAt m x gpa' l else if l = 3 then access pte else .full
  else uncopied m x gpa i gpa' l

section Top
variable {P : Platform} {X : EptCls} {others : List Frame} {gpa : BitVec 64} {s : Machine}
  {role : Frame → Option (List Index)} {k n i l : Nat} {f r : Frame} {demo : Entry}

theorem Chained.topShared (x : Chained P X others s role k) : ∃ i, TopShared s X gpa i := by
  classical
  have last : ∃ i, 1 ≤ i ∧ (i = 4 ∨ ∃ r ∈ X.sources s.constEpt, Shares s.mem X.eptPml4 r gpa i) :=
    ⟨4, by omega, .inl rfl⟩
  obtain ⟨positive, found⟩ := Nat.find_spec last
  have bound : Nat.find last ≤ 4 := Nat.find_min' last ⟨by omega, .inl rfl⟩
  refine ⟨Nat.find last, positive, bound, fun upper => found.resolve_left (by omega),
    fun r hr j above shares => ?_⟩
  by_cases top : j = 0
  · rw [top] at shares
    exact x.apart_top hr shares
  · exact Nat.find_min last above ⟨by omega, .inr ⟨r, hr, shares⟩⟩

/-- need_remap asks the nearest object first; another one may share a table further up. -/
theorem TopShared.le_needs (top : TopShared s X gpa i) (x : Chained P X others s role k)
    (low : pml4Index gpa = 0) (needs : (needRemap s X gpa).1 = n + 1) : i ≤ n + 1 := by
  obtain ⟨-, pre, t, post, split, -, shares, -⟩ := x.needs_spec low needs
  by_contra above
  exact top.apart t (by simp [split]) (n + 1) (by omega) shares

theorem TopShared.last (top : TopShared s X gpa i) (x : Chained P X others s role k)
    (low : pml4Index gpa = 0) (needs : (needRemap s X gpa).1 = 0) : i = 4 := by
  have positive := top.positive
  have bound := top.bound
  by_contra upper
  obtain ⟨r, hr, shares⟩ := top.shared (by omega)
  exact x.unshared low needs hr i (by omega) shares

section Remap
variable (x : Chained P X others s role k) (low : pml4Index gpa = 0) (room : k < poolPages)
  (needs : (needRemap s X gpa).1 = n + 1) (hf : tableAt s.mem X.eptPml4 gpa n = some f)
include x low room needs hf

theorem Chained.remap_above (hr : role r = some []) (le : l ≤ n) :
    tableAt (s.remap P k gpa n f).mem r gpa l = tableAt s.mem r gpa l := by
  have upper := (x.needs_spec low needs).1
  by_cases reach : tableAt s.mem r gpa n = some f
  · have deeper : tableAt s.mem r gpa (n + 1) ≠ none := by
      have below := x.deeper low needs
      rwa [tableAt_succ, entryAt_eq hf, ← entryAt_eq reach, ← tableAt_succ] at below
    exact (remap_tableAt (X := .root r 0) x.tables room hr upper reach deeper (by omega)).trans
      (if_neg fun same => absurd (place_level same) (by omega))
  · have placed := x.tables.shaped.role_tableAt x.root (by omega) hf
    exact (x.tables.hang_kept room hr placed reach).table gpa l (by omega)

theorem TopShared.remap_below (top : TopShared s X gpa i) (le : i ≤ n) :
    TopShared (s.remap P k gpa n f) X gpa i := by
  have same : ∀ r ∈ X.sources s.constEpt, ∀ j, j ≤ n →
      (Shares (s.remap P k gpa n f).mem X.eptPml4 r gpa j ↔ Shares s.mem X.eptPml4 r gpa j) := by
    intro r hr j above
    rw [Shares, Shares, x.remap_above low room needs hf x.root above,
      x.remap_above low room needs hf (x.placed r (x.sources r hr)) above]
  refine ⟨top.positive, top.bound, fun upper => ?_, fun r hr j above shares => ?_⟩
  · obtain ⟨r, hr, shares⟩ := top.shared upper
    exact ⟨r, hr, (same r hr i le).mpr shares⟩
  · exact top.apart r hr j above ((same r hr j (by omega)).mp shares)

/-- After a copy of the uppermost shared table the next one is shared, unless there is none. -/
theorem TopShared.remap_next (top : TopShared s X gpa (n + 1)) :
    n ≤ 1 ∧ TopShared (s.remap P k gpa n f) X gpa (n + 2) ∨
      (n = 2 ∨ n = 1 ∧ tableAt s.mem X.eptPml4 gpa 3 = none) ∧
        TopShared (s.remap P k gpa n f) X gpa 4 := by
  obtain ⟨upper, -⟩ := x.needs_spec low needs
  obtain ⟨t, ht, shares⟩ := top.shared (by omega)
  have after : ∀ r ∈ X.sources s.constEpt, (∀ j, j ≤ n + 1 →
        ¬ Shares (s.remap P k gpa n f).mem X.eptPml4 r gpa j) ∧
      ∀ j, n + 1 < j → j ≤ 3 → (Shares (s.remap P k gpa n f).mem X.eptPml4 r gpa j ↔
        Shares s.mem X.eptPml4 r gpa j) := fun r hr =>
    x.toAmong.remap_shares low room needs hf (x.placed r (x.sources r hr))
      (top.apart r hr n (by omega))
  cases hg : tableAt s.mem X.eptPml4 gpa (n + 2) with
  | some g =>
      by_cases leaf : n = 2
      · refine .inr ⟨.inl leaf, by omega, by omega, fun upper => by omega, fun r hr j above => ?_⟩
        exact (after r hr).1 j (by omega)
      · refine .inl ⟨by omega, by omega, by omega, fun _ => ⟨t, ht, ?_⟩, fun r hr j above => ?_⟩
        · exact ((after t ht).2 (n + 2) (by omega) (by omega)).mpr (shares.mono (by omega) hg)
        · exact (after r hr).1 j (by omega)
  | none =>
      have deep : n = 2 ∨ n = 1 := by
        by_contra upper
        obtain ⟨g, found⟩ := x.tables.shaped.upperTable x.root low (show n + 2 ≤ 2 by omega)
        rw [hg] at found
        cases found
      refine .inr ⟨deep.imp_right fun one => ⟨one, by subst one; exact hg⟩, by omega, by omega,
        fun upper => by omega, fun r hr j above shares => ?_⟩
      by_cases near : j ≤ n + 1
      · exact (after r hr).1 j near shares
      · obtain ⟨g, found, -⟩ := ((after r hr).2 j (by omega) (by omega)).mp shares
        obtain ⟨g', found'⟩ := tableAt_le (show n + 2 ≤ j by omega) found
        rw [hg] at found'
        cases found'

end Remap

theorem TopShared.split (top : TopShared s X gpa 4) (x : Chained P X others s role k)
    (room : k < poolPages) (hf : tableAt s.mem X.eptPml4 gpa 2 = some f) :
    TopShared (s.split P k gpa f demo) X gpa 4 :=
  ⟨by omega, by omega, fun upper => by omega, fun r hr j above =>
    x.split_apart room hf demo (x.placed r (x.sources r hr))
      (fun j deep => top.apart r hr j (by omega)) j (by omega)⟩

end Top

section Foresight
variable {P : Platform} {X : EptCls} {others : List Frame} {gpa gpa' : BitVec 64} {pte : Entry}
  {s : Machine} {role : Frame → Option (List Index)} {k n i j l : Nat} {f : Frame} {demo : Entry}

section Remap
variable (x : Chained P X others s role k) (low : pml4Index gpa = 0) (room : k < poolPages)
  (needs : (needRemap s X gpa).1 = n + 1) (hf : tableAt s.mem X.eptPml4 gpa n = some f)
include x low room needs hf

theorem Chained.remap_access (deep : l ≤ 3) :
    accessAt (s.remap P k gpa n f).mem X.eptPml4 gpa' l =
      if place gpa' (l + 1) = place gpa (n + 1) then .full
      else if place gpa' l = place gpa (n + 1) then accessAt s.mem X.eptPml4 gpa n
      else accessAt s.mem X.eptPml4 gpa' l :=
  remap_accessAt x.tables room x.root (x.needs_spec low needs).1 hf (x.deeper low needs) deep

theorem Chained.remap_access_other (deep : l ≤ 3) (above : l ≠ n) (here : l ≠ n + 1) :
    accessAt (s.remap P k gpa n f).mem X.eptPml4 gpa' l = accessAt s.mem X.eptPml4 gpa' l := by
  rw [x.remap_access low room needs hf deep, if_neg fun same => above (place_succ_inj.mp same).1,
    if_neg fun same => here (place_level same)]

theorem Chained.remap_access_off (off : place gpa' (n + 1) ≠ place gpa (n + 1)) (deep : l ≤ 3) :
    accessAt (s.remap P k gpa n f).mem X.eptPml4 gpa' l = accessAt s.mem X.eptPml4 gpa' l := by
  by_cases above : l = n
  · subst above
    rw [x.remap_access low room needs hf deep, if_neg off,
      if_neg fun same => absurd (place_level same) (by omega)]
  by_cases here : l = n + 1
  · subst here
    rw [x.remap_access low room needs hf deep,
      if_neg fun same => absurd (place_level same) (by omega), if_neg off]
  · exact x.remap_access_other low room needs hf deep above here

theorem Chained.pdeAbsent_below (positive : 1 ≤ i) (le : i ≤ n) :
    PdeAbsent (s.remap P k gpa n f).mem X.eptPml4 gpa i ↔ PdeAbsent s.mem X.eptPml4 gpa i := by
  have upper := (x.needs_spec low needs).1
  have leaf : tableAt (s.remap P k gpa n f).mem X.eptPml4 gpa 3 = none ↔
      tableAt s.mem X.eptPml4 gpa 3 = none := by
    rw [x.toAmong.remap_own low room needs hf (Nat.le_refl 3)]
    by_cases last : 3 = n + 1
    · have deeper := x.deeper low needs
      rw [← last] at deeper
      rw [if_pos last]
      exact ⟨nofun, fun none => absurd none deeper⟩
    · rw [if_neg last]
  rw [PdeAbsent, PdeAbsent, x.remap_access_other low room needs hf (by omega) (by omega) (by omega),
    leaf]

/-- Copies below the uppermost one only change what that one overwrites. -/
theorem Chained.foreseen_below (positive : 1 ≤ i) (le : i ≤ n) (deep : l ≤ 3) :
    foreseen (s.remap P k gpa n f).mem X.eptPml4 gpa pte i gpa' l =
      foreseen s.mem X.eptPml4 gpa pte i gpa' l := by
  have upper := (x.needs_spec low needs).1
  simp only [foreseen, x.pdeAbsent_below low room needs hf positive le]
  by_cases absent : PdeAbsent s.mem X.eptPml4 gpa i ∧ place gpa' 3 = place gpa 3
  · rw [if_pos absent, if_pos absent]
    by_cases above : l < min (i - 1) 2
    · rw [if_pos above, if_pos above,
        x.remap_access_other low room needs hf deep (by omega) (by omega)]
    · rw [if_neg above, if_neg above]
  rw [if_neg absent, if_neg absent, uncopied, uncopied]
  by_cases lost : i ≤ l ∧ place gpa' l = place gpa l
  · rw [if_pos lost, if_pos lost]
  rw [if_neg lost, if_neg lost]
  by_cases off : place gpa' (n + 1) = place gpa (n + 1)
  · refine x.remap_access_other low room needs hf deep ?_ ?_
    · rintro rfl
      exact lost ⟨le, place_le (by omega) off⟩
    · rintro rfl
      exact lost ⟨by omega, off⟩
  · exact x.remap_access_off low room needs hf off deep

section Next
variable (next : j = n + 2 ∧ n ≤ 1 ∨
  j = 4 ∧ (n = 2 ∨ n = 1 ∧ tableAt s.mem X.eptPml4 gpa 3 = none))
include next

/-- The copy of the uppermost shared table takes the permission that was above it. -/
theorem Chained.pdeAbsent_next : PdeAbsent (s.remap P k gpa n f).mem X.eptPml4 gpa j ↔
    PdeAbsent s.mem X.eptPml4 gpa (n + 1) := by
  have deeper := x.deeper low needs
  have present : Access.full ≠ .none := by decide
  have own := x.toAmong.remap_own low room needs hf (Nat.le_refl 3)
  by_cases leaf : n = 2
  · obtain rfl : j = 4 := by omega
    subst leaf
    have widened : accessAt (s.remap P k gpa 2 f).mem X.eptPml4 gpa 2 = .full := by
      rw [x.remap_access low room needs hf (by omega), if_pos rfl]
    exact ⟨fun absent => absurd (widened.symm.trans absent.1) present,
      fun absent => absurd (absent.2.resolve_left (by omega)) deeper⟩
  · have level : min (j - 1) 2 = n + 1 ∧ min (n + 1 - 1) 2 = n := by omega
    have moved : accessAt (s.remap P k gpa n f).mem X.eptPml4 gpa (n + 1) =
        accessAt s.mem X.eptPml4 gpa n := by
      rw [x.remap_access low room needs hf (by omega),
        if_neg fun same => absurd (place_level same) (by omega), if_pos rfl]
    rw [if_neg (by omega)] at own
    rw [PdeAbsent, PdeAbsent, level.1, level.2, moved, own]
    refine and_congr_right fun _ => ?_
    constructor
    · rintro (last | none)
      · exact .inr ((next.resolve_left (by omega)).2.resolve_left leaf).2
      · exact .inr none
    · rintro (last | none)
      · omega
      · exact .inr none

theorem Chained.foreseen_next :
    allowed (foreseen (s.remap P k gpa n f).mem X.eptPml4 gpa pte j gpa') =
      allowed (foreseen s.mem X.eptPml4 gpa pte (n + 1) gpa') := by
  have upper := (x.needs_spec low needs).1
  have same := x.pdeAbsent_next low room needs hf next
  by_cases absent : PdeAbsent s.mem X.eptPml4 gpa (n + 1) ∧ place gpa' 3 = place gpa 3
  · have above : n ≤ 1 := by
      by_contra leaf
      obtain rfl : n = 2 := by omega
      exact x.deeper low needs (absent.1.2.resolve_left (by omega))
    refine allowed_congr fun l deep => ?_
    rw [foreseen, foreseen, if_pos absent, if_pos ⟨same.mpr absent.1, absent.2⟩,
      show min (j - 1) 2 = n + 1 by omega, show min (n + 1 - 1) 2 = n by omega]
    by_cases here : l = n
    · subst here
      rw [if_pos (by omega), if_neg (by omega), if_neg (by omega),
        x.remap_access low room needs hf deep, if_pos (place_le (by omega) absent.2)]
    by_cases before : l < n
    · rw [if_pos before, if_pos (by omega),
        x.remap_access_other low room needs hf deep here (by omega)]
    · rw [if_neg before, if_neg (by omega)]
  have notAbsent : ¬ (PdeAbsent (s.remap P k gpa n f).mem X.eptPml4 gpa j ∧
      place gpa' 3 = place gpa 3) := by
    rwa [same]
  by_cases off : place gpa' (n + 1) = place gpa (n + 1)
  case neg =>
    refine allowed_congr fun l deep => ?_
    rw [foreseen, foreseen, if_neg absent, if_neg notAbsent, uncopied, uncopied,
      x.remap_access_off low room needs hf off deep, if_neg, if_neg]
    · exact fun lost => off (place_le lost.1 lost.2)
    · exact fun lost => off (place_le (by omega) lost.2)
  have before : ∀ l, foreseen s.mem X.eptPml4 gpa pte (n + 1) gpa' l =
      uncopied s.mem X.eptPml4 gpa (n + 1) gpa' l := fun l => if_neg absent
  have after : ∀ l, foreseen (s.remap P k gpa n f).mem X.eptPml4 gpa pte j gpa' l =
      uncopied (s.remap P k gpa n f).mem X.eptPml4 gpa j gpa' l := fun l => if_neg notAbsent
  refine allowed_moved upper ?_ ?_ ?_ fun l deep notHere notNext => ?_
  · rw [before, uncopied, if_pos ⟨Nat.le_refl _, off⟩]
  · rw [after, uncopied, if_neg (by omega), x.remap_access low room needs hf (by omega), if_pos off]
  · rw [after, before, uncopied, uncopied, if_neg (by omega), if_neg (by omega),
      x.remap_access low room needs hf (by omega),
      if_neg fun here => absurd (place_level here) (by omega), if_pos off]
    exact (accessAt_place off).symm
  · rw [after, before, uncopied, uncopied,
      x.remap_access_other low room needs hf deep notHere notNext]
    by_cases lost : n + 1 ≤ l ∧ place gpa' l = place gpa l
    · rw [if_pos lost]
      rcases next with ⟨rfl, -⟩ | ⟨rfl, deepest⟩
      · rw [if_pos ⟨by omega, lost.2⟩]
      · rw [if_neg (by omega)]
        obtain rfl : 3 = l := by omega
        obtain ⟨-, none⟩ := deepest.resolve_left (by omega)
        exact accessAt_none (entryAt_none ((tableAt_place lost.2).trans none))
    · rw [if_neg lost, if_neg]
      exact fun both => lost ⟨by omega, both.2⟩

end Next

end Remap

theorem Chained.leaf_of_present (x : Chained P X others s role k)
    (hf : tableAt s.mem X.eptPml4 gpa 2 = some f)
    (large : access (s.mem f (indexAt gpa 2)) = .none ∨ largePage (s.mem f (indexAt gpa 2)) = true)
    (present : ¬ PdeAbsent s.mem X.eptPml4 gpa 4) (here : place gpa' 3 = place gpa 3) :
    entryAt s.mem X.eptPml4 gpa' 3 = none := by
  have pde := accessAt_eq (entryAt_eq hf)
  have absent : access (s.mem f (indexAt gpa 2)) ≠ .none := fun none =>
    present ⟨pde.trans none, .inl rfl⟩
  have leaf := (x.tables.shaped.lowestEntry x.root hf).1 (large.resolve_left absent)
  cases table : tableAt s.mem X.eptPml4 gpa 3 with
  | none => exact entryAt_none ((tableAt_place here).trans table)
  | some g =>
      rw [entryAt_eq table] at leaf
      cases leaf

section Split
variable (x : Chained P X others s role k) (room : k < poolPages)
  (hf : tableAt s.mem X.eptPml4 gpa 2 = some f)
include x room hf

theorem Chained.split_access (deep : l ≤ 3) :
    accessAt (s.split P k gpa f demo).mem X.eptPml4 gpa' l =
      if place gpa' (l + 1) = place gpa 3 then .full
      else if place gpa' l = place gpa 3 then access demo
      else accessAt s.mem X.eptPml4 gpa' l :=
  split_accessAt x.tables room x.root hf deep

theorem Chained.split_present : ¬ PdeAbsent (s.split P k gpa f demo).mem X.eptPml4 gpa 4 := by
  have present : Access.full ≠ .none := by decide
  have widened : accessAt (s.split P k gpa f demo).mem X.eptPml4 gpa 2 = .full := by
    rw [x.split_access room hf (by omega), if_pos rfl]
  exact fun absent => present (widened.symm.trans absent.1)

variable (large : access (s.mem f (indexAt gpa 2)) = .none ∨
    largePage (s.mem f (indexAt gpa 2)) = true)
  (same : access (s.mem f (indexAt gpa 2)) ≠ .none → access demo = access (s.mem f (indexAt gpa 2)))
include large same

/-- A split moves the permission of a 2MB page to its 4KB pages. -/
theorem Chained.foreseen_split (absent : access (s.mem f (indexAt gpa 2)) = .none → demo = pte) :
    allowed (foreseen (s.split P k gpa f demo).mem X.eptPml4 gpa pte 4 gpa') =
      allowed (foreseen s.mem X.eptPml4 gpa pte 4 gpa') := by
  have pde : accessAt s.mem X.eptPml4 gpa 2 = access (s.mem f (indexAt gpa 2)) :=
    accessAt_eq (entryAt_eq hf)
  have after : ∀ l, l ≤ 3 → foreseen (s.split P k gpa f demo).mem X.eptPml4 gpa pte 4 gpa' l =
      accessAt (s.split P k gpa f demo).mem X.eptPml4 gpa' l := by
    intro l deep
    rw [foreseen, if_neg fun both => x.split_present room hf both.1, uncopied, if_neg (by omega)]
  have other : ∀ l, l ≤ 3 → l ≠ 2 → l ≠ 3 →
      accessAt (s.split P k gpa f demo).mem X.eptPml4 gpa' l = accessAt s.mem X.eptPml4 gpa' l := by
    intro l deep notPde notLeaf
    rw [x.split_access room hf deep, if_neg fun same => notPde (place_succ_inj.mp same).1,
      if_neg fun same => notLeaf (place_level same)]
  by_cases here : place gpa' 3 = place gpa 3
  case neg =>
    refine allowed_congr fun l deep => ?_
    rw [after l deep, foreseen, if_neg fun both => here both.2, uncopied, if_neg (by omega)]
    by_cases upper : l = 2
    · rw [upper, x.split_access room hf (by omega), if_neg here,
        if_neg fun same => absurd (place_level same) (by omega)]
    by_cases leaf : l = 3
    · rw [leaf, x.split_access room hf (by omega),
        if_neg fun same => absurd (place_level same) (by omega), if_neg here]
    · exact other l deep upper leaf
  have widened : accessAt (s.split P k gpa f demo).mem X.eptPml4 gpa' 2 = .full := by
    rw [x.split_access room hf (by omega), if_pos here]
  have leaf : accessAt (s.split P k gpa f demo).mem X.eptPml4 gpa' 3 = access demo := by
    rw [x.split_access room hf (by omega), if_neg fun same => absurd (place_level same) (by omega),
      if_pos here]
  by_cases missing : PdeAbsent s.mem X.eptPml4 gpa 4
  · refine allowed_congr fun l deep => ?_
    rw [after l deep, foreseen, if_pos ⟨missing, here⟩]
    match l, deep with
    | 0, _ => exact other 0 (by omega) (by omega) (by omega)
    | 1, _ => exact other 1 (by omega) (by omega) (by omega)
    | 2, _ => exact widened
    | 3, _ => exact leaf.trans (congrArg access (absent (pde.symm.trans missing.1)))
  · have before : ∀ l, l ≤ 3 → foreseen s.mem X.eptPml4 gpa pte 4 gpa' l =
        accessAt s.mem X.eptPml4 gpa' l := by
      intro l deep
      rw [foreseen, if_neg fun both => missing both.1, uncopied, if_neg (by omega)]
    have none := x.leaf_of_present hf large missing here
    refine allowed_moved (Nat.le_refl 2) ?_ ?_ ?_ fun l deep notPde notLeaf => ?_
    · rw [before 3 (by omega), accessAt_none none]
    · rw [after 2 (by omega), widened]
    · rw [after 3 (by omega), before 2 (by omega), leaf, accessAt_place here, pde]
      exact same fun none => missing ⟨pde.trans none, .inl rfl⟩
    · rw [after l deep, before l deep, other l deep notPde notLeaf]

end Split

/-- What is foreseen at the start of a call stays foreseen while tables are copied and split. -/
structure Foreseen (X : EptCls) (gpa : BitVec 64) (pte : Entry) (s : Machine) (i : Nat) (t : Machine)
    (j : Nat) : Prop where
  top : TopShared t X gpa j
  pdes : IdentityPdes t.mem X.eptPml4
  absent : PdeAbsent t.mem X.eptPml4 gpa j → PdeAbsent s.mem X.eptPml4 gpa i
  access : ∀ gpa', Below512G gpa' → allowed (foreseen t.mem X.eptPml4 gpa pte j gpa') =
    allowed (foreseen s.mem X.eptPml4 gpa pte i gpa')
  frame : ∀ gpa', Below512G gpa' → frameAt t.mem X.eptPml4 gpa' = frameAt s.mem X.eptPml4 gpa' ∨
    PdeAbsent s.mem X.eptPml4 gpa i ∧ place gpa' 3 = place gpa 3

theorem Foreseen.start (top : TopShared s X gpa i) (pdes : IdentityPdes s.mem X.eptPml4) :
    Foreseen X gpa pte s i s i :=
  ⟨top, pdes, id, fun _ _ => rfl, fun _ _ => .inl rfl⟩

theorem Foreseen.remap {t : Machine} (h : Foreseen X gpa pte s i t j)
    (x : Chained P X others t role k) (low : pml4Index gpa = 0) (room : k < poolPages)
    (needs : (needRemap t X gpa).1 = n + 1) (hf : tableAt t.mem X.eptPml4 gpa n = some f) :
    ∃ j', Foreseen X gpa pte s i (t.remap P k gpa n f) j' := by
  have pdes := h.pdes.remap x.toAmong low room needs hf x.root
  have frames : ∀ gpa', frameAt (t.remap P k gpa n f).mem X.eptPml4 gpa' =
      frameAt t.mem X.eptPml4 gpa' := fun gpa' =>
    remap_frameAt x.tables room x.root (x.needs_spec low needs).1 hf (x.deeper low needs)
  by_cases below : j ≤ n
  · refine ⟨j, h.top.remap_below x low room needs hf below, pdes, fun absent => h.absent ?_,
      fun gpa' low' => ?_, fun gpa' low' => ?_⟩
    · exact (x.pdeAbsent_below low room needs hf h.top.positive below).mp absent
    · rw [← h.access gpa' low']
      exact allowed_congr fun l deep =>
        x.foreseen_below low room needs hf h.top.positive below deep
    · rw [frames gpa']
      exact h.frame gpa' low'
  obtain rfl : n + 1 = j := by
    have := h.top.le_needs x low needs
    omega
  obtain ⟨j', next, top⟩ : ∃ j', (j' = n + 2 ∧ n ≤ 1 ∨
      j' = 4 ∧ (n = 2 ∨ n = 1 ∧ tableAt t.mem X.eptPml4 gpa 3 = none)) ∧
      TopShared (t.remap P k gpa n f) X gpa j' := by
    rcases h.top.remap_next x low room needs hf with ⟨upper, top⟩ | ⟨deepest, top⟩
    · exact ⟨n + 2, .inl ⟨rfl, upper⟩, top⟩
    · exact ⟨4, .inr ⟨rfl, deepest⟩, top⟩
  refine ⟨j', top, pdes, fun absent => h.absent ?_, fun gpa' low' => ?_, fun gpa' low' => ?_⟩
  · exact (x.pdeAbsent_next low room needs hf next).mp absent
  · rw [← h.access gpa' low']
    exact x.foreseen_next low room needs hf next
  · rw [frames gpa']
    exact h.frame gpa' low'

theorem Foreseen.split {t : Machine} (h : Foreseen X gpa pte s i t j)
    (x : Chained P X others t role k) (low : Below512G gpa) (room : k < poolPages)
    (needs : (needRemap t X gpa).1 = 0) (hf : tableAt t.mem X.eptPml4 gpa 2 = some f)
    (large : Ept.access (t.mem f (indexAt gpa 2)) = .none ∨ largePage (t.mem f (indexAt gpa 2)) = true)
    (same : Ept.access (t.mem f (indexAt gpa 2)) ≠ .none →
      Ept.access demo = Ept.access (t.mem f (indexAt gpa 2)))
    (absent : Ept.access (t.mem f (indexAt gpa 2)) = .none → demo = pte) :
    ∃ j', Foreseen X gpa pte s i (t.split P k gpa f demo) j' := by
  obtain rfl := h.top.last x low.pml4Index needs
  refine ⟨4, h.top.split x room hf, h.pdes.split x.toAmong room hf x.root,
    fun missing => absurd missing (x.split_present room hf), fun gpa' low' => ?_, fun gpa' low' => ?_⟩
  · rw [← h.access gpa' low']
    exact x.foreseen_split room hf large same absent
  · rw [split_frameAt x.tables room x.root hf low low']
    by_cases here : place gpa' 3 = place gpa 3
    case neg =>
      rw [if_neg here]
      exact h.frame gpa' low'
    by_cases missing : PdeAbsent t.mem X.eptPml4 gpa 4
    · exact .inr ⟨h.absent missing, here⟩
    · have none := x.leaf_of_present hf large missing here
      have hf' : tableAt t.mem X.eptPml4 gpa' 2 = some f := (tableAt_place (place_le (by omega) here)).trans hf
      have leaf : largePage (t.mem f (indexAt gpa' 2)) = true := by
        by_contra small
        have table := (x.tables.shaped.lowestEntry x.root hf').2 (by simpa using small)
        rw [none] at table
        cases table
      rw [if_pos here]
      have frame : frameAt t.mem X.eptPml4 gpa' = pageOf gpa' := by
        rw [frameAt, none, entryAt_eq hf']
        change pageFrameNumber2mb (t.mem f (indexAt gpa' 2)) ++ ptIndex gpa' = _
        rw [h.pdes gpa' _ low' (entryAt_eq hf') leaf, get_frame]
        rfl
      rw [← frame]
      exact h.frame gpa' low'

end Foresight

end LMalz.Ept
