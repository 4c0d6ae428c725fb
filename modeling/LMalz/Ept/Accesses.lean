import LMalz.Ept.Chains
import LMalz.Ept.Permissions

/- The walk of an address as the permissions of four levels and a frame, and what copies, splits
and new entries make of them. -/
namespace LMalz.Ept

/-- What the entry of a level allows. Below a 2MB page there is no entry, and nothing is
forbidden. -/
def accessAt (m : Memory) (r : Frame) (gpa : BitVec 64) (l : Nat) : Access :=
  ((entryAt m r gpa l).map access).getD .full

/-- The frame that the lowest entry of an address gives. -/
def frameAt (m : Memory) (r : Frame) (gpa : BitVec 64) : Frame :=
  match entryAt m r gpa 3, entryAt m r gpa 2 with
  | some pte, _ => pageFrameNumber pte
  | none, some pde => pageFrameNumber2mb pde ++ ptIndex gpa
  | none, none => 0

/-- What four levels allow together. A level that allows nothing ends the walk. -/
def allowed (a : Nat → Access) : Option Access :=
  if a 0 = .none ∨ a 1 = .none ∨ a 2 = .none ∨ a 3 = .none then none
  else some ((((a 0).meet (a 1)).meet (a 2)).meet (a 3))

section Levels
variable {a b : Nat → Access} {n : Nat}

theorem allowed_congr (same : ∀ l, l ≤ 3 → b l = a l) : allowed b = allowed a := by
  rw [allowed, allowed, same 0 (by omega), same 1 (by omega), same 2 (by omega), same 3 (by omega)]

theorem allowed_eq_none : allowed a = none ↔ ∃ l, l ≤ 3 ∧ a l = .none := by
  rw [allowed]
  constructor
  · intro blocked
    split at blocked
    · rename_i some
      rcases some with first | second | third | last
      · exact ⟨0, by omega, first⟩
      · exact ⟨1, by omega, second⟩
      · exact ⟨2, by omega, third⟩
      · exact ⟨3, by omega, last⟩
    · cases blocked
  · rintro ⟨l, deep, none⟩
    match l, deep with
    | 0, _ => exact if_pos (.inl none)
    | 1, _ => exact if_pos (.inr (.inl none))
    | 2, _ => exact if_pos (.inr (.inr (.inl none)))
    | 3, _ => exact if_pos (.inr (.inr (.inr none)))

/-- A permission that moves one level down, where nothing was forbidden, is still in force. -/
theorem allowed_moved (upper : n ≤ 2) (below : a (n + 1) = .full) (widened : b n = .full)
    (moved : b (n + 1) = a n) (rest : ∀ l, l ≤ 3 → l ≠ n → l ≠ n + 1 → b l = a l) :
    allowed b = allowed a := by
  have present : Access.full ≠ .none := by decide
  match n, upper with
  | 0, _ =>
      have second := rest 2 (by omega) (by omega) (by omega)
      have last := rest 3 (by omega) (by omega) (by omega)
      simp only [allowed, widened, moved, below, second, last, present, false_or,
        Access.full_meet, Access.meet_full]
  | 1, _ =>
      have first := rest 0 (by omega) (by omega) (by omega)
      have last := rest 3 (by omega) (by omega) (by omega)
      simp only [allowed, widened, moved, below, first, last, present, false_or,
        Access.meet_full]
  | 2, _ =>
      have first := rest 0 (by omega) (by omega) (by omega)
      have second := rest 1 (by omega) (by omega) (by omega)
      simp only [allowed, widened, moved, below, first, second, present, false_or, or_false,
        Access.meet_full]

end Levels

section Walk
variable {m : Memory} {role : Frame → Option (List Index)} {r f : Frame} {gpa gpa' : BitVec 64}
  {e : Entry} {l n : Nat}

theorem accessAt_eq (he : entryAt m r gpa l = some e) : accessAt m r gpa l = access e := by
  rw [accessAt, he]
  rfl

theorem accessAt_none (he : entryAt m r gpa l = none) : accessAt m r gpa l = .full := by
  rw [accessAt, he]
  rfl

theorem accessAt_congr {m' : Memory} (same : entryAt m' r gpa l = entryAt m r gpa l) :
    accessAt m' r gpa l = accessAt m r gpa l := by
  rw [accessAt, accessAt, same]

theorem frameAt_congr {m' : Memory} (pte : entryAt m' r gpa 3 = entryAt m r gpa 3)
    (pde : entryAt m' r gpa 2 = entryAt m r gpa 2) : frameAt m' r gpa = frameAt m r gpa := by
  rw [frameAt, frameAt, pte, pde]

theorem place_le {j : Nat} (le : j ≤ n) (same : place gpa' n = place gpa n) :
    place gpa' j = place gpa j := by
  induction n with
  | zero =>
      obtain rfl : j = 0 := by omega
      rfl
  | succ n ih =>
      by_cases last : j = n + 1
      · rw [last, same]
      · exact ih (by omega) (place_succ_inj.mp same).2.1

theorem entryAt_place (same : place gpa' (l + 1) = place gpa (l + 1)) :
    entryAt m r gpa' l = entryAt m r gpa l := by
  obtain ⟨-, above, index⟩ := place_succ_inj.mp same
  rw [entryAt, entryAt, above, index]

theorem accessAt_place (same : place gpa' (l + 1) = place gpa (l + 1)) :
    accessAt m r gpa' l = accessAt m r gpa l := by
  rw [accessAt, accessAt, entryAt_place same]

theorem tableAt_place (same : place gpa' l = place gpa l) : tableAt m r gpa' l = tableAt m r gpa l := by
  rw [tableAt, tableAt, same]

theorem Shaped.translation_allowed (h : Shaped role m) (hr : role r = some [])
    (low : Below512G gpa) : translation m r gpa =
      (allowed (accessAt m r gpa)).map fun a => (frameAt m r gpa, a) := by
  obtain ⟨e0, e1, e2, h0, h1, h2⟩ := h.entries hr low
  have present : Access.full ≠ .none := by decide
  rw [h.translation_eq hr low h0 h1 h2, leafOf, allowed, frameAt, accessAt_eq h0, accessAt_eq h1,
    accessAt_eq h2, h2]
  by_cases absent : access e0 = .none ∨ access e1 = .none ∨ access e2 = .none
  · rw [if_pos absent, if_pos (by rcases absent with h | h | h <;> simp [h])]
    rfl
  rw [if_neg absent]
  rw [not_or, not_or] at absent
  cases h3 : entryAt m r gpa 3 with
  | none =>
      rw [accessAt_none h3]
      simp only [absent, present, or_self, if_false, Option.map_some, Access.meet_full]
  | some pte =>
      rw [accessAt_eq h3]
      by_cases blocked : access pte = .none
      · simp only [blocked, if_true, or_true, Option.map_none]
      · simp only [absent, blocked, or_self, if_false, Option.map_some]

end Walk

section Edits
variable {P : Platform} {s : Machine} {role : Frame → Option (List Index)} {k l n : Nat}
  {gpa gpa' : BitVec 64} {r f g : Frame} {demo pte : Entry}

section Remap
variable (h : Tables P s role k) (room : k < poolPages) (hr : role r = some []) (upper : n ≤ 2)
  (hf : tableAt s.mem r gpa n = some f) (deeper : tableAt s.mem r gpa (n + 1) ≠ none)
include h room hr upper hf deeper

theorem remap_hung (here : place gpa' (n + 1) = place gpa (n + 1)) :
    ∃ e, entryAt (s.remap P k gpa n f).mem r gpa' n = some e ∧ access e = .full ∧
      largePage e = false := by
  refine ⟨_, (remap_entryAt (X := .root r 0) h room hr upper hf deeper (by omega)).trans (if_pos here),
    access_setAccess _ _, ?_⟩
  rw [largePage_setAccess, largePage_setPageFrameNumber]
  exact (child_tableAt hf deeper).1

/-- The entries of the copy are those of the table with another access. -/
theorem remap_copied (here : place gpa' (n + 1) = place gpa (n + 1)) :
    ∃ d, entryAt s.mem r gpa' (n + 1) = some d ∧
      entryAt (s.remap P k gpa n f).mem r gpa' (n + 1) = some (setAccess d (accessAt s.mem r gpa n)) := by
  obtain ⟨-, shared⟩ := child_tableAt hf deeper
  rw [← tableAt_place here] at shared
  refine ⟨_, entryAt_eq shared, ?_⟩
  have elsewhere : place gpa' (n + 1 + 1) ≠ place gpa (n + 1) := fun same =>
    absurd (place_level same) (by omega)
  rw [accessAt_eq (entryAt_eq hf)]
  exact (remap_entryAt (X := .root r 0) h room hr upper hf deeper (by omega)).trans
    ((if_neg elsewhere).trans (if_pos here))

theorem remap_elsewhere (deep : l ≤ 3) (above : place gpa' (l + 1) ≠ place gpa (n + 1))
    (off : place gpa' l ≠ place gpa (n + 1)) :
    entryAt (s.remap P k gpa n f).mem r gpa' l = entryAt s.mem r gpa' l :=
  (remap_entryAt (X := .root r 0) h room hr upper hf deeper deep).trans
    ((if_neg above).trans (if_neg off))

theorem remap_accessAt (deep : l ≤ 3) : accessAt (s.remap P k gpa n f).mem r gpa' l =
    if place gpa' (l + 1) = place gpa (n + 1) then .full
    else if place gpa' l = place gpa (n + 1) then accessAt s.mem r gpa n
    else accessAt s.mem r gpa' l := by
  by_cases above : place gpa' (l + 1) = place gpa (n + 1)
  · obtain ⟨rfl, -⟩ := place_succ_inj.mp above
    obtain ⟨e, he, full, -⟩ := remap_hung h room hr upper hf deeper above
    rw [if_pos above, accessAt_eq he, full]
  rw [if_neg above]
  by_cases here : place gpa' l = place gpa (n + 1)
  · obtain rfl := place_level here
    obtain ⟨d, -, copied⟩ := remap_copied h room hr upper hf deeper here
    rw [if_pos here, accessAt_eq copied, access_setAccess]
  · rw [if_neg here, accessAt_congr (remap_elsewhere h room hr upper hf deeper deep above here)]

theorem remap_frameAt : frameAt (s.remap P k gpa n f).mem r gpa' = frameAt s.mem r gpa' := by
  have notLeaf : place gpa' (3 + 1) ≠ place gpa (n + 1) := fun same =>
    absurd (place_level same) (by omega)
  by_cases leaf : place gpa' 3 = place gpa (n + 1)
  · obtain rfl : 2 = n := by have := place_level leaf; omega
    obtain ⟨d, hd, copied⟩ := remap_copied h room hr upper hf deeper leaf
    rw [frameAt, frameAt, hd, copied]
    exact pageFrameNumber_setAccess d _
  have last := remap_elsewhere h room hr upper hf deeper (Nat.le_refl 3) notLeaf leaf
  by_cases pde : place gpa' 2 = place gpa (n + 1)
  · obtain rfl : 1 = n := by have := place_level pde; omega
    obtain ⟨d, hd, copied⟩ := remap_copied h room hr upper hf deeper pde
    rw [frameAt, frameAt, last, hd, copied]
    cases entryAt s.mem r gpa' 3 with
    | some pte => rfl
    | none => exact congrArg (· ++ ptIndex gpa') (pageFrameNumber2mb_setAccess d _)
  · exact frameAt_congr last (remap_elsewhere h room hr upper hf deeper (by omega) leaf pde)

end Remap

section Split
variable (h : Tables P s role k) (room : k < poolPages) (hr : role r = some [])
  (hf : tableAt s.mem r gpa 2 = some f)
include h room hr hf

theorem split_accessAt (deep : l ≤ 3) : accessAt (s.split P k gpa f demo).mem r gpa' l =
    if place gpa' (l + 1) = place gpa 3 then .full
    else if place gpa' l = place gpa 3 then access demo
    else accessAt s.mem r gpa' l := by
  have entry : entryAt (s.split P k gpa f demo).mem r gpa' l = _ :=
    split_entryAt (X := .root r 0) h room hr hf demo deep
  rw [accessAt, entry, accessAt]
  by_cases above : place gpa' (l + 1) = place gpa 3
  · rw [if_pos above, if_pos above, Option.map_some, Option.getD_some, access_tableEntry]
  rw [if_neg above, if_neg above]
  by_cases here : place gpa' l = place gpa 3
  · rw [if_pos here, if_pos here, Option.map_some, Option.getD_some, demoPte, access_setMemoryType,
      access_setPageFrameNumber, access_setAccess]
  · rw [if_neg here, if_neg here]
    rfl

theorem split_frameAt (low : Below512G gpa) (low' : Below512G gpa') :
    frameAt (s.split P k gpa f demo).mem r gpa' =
      if place gpa' 3 = place gpa 3 then pageOf gpa' else frameAt s.mem r gpa' := by
  have notLeaf : place gpa' (3 + 1) ≠ place gpa 3 := fun same => absurd (place_level same) (by omega)
  have notPde : place gpa' 2 ≠ place gpa 3 := fun same => absurd (place_level same) (by omega)
  have entries : ∀ l, l ≤ 3 → entryAt (s.split P k gpa f demo).mem r gpa' l = _ := fun l deep =>
    split_entryAt (X := .root r 0) h room hr hf demo deep
  by_cases here : place gpa' 3 = place gpa 3
  · rw [frameAt, entries 3 (by omega), if_neg notLeaf, if_pos here, if_pos here]
    exact demoPte_frame low low' here
  · rw [if_neg here]
    exact frameAt_congr ((entries 3 (by omega)).trans ((if_neg notLeaf).trans (if_neg here)))
      ((entries 2 (by omega)).trans ((if_neg here).trans (if_neg notPde)))

end Split

/-- A new entry of a 4KB page changes nothing on the way of another page. -/
theorem store_other (h : Tables P s role k) (hr : role r = some []) (hg : role g = some (place gpa 3))
    (other : place gpa' 4 ≠ place gpa 4) (deep : l ≤ 3) :
    entryAt (s.store g (ptIndex gpa) pte).mem r gpa' l = entryAt s.mem r gpa' l := by
  rw [store_entryAt h hr hg deep]
  refine if_neg ?_
  rintro ⟨-, same⟩
  obtain rfl : 3 = l := by have := place_level same; omega
  exact other same

end Edits

end LMalz.Ept
