import LMalz.Ept.Walk

/- What one recursion of set_pte does to the tables: a fresh page is hung into one entry. -/
namespace LMalz.Ept
open Function (update)
open PageTree (table entry graft Typed)

/-- The machine after `k` pages have been taken from the pool. -/
def Machine.withPages (s : Machine) (k : Nat) : Machine :=
  { s with limits := { s.limits with poolUsable := 0x1000 * k } }

def Machine.withMem (s : Machine) (m : Memory) : Machine := { s with mem := m }

/-- Killed because the pool does not hold `n` pages. -/
def Died {α : Type} (x : Outcome α) (s : Machine) (n : Nat) : Prop :=
  x = .killed ∧ s.limits.poolBigMemEnd < 0x1000 * (n : Int)

theorem Died.bind {α β : Type} {x : Outcome α} {s : Machine} {n : Nat} (h : Died x s n)
    (f : α → Outcome β) : Died (x >>= f) s n :=
  ⟨by rw [h.1, Outcome.killed_bind], h.2⟩

theorem Died.mono {α : Type} {x : Outcome α} {s t : Machine} {n n' : Nat} (h : Died x s n)
    (le : n ≤ n') (same : s.limits.poolBigMemEnd = t.limits.poolBigMemEnd) : Died x t n' :=
  ⟨h.1, by rw [← same]; have := h.2; omega⟩

/-- From `k` to `k'` pages at most `n` are taken, and nothing from the upper end of the pool. -/
structure Grown (s : Machine) (k : Nat) (s' : Machine) (k' n : Nat) : Prop where
  pages : k' ≤ k + n
  upper : s'.limits.poolBigMemEnd = s.limits.poolBigMemEnd

theorem Grown.trans {s t u : Machine} {k l m n n' : Nat} (h : Grown s k t l n)
    (h' : Grown t l u m n') : Grown s k u m (n + n') :=
  ⟨by have := h.pages; have := h'.pages; omega, h'.upper.trans h.upper⟩

/-- The tables, the places of their pages, and the `n` pool pages taken so far. -/
structure Tables (P : Platform) (s : Machine) (role : Frame → Option (List Index)) (n : Nat) :
    Prop where
  shaped : Shaped role s.mem
  bound : n ≤ poolPages
  usable : s.limits.poolUsable = 0x1000 * n
  top : Pool.InPool s.limits.poolBigMemEnd
  owned : ∀ f, role f ≠ none → ∃ k, k < n ∧ f = P.page k
  fresh : ∀ k, n ≤ k → k < poolPages → ∀ i, s.mem (P.page k) i = 0

theorem Tables.congr {P : Platform} {s t : Machine} {role : Frame → Option (List Index)} {n : Nat}
    (h : Tables P s role n) (mem : t.mem = s.mem) (limits : t.limits = s.limits) :
    Tables P t role n :=
  ⟨by rw [mem]; exact h.shaped, h.bound, by rw [limits]; exact h.usable,
    by rw [limits]; exact h.top, h.owned, by rw [mem]; exact h.fresh⟩

section Allocation
variable {P : Platform} {s : Machine} {role : Frame → Option (List Index)} {n : Nat}

/-- A request for a page either kills the machine or takes the next page. -/
theorem allocatePage_cases (usable : s.limits.poolUsable = 0x1000 * n)
    (top : Pool.InPool s.limits.poolBigMemEnd) (bound : n ≤ poolPages) :
    Died (allocatePage P s) s (n + 1) ∨
      n < poolPages ∧ allocatePage P s = .ok (P.page n, s.withPages (n + 1)) := by
  have size : Pool.poolSize = 0x1000 * poolPages := rfl
  have pages : poolPages = 2560 := rfl
  have inside := top.2
  rw [allocatePage, Pool.alHvMmAllocateMemory_page (by omega) (by omega)]
  by_cases room : s.limits.poolUsable + 0x1000 ≤ s.limits.poolBigMemEnd
  · right
    have index : (s.limits.poolUsable / 0x1000).toNat = n := by omega
    have next : s.limits.poolUsable + 0x1000 = 0x1000 * (n + 1 : Nat) := by omega
    rw [if_pos room]
    refine ⟨by omega, ?_⟩
    simp only [index, next]
    rfl
  · left
    rw [if_neg room]
    exact ⟨rfl, by omega⟩

theorem Tables.allocate (h : Tables P s role n) : Died (allocatePage P s) s (n + 1) ∨
    n < poolPages ∧ allocatePage P s = .ok (P.page n, s.withPages (n + 1)) :=
  allocatePage_cases h.usable h.top h.bound

theorem Tables.unplaced (h : Tables P s role n) {k : Nat} (new : n ≤ k) (inside : k < poolPages) :
    role (P.page k) = none := by
  by_contra placed
  obtain ⟨j, below, same⟩ := h.owned _ placed
  have bound := h.bound
  have := P.distinct k j inside (by omega) same
  omega

end Allocation

section Shape
variable {role : Frame → Option (List Index)} {m : Memory} {f q : Frame} {a : Index}
  {is : List Index} {e : Entry} {page : Index → Entry}

theorem Shaped.fill (h : Shaped role m) (hq : role q = none) : Shaped role (update m q page) := by
  have other : ∀ g js, role g = some js → update m q page g = m g := by
    intro g js hg
    refine Function.update_of_ne ?_ _ _
    rintro rfl
    rw [hg] at hq
    cases hq
  refine ⟨h.null, fun g l hg => ?_, fun g js b hg => ?_⟩
  · rw [other g _ hg]
    exact h.upper g l hg
  · rw [other g _ hg]
    exact h.below g js b hg

theorem Shaped.graft (h : Shaped role m) (hf : role f = some is) (hq : role q = none)
    (nonzero : q ≠ 0) (short : is.length < 3) (first : is = [] → a = 0)
    (small : largePage e = false) (hung : pageFrameNumber e = q)
    (content : is.length < 2 → ∀ b,
      (largePage (page b) = false ∧ role (pageFrameNumber (page b)) = some (is ++ [a] ++ [b])) ∨
        (is.length = 1 ∧ largePage (page b) = true)) :
    Shaped (update role q (some (is ++ [a]))) (graft m f a e q page) := by
  have qf : q ≠ f := by
    rintro rfl
    rw [hf] at hq
    cases hq
  have kept : ∀ {g js}, role g = some js → update role q (some (is ++ [a])) g = some js := by
    intro g js hg
    refine (Function.update_of_ne ?_ _ _).trans hg
    rintro rfl
    rw [hg] at hq
    cases hq
  refine ⟨?_, fun g l hg other => ?_, fun g js b hg deep top => ?_⟩
  · rw [Function.update_of_ne nonzero.symm]
    exact h.null
  · by_cases new : g = q
    · subst new
      simp at hg
    · rw [Function.update_of_ne new] at hg
      by_cases parent : g = f
      · subst parent
        obtain rfl : is = [] := Option.some.inj (hf.symm.trans hg)
        have sibling : l ≠ a := by
          rw [first rfl]
          exact other
        rw [PageTree.graft_sibling sibling]
        exact h.upper g l hg other
      · rw [PageTree.graft_frame parent new]
        exact h.upper g l hg other
  · by_cases new : g = q
    · subst new
      rw [Function.update_self] at hg
      obtain rfl := Option.some.inj hg
      rw [PageTree.graft_page qf]
      simp only [List.length_append, List.length_singleton] at deep ⊢
      rcases content (by omega) b with ⟨large, placed⟩ | ⟨one, large⟩
      · exact .inl ⟨large, kept placed⟩
      · exact .inr ⟨by omega, large⟩
    · rw [Function.update_of_ne new] at hg
      by_cases parent : g = f
      · subst parent
        obtain rfl : is = js := Option.some.inj (hf.symm.trans hg)
        by_cases here : b = a
        · subst here
          rw [PageTree.graft_entry, hung, Function.update_self]
          exact .inl ⟨small, rfl⟩
        · rw [PageTree.graft_sibling here]
          rcases h.below g is b hf deep top with ⟨large, placed⟩ | big
          · exact .inl ⟨large, kept placed⟩
          · exact .inr big
      · rw [PageTree.graft_frame parent new]
        rcases h.below g js b hg deep top with ⟨large, placed⟩ | big
        · exact .inl ⟨large, kept placed⟩
        · exact .inr big

end Shape

section Hang
variable {P : Platform} {s : Machine} {role : Frame → Option (List Index)} {n : Nat} {f : Frame}
  {a : Index} {is : List Index} {e : Entry} {page : Index → Entry}

/-- The next pool page hung into a table. -/
def Machine.hang (P : Platform) (s : Machine) (n : Nat) (f : Frame) (a : Index) (e : Entry)
    (page : Index → Entry) : Machine :=
  (s.withPages (n + 1)).withMem (graft s.mem f a e (P.page n) page)

/-- The code fills the new page first and writes the entry then. -/
theorem Machine.fill_store (apart : f ≠ P.page n) :
    ((s.withPages (n + 1)).fill (P.page n) page).store f a e = s.hang P n f a e page := by
  have kept : update s.mem (P.page n) page f = s.mem f := Function.update_of_ne apart _ _
  simp only [Machine.store, Machine.fill, Machine.hang, Machine.withMem, Machine.withPages, kept]
  rfl

def roleOfNew (P : Platform) (role : Frame → Option (List Index)) (n : Nat) (is : List Index) :
    Frame → Option (List Index) := update role (P.page n) (some is)

theorem Tables.hang (h : Tables P s role n) (room : n < poolPages) (hf : role f = some is)
    (short : is.length < 3) (first : is = [] → a = 0) (small : largePage e = false)
    (hung : pageFrameNumber e = P.page n)
    (content : is.length < 2 → ∀ b,
      (largePage (page b) = false ∧ role (pageFrameNumber (page b)) = some (is ++ [a] ++ [b])) ∨
        (is.length = 1 ∧ largePage (page b) = true)) :
    Tables P (s.hang P n f a e page) (roleOfNew P role n (is ++ [a])) (n + 1) where
  shaped := h.shaped.graft hf (h.unplaced (Nat.le_refl n) room) (P.nonzero n room) short first small
    hung content
  bound := room
  usable := rfl
  top := h.top
  owned := by
    intro g placed
    by_cases new : g = P.page n
    · exact ⟨n, by omega, new⟩
    · rw [roleOfNew, Function.update_of_ne new] at placed
      obtain ⟨k, below, same⟩ := h.owned g placed
      exact ⟨k, by omega, same⟩
  fresh := by
    intro k later inside i
    have notNew : P.page k ≠ P.page n := by
      intro same
      have := P.distinct k n inside room same
      omega
    have notTable : P.page k ≠ f := by
      rintro rfl
      rw [h.unplaced (by omega) inside] at hf
      cases hf
    change graft s.mem f a e (P.page n) page (P.page k) i = 0
    rw [PageTree.graft_frame notTable notNew]
    exact h.fresh k (by omega) inside i

end Hang

section Views
variable {P : Platform} {s : Machine} {role : Frame → Option (List Index)} {k n j : Nat}
  {f r : Frame} {gpa gpa' : BitVec 64} {e pte : Entry} {page : Index → Entry}

theorem place_succ_inj : place gpa' (j + 1) = place gpa (n + 1) ↔
    j = n ∧ place gpa' j = place gpa n ∧ indexAt gpa' j = indexAt gpa n := by
  constructor
  · intro same
    have lengths := congrArg List.length same
    rw [place_length, place_length] at lengths
    obtain ⟨above, last⟩ := List.append_inj' same rfl
    exact ⟨by omega, above, List.singleton_inj.mp last⟩
  · rintro ⟨-, above, last⟩
    rw [place, place, above, last]

theorem place_level (same : place gpa' j = place gpa n) : j = n := by
  have lengths := congrArg List.length same
  rwa [place_length, place_length] at lengths

variable (h : Tables P s role k) (room : k < poolPages) (hr : role r = some [])
  (hf : role f = some (place gpa n))
include h room hr hf

section Apart
variable (avoid : tableAt s.mem r gpa n ≠ some f)
include avoid

/-- A root that does not reach the edited table sees nothing of the edit. -/
theorem hang_tableAt_apart (deep : j ≤ 3) :
    tableAt (s.hang P k f (indexAt gpa n) e page).mem r gpa' j = tableAt s.mem r gpa' j :=
  PageTree.graft_table_unreached h.shaped.typed hr hf (h.unplaced (Nat.le_refl k) room) avoid
    (by rw [place_length]; omega)

theorem hang_entryAt_apart (deep : j ≤ 3) :
    entryAt (s.hang P k f (indexAt gpa n) e page).mem r gpa' j = entryAt s.mem r gpa' j :=
  PageTree.graft_entry_unreached h.shaped.typed hr hf (h.unplaced (Nat.le_refl k) room) avoid
    (by rw [place_length]; omega)

end Apart

variable (reach : tableAt s.mem r gpa n = some f) (small : largePage e = false)
  (hung : pageFrameNumber e = P.page k)
  (keeps : n + 1 < 3 → ∀ b, child (page b) =
    (child (s.mem f (indexAt gpa n))).bind fun c => child (s.mem c b))
include reach small hung keeps

theorem hang_tableAt (deep : j ≤ 3) :
    tableAt (s.hang P k f (indexAt gpa n) e page).mem r gpa' j =
      if place gpa' j = place gpa (n + 1) then some (P.page k) else tableAt s.mem r gpa' j := by
  have next : child e = some (P.page k) := child_eq_some.mpr ⟨small, hung, P.nonzero k room⟩
  exact PageTree.graft_table_reached h.shaped.typed hr hf (h.unplaced (Nat.le_refl k) room) reach
    next (by rw [place_length]; exact keeps) (by rw [place_length]; omega)

theorem hang_entryAt (deep : j ≤ 3) :
    entryAt (s.hang P k f (indexAt gpa n) e page).mem r gpa' j =
      if place gpa' (j + 1) = place gpa (n + 1) then some e
      else if place gpa' j = place gpa (n + 1) then some (page (indexAt gpa' j))
      else entryAt s.mem r gpa' j := by
  have next : child e = some (P.page k) := child_eq_some.mpr ⟨small, hung, P.nonzero k room⟩
  have reached := PageTree.graft_entry_reached (b := indexAt gpa' j) h.shaped.typed hr hf
    (h.unplaced (Nat.le_refl k) room) reach next (by rw [place_length]; exact keeps)
    (show (place gpa' j).length ≤ 3 by rw [place_length]; omega)
  refine reached.trans (if_congr ?_ rfl rfl)
  rw [place_succ_inj]
  exact ⟨fun both => ⟨place_level both.1, both⟩, fun all => all.2⟩

end Views

section Store
variable {P : Platform} {s : Machine} {role : Frame → Option (List Index)} {k j : Nat}
  {f r : Frame} {gpa gpa' : BitVec 64} {pte : Entry}

theorem Tables.store (h : Tables P s role k) (hf : role f = some (place gpa 3)) :
    Tables P (s.store f (ptIndex gpa) pte) role k := by
  have other : ∀ g is, role g = some is → is.length < 3 →
      (s.store f (ptIndex gpa) pte).mem g = s.mem g := by
    intro g is hg short
    refine Function.update_of_ne ?_ _ _
    rintro rfl
    rw [hf] at hg
    obtain rfl := Option.some.inj hg
    simp at short
  refine ⟨⟨h.shaped.null, fun g l hg => ?_, fun g is b hg short => ?_⟩, h.bound, h.usable, h.top,
    h.owned, fun i later inside b => ?_⟩
  · rw [other g _ hg (by simp)]
    exact h.shaped.upper g l hg
  · rw [other g _ hg short]
    exact h.shaped.below g is b hg short
  · have notTable : P.page i ≠ f := by
      rintro rfl
      rw [h.unplaced later inside] at hf
      cases hf
    exact (congrFun (Function.update_of_ne notTable _ _) b).trans (h.fresh i later inside b)

variable (h : Tables P s role k) (hr : role r = some []) (hf : role f = some (place gpa 3))
include h hr hf

theorem store_tableAt (deep : j ≤ 3) :
    tableAt (s.store f (ptIndex gpa) pte).mem r gpa' j = tableAt s.mem r gpa' j := by
  refine PageTree.table_congr fun js b ks split g hg => ?_
  have short : js.length < 3 := by
    have lengths := congrArg List.length split
    rw [place_length, List.length_append, List.length_cons] at lengths
    omega
  have placed := h.shaped.typed.role_table hr (by
    rw [List.length_nil]
    omega) hg
  refine congrFun (Function.update_of_ne ?_ _ _) b
  rintro rfl
  rw [hf] at placed
  obtain rfl := Option.some.inj placed
  simp at short

theorem store_entryAt (deep : j ≤ 3) :
    entryAt (s.store f (ptIndex gpa) pte).mem r gpa' j =
      if tableAt s.mem r gpa 3 = some f ∧ place gpa' (j + 1) = place gpa 4 then some pte
      else entryAt s.mem r gpa' j := by
  have kept : tableAt (s.store f (ptIndex gpa) pte).mem r gpa' j = tableAt s.mem r gpa' j :=
    store_tableAt h hr hf deep
  cases ht : tableAt s.mem r gpa' j with
  | none =>
      have outside : ¬ (tableAt s.mem r gpa 3 = some f ∧ place gpa' (j + 1) = place gpa 4) := by
        rintro ⟨reach, same⟩
        obtain ⟨rfl, above, -⟩ := place_succ_inj.mp same
        rw [tableAt, above] at ht
        rw [tableAt, ht] at reach
        cases reach
      rw [ht] at kept
      rw [if_neg outside, entryAt_none kept, entryAt_none ht]
  | some g =>
      rw [ht] at kept
      have placed := h.shaped.role_tableAt hr deep ht
      rw [entryAt_eq kept, entryAt_eq ht]
      by_cases here : g = f ∧ indexAt gpa' j = ptIndex gpa
      · obtain ⟨rfl, last⟩ := here
        have above : place gpa' j = place gpa 3 := Option.some.inj (placed.symm.trans hf)
        obtain rfl := place_level above
        have reach : tableAt s.mem r gpa 3 = some g := by
          rw [tableAt, ← above]
          exact ht
        rw [if_pos ⟨reach, place_succ_inj.mpr ⟨rfl, above, last⟩⟩]
        simp [Machine.store, last]
      · have outside : ¬ (tableAt s.mem r gpa 3 = some f ∧ place gpa' (j + 1) = place gpa 4) := by
          rintro ⟨reach, same⟩
          obtain ⟨rfl, above, last⟩ := place_succ_inj.mp same
          rw [tableAt, ← above] at reach
          exact here ⟨Option.some.inj (ht.symm.trans reach), last⟩
        rw [if_neg outside]
        congr 1
        rcases not_and_or.mp here with frame | index
        · exact congrFun (Function.update_of_ne frame _ _) _
        · by_cases frame : g = f
          · subst frame
            simp [Machine.store, index]
          · exact congrFun (Function.update_of_ne frame _ _) _

end Store

end LMalz.Ept
