import LMalz.Lib.PageTree
import LMalz.Host.RebuildPath

/- Two trees of host tables that share pages, and what one call of ALhvMMrebuildPath does to
them. -/
namespace LMalz.Host
open Ept (Entry Frame Index Machine Platform Outcome allocatePage largePage pageFrameNumber
  setPageFrameNumber pml4Index pdptIndex pdIndex ptIndex flag poolPages Died)
open Function (update)

/-- The table that an entry points to. Bit 7 of a pml4e must be zero. -/
def next (e : Entry) : Option Frame :=
  if present e = true ∧ largePage e = false then some (pageFrameNumber e) else none

/-- `f` is a table of the tree with this root. -/
def Belongs (m : Memory) (root f : Frame) : Prop :=
  ∃ is, is.length ≤ 3 ∧ PageTree.table next m root is = some f

/-- Every table of the old and of the new tree has one place, the same in both: the new tree
began as a copy of entries of the old one. `n` pool pages are taken. -/
structure Forest (P : Platform) (old new : Frame) (role : Frame → Option (List Index)) (n : Nat)
    (s : Machine) : Prop where
  typed : PageTree.Typed next 3 role s.mem
  oldRoot : role old = some []
  newRoot : role new = some []
  apart : new ≠ old
  mustBeZero : ∀ f a, role f = some [] → present (s.mem f a) = true → largePage (s.mem f a) = false
  bound : n ≤ poolPages
  usable : s.limits.poolUsable = 0x1000 * n
  top : Pool.InPool s.limits.poolBigMemEnd
  fresh : ∀ i, n ≤ i → i < poolPages → role (P.page i) = none

/-- The tables are the same; pages without a place may differ. -/
def Same (role : Frame → Option (List Index)) (m m' : Memory) : Prop :=
  ∀ f, role f ≠ none → m' f = m f

/-- The tables on the way to an address that is not in a 1GB page. -/
structure Path (m : Memory) (root : Frame) (va : BitVec 64) (pdpt pd : Frame) : Prop where
  pml4e : present (m root (pml4Index va)) = true
  toPdpt : pageFrameNumber (m root (pml4Index va)) = pdpt
  pdpte : present (m pdpt (pdptIndex va)) = true
  small : largePage (m pdpt (pdptIndex va)) = false
  toPd : pageFrameNumber (m pdpt (pdptIndex va)) = pd

section Entries
variable {e : Entry} {q : Frame}

theorem next_of_present (here : present e = true) (small : largePage e = false) :
    next e = some (pageFrameNumber e) := if_pos ⟨here, small⟩

theorem next_of_large (large : largePage e = true) : next e = none :=
  if_neg fun both => by simp [large] at both

theorem next_eq_some {f : Frame} : next e = some f ↔
    present e = true ∧ largePage e = false ∧ pageFrameNumber e = f := by
  rw [next]
  split
  case isTrue both => simp [both]
  case isFalse other =>
    constructor
    · intro same
      cases same
    · rintro ⟨here, small, -⟩
      exact absurd ⟨here, small⟩ other

@[simp] theorem present_setPageFrameNumber : present (setPageFrameNumber e q) = present e :=
  Ept.flag_set_apart e q (.inr (by omega))

@[simp] theorem write_setPageFrameNumber : write (setPageFrameNumber e q) = write e :=
  Ept.flag_set_apart e q (.inr (by omega))

theorem setPageFrameNumber_self (same : pageFrameNumber e = q) : setPageFrameNumber e q = e := by
  rw [← same]
  exact BitField.set_get e 12 36

theorem setPageFrameNumber_set (p : Frame) :
    setPageFrameNumber (setPageFrameNumber e p) q = setPageFrameNumber e q :=
  BitField.set_set e 12 p q

theorem setPageFrameNumber_ne (other : pageFrameNumber e ≠ q) : setPageFrameNumber e q ≠ e := by
  intro same
  rw [← same, Ept.pageFrameNumber_setPageFrameNumber] at other
  exact other rfl

end Entries

section Getters
variable {m m' : Memory} {root pdpt pd : Frame} {va : BitVec 64}

theorem Path.getPdpte (h : Path m root va pdpt pd) :
    alHvMmGetPdpte m root va = m pdpt (pdptIndex va) := by
  rw [getPdpte_present h.pml4e, h.toPdpt]

theorem Path.getPde (h : Path m root va pdpt pd) : alHvMmGetPde m root va = m pd (pdIndex va) := by
  rw [getPde_present (by rw [h.getPdpte, h.pdpte]), h.getPdpte, h.toPd]

/-- A pdpte that the getter finds leads on. -/
theorem Path.of_pdpte (noGb : ¬ GbPage m root va) (here : present (alHvMmGetPdpte m root va) = true) :
    ∃ pdpt pd, Path m root va pdpt pd := by
  rcases top : present (m root (pml4Index va))
  · rw [getPdpte_absent top] at here
    cases here
  · rw [getPdpte_present top] at here
    refine ⟨_, _, top, rfl, here, ?_, rfl⟩
    by_contra large
    exact noGb ⟨top, here, by simpa using large⟩

end Getters

section Places
variable {P : Platform} {old new root pdpt pd : Frame} {role : Frame → Option (List Index)} {n : Nat}
  {s : Machine} {va : BitVec 64} {m : Memory}

theorem Forest.role_pdpt (h : Forest P old new role n s) (top : role root = some [])
    (here : present (s.mem root (pml4Index va)) = true) :
    role (pageFrameNumber (s.mem root (pml4Index va))) = some [pml4Index va] :=
  h.typed root [] _ _ top (by decide) (next_of_present here (h.mustBeZero _ _ top here))

theorem Forest.role_pd (h : Forest P old new role n s) (top : role root = some [])
    (path : Path s.mem root va pdpt pd) :
    role pdpt = some [pml4Index va] ∧ role pd = some [pml4Index va, pdptIndex va] := by
  have first : role pdpt = some [pml4Index va] := path.toPdpt ▸ h.role_pdpt top path.pml4e
  refine ⟨first, ?_⟩
  rw [← path.toPd]
  exact h.typed pdpt _ _ _ first (by simp) (next_of_present path.pdpte path.small)

theorem Forest.role_pt (h : Forest P old new role n s) (top : role root = some [])
    (path : Path s.mem root va pdpt pd) (here : present (s.mem pd (pdIndex va)) = true)
    (small : largePage (s.mem pd (pdIndex va)) = false) :
    role (pageFrameNumber (s.mem pd (pdIndex va))) =
      some [pml4Index va, pdptIndex va, pdIndex va] :=
  h.typed pd _ _ _ (h.role_pd top path).2 (by simp) (next_of_present here small)

theorem Path.congr (h : Forest P old new role n s) (top : role root = some [])
    (path : Path s.mem root va pdpt pd) (same : Same role s.mem m) : Path m root va pdpt pd := by
  have atRoot : m root = s.mem root := same root (by simp [top])
  have atPdpt : m pdpt = s.mem pdpt := same pdpt (by simp [(h.role_pd top path).1])
  refine ⟨?_, ?_, ?_, ?_, ?_⟩
  · rw [atRoot]
    exact path.pml4e
  · rw [atRoot]
    exact path.toPdpt
  · rw [atPdpt]
    exact path.pdpte
  · rw [atPdpt]
    exact path.small
  · rw [atPdpt]
    exact path.toPd

theorem Forest.getPdpte_congr (h : Forest P old new role n s) (top : role root = some [])
    (same : Same role s.mem m) : alHvMmGetPdpte m root va = alHvMmGetPdpte s.mem root va := by
  have atRoot : m root = s.mem root := same root (by simp [top])
  rcases here : present (s.mem root (pml4Index va))
  · rw [getPdpte_absent here, getPdpte_absent (by rw [atRoot, here])]
  · have place := h.role_pdpt top here
    rw [getPdpte_present here, getPdpte_present (by rw [atRoot, here]), atRoot,
      same _ (by simp [place])]

end Places

/-- The memory with a table copied to a page, if it is shared. -/
def withCopy (m : Memory) (shared : Prop) [Decidable shared] (page f : Frame) : Memory :=
  if shared then update m page (m f) else m

theorem withCopy_source {m : Memory} {shared : Prop} [Decidable shared] {page f : Frame} :
    withCopy m shared page f f = m f := by
  unfold withCopy
  split
  · by_cases same : f = page
    · rw [same, Function.update_self]
    · rw [Function.update_of_ne same]
  · rfl

/-- What a call to copy a table leaves: `page` is a fresh pool page with the contents of `f`, or
there is none because the table is not shared. The page is one of those from `a` on, below `b`. -/
structure Copied (P : Platform) (role : Frame → Option (List Index)) (m u : Memory) (shared : Prop)
    (f : Frame) (a b : Nat) (page : Option Frame) : Prop where
  made : page.isSome = true ↔ shared
  unplaced : ∀ q, page = some q → role q = none
  contents : ∀ q, page = some q → u q = m f
  pool : ∀ q, page = some q → ∃ i, a ≤ i ∧ i < b ∧ i < poolPages ∧ q = P.page i

section Copies
variable {P : Platform} {old new f g : Frame} {role : Frame → Option (List Index)} {n n' : Nat}
  {s t : Machine} {m m' u u' : Memory} {shared shared' : Prop} {a b c d : Nat}
  {page page' : Option Frame}

theorem Same.refl (role : Frame → Option (List Index)) (m : Memory) : Same role m m :=
  fun _ _ => rfl

theorem Same.trans (h : Same role m u) (h' : Same role u u') : Same role m u' :=
  fun f placed => (h' f placed).trans (h f placed)

theorem Copied.apart (h : Copied P role m u shared f a b page)
    (h' : Copied P role m' u' shared' g b c page') {q q' : Frame} (hq : page = some q)
    (hq' : page' = some q') : q ≠ q' := by
  obtain ⟨i, _, below, inside, rfl⟩ := h.pool q hq
  obtain ⟨j, above, _, inside', rfl⟩ := h'.pool q' hq'
  exact P.page_ne inside inside' (by omega)

theorem Copied.later (h : Copied P role m u shared f a b page)
    (kept : ∀ i, i < b → i < poolPages → u' (P.page i) = u (P.page i)) :
    Copied P role m u' shared f a b page := by
  refine ⟨h.made, h.unplaced, fun q hq => ?_, h.pool⟩
  obtain ⟨i, _, below, inside, rfl⟩ := h.pool q hq
  rw [kept i below inside]
  exact h.contents _ hq

/-- Pages without a place do not matter, and pages of the pool may have been taken. -/
theorem Forest.same (h : Forest P old new role n s) (same : Same role s.mem t.mem) (grown : n ≤ n')
    (bound : n' ≤ poolPages) (usable : t.limits.poolUsable = 0x1000 * n')
    (top : t.limits.poolBigMemEnd = s.limits.poolBigMemEnd) : Forest P old new role n' t := by
  refine ⟨fun f' is a g' hf' short child => ?_, h.oldRoot, h.newRoot, h.apart,
    fun f' a top here => ?_, bound, usable, top ▸ h.top, fun i hi inside => h.fresh i (by omega) inside⟩
  · rw [same f' (by simp [hf'])] at child
    exact h.typed f' is a g' hf' short child
  · rw [same f' (by simp [top])] at here ⊢
    exact h.mustBeZero f' a top here

/-- copyShared on a table of the forest, or on a page of data. -/
theorem Forest.copyShared (h : Forest P old new role n s)
    (done : copyShared P f g s = .ok (page, t)) : ∃ n', n' = n + (if g = f then 1 else 0) ∧
      Forest P old new role n' t ∧ Same role s.mem t.mem ∧
      (∀ i, i < n → i < poolPages → t.mem (P.page i) = s.mem (P.page i)) ∧
      t.mem = withCopy s.mem (g = f) (P.page n) g ∧
      Copied P role s.mem t.mem (g = f) g n n' page := by
  unfold Host.copyShared at done
  by_cases shared : g = f
  case neg =>
    rw [if_neg shared] at done
    cases done
    refine ⟨n, by rw [if_neg shared]; rfl, h, Same.refl _ _, fun _ _ _ => rfl, ?_, by simpa using shared,
      nofun, nofun, nofun⟩
    rw [withCopy, if_neg shared]
  rw [if_pos shared] at done
  rcases Ept.allocatePage_cases (P := P) h.usable h.top h.bound with died | ⟨room, took⟩
  · rw [died.1] at done
    cases done
  rw [took] at done
  obtain ⟨rfl, mem, limits⟩ : page = some (P.page n) ∧
      t.mem = update s.mem (P.page n) (s.mem g) ∧ t.limits = (s.withPages (n + 1)).limits := by
    cases done
    exact ⟨rfl, rfl, rfl⟩
  have unplaced : role (P.page n) = none := h.fresh n (Nat.le_refl n) room
  have kept : ∀ f', f' ≠ P.page n → t.mem f' = s.mem f' := by
    intro f' ne
    rw [mem, Function.update_of_ne ne]
  have same : Same role s.mem t.mem := by
    refine fun f' place => kept f' ?_
    rintro rfl
    exact place unplaced
  refine ⟨n + 1, by rw [if_pos shared], h.same same (Nat.le_succ n) room (by rw [limits]; rfl)
    (by rw [limits]; rfl), same, fun i below inside => kept _ (P.page_ne inside room (by omega)), ?_,
    by simpa using shared, fun q hq => ?_, fun q hq => ?_, fun q hq => ?_⟩
  · rw [mem, withCopy, if_pos shared]
  · cases hq
    exact unplaced
  · cases hq
    rw [mem, Function.update_self]
  · cases hq
    exact ⟨n, Nat.le_refl n, Nat.lt_succ_self n, room, rfl⟩

end Copies

/-- An entry that is led to a copy, where there is one. -/
def hang (page : Option Frame) (f : Frame) (a : Index) (e : Entry) (s : Machine) : Machine :=
  match page with
  | some q => s.store f a (setPageFrameNumber e q)
  | none => s

section Links
variable {P : Platform} {old new root f g pdpt pd q : Frame} {role : Frame → Option (List Index)}
  {n : Nat} {s t : Machine} {va : BitVec 64} {a b : Index} {e v pde pdpte : Entry}
  {page ptNew pdtNew pdptNew : Option Frame} {is : List Index}

theorem store_graft :
    (s.store f a e).mem = PageTree.graft s.mem f a e q (s.mem q) := by
  rw [PageTree.graft, Function.update_eq_self]
  rfl

theorem store_frame (other : g ≠ f) : (s.store f a e).mem g = s.mem g := Function.update_of_ne other _ _

theorem store_here : (s.store f a e).mem f a = e := by
  simp [Machine.store]

theorem store_sibling (other : b ≠ a) : (s.store f a e).mem f b = s.mem f b := by
  simp [Machine.store, other]

theorem store_self : s.store f a (s.mem f a) = s := by
  simp only [Machine.store, Function.update_eq_self]

theorem store_store : (s.store f a e).store f a v = s.store f a v := by
  simp only [Machine.store, Function.update_self, Function.update_idem]

theorem store_comm (other : f ≠ g ∨ a ≠ b) :
    (s.store f a e).store g b v = (s.store g b v).store f a e := by
  by_cases frame : f = g
  · subst frame
    have index : a ≠ b := other.resolve_left fun ne => ne rfl
    simp only [Machine.store, Function.update_self, Function.update_idem,
      Function.update_comm index]
  · simp only [Machine.store, Function.update_of_ne frame, Function.update_of_ne (Ne.symm frame),
      Function.update_comm frame]

theorem Forest.store_unplaced (h : Forest P old new role n s) (free : role f = none) :
    Forest P old new role n (s.store f a v) := by
  refine h.same (fun g placed => store_frame ?_) (Nat.le_refl n) h.bound h.usable rfl
  rintro rfl
  exact placed free

theorem Forest.store_leaf (h : Forest P old new role n s) (notRoot : role f ≠ some [])
    (leaf : next v = none) : Forest P old new role n (s.store f a v) := by
  refine ⟨fun g is b c place short child => ?_, h.oldRoot, h.newRoot, h.apart, fun g b top here => ?_,
    h.bound, h.usable, h.top, h.fresh⟩
  · by_cases frame : g = f
    · subst frame
      by_cases index : b = a
      · subst index
        rw [store_here, leaf] at child
        cases child
      · rw [store_sibling index] at child
        exact h.typed g is b c place short child
    · rw [store_frame frame] at child
      exact h.typed g is b c place short child
  · have frame : g ≠ f := by
      rintro rfl
      exact notRoot top
    rw [store_frame frame] at here ⊢
    exact h.mustBeZero g b top here

theorem hang_frame (other : g ≠ f) : (hang page f a e s).mem g = s.mem g := by
  cases page with
  | none => rfl
  | some q => exact store_frame other

theorem store_other (other : g ≠ f ∨ b ≠ a) : (s.store f a e).mem g b = s.mem g b := by
  by_cases frame : g = f
  · subst frame
    exact store_sibling (other.resolve_left fun ne => ne rfl)
  · exact congrFun (store_frame frame) b

theorem hang_apart (other : g ≠ f ∨ b ≠ a) : (hang page f a e s).mem g b = s.mem g b := by
  cases page with
  | none => rfl
  | some q => exact store_other other

theorem Path.setPdpte (path : Path s.mem root va pdpt pd) :
    (alHvMmSetPdpte root va v s).2 = s.store pdpt (pdptIndex va) v := by
  rw [← path.toPdpt]
  simp [alHvMmSetPdpte, alHvMmGetPml4e, path.pml4e]

theorem Path.setPde (path : Path s.mem root va pdpt pd) :
    (alHvMmSetPde root va v s).2 = s.store pd (pdIndex va) v := by
  have atPdpte := path.getPdpte
  simp [alHvMmSetPde, atPdpte, path.pdpte, path.toPd]

theorem Path.hang (path : Path s.mem root va pdpt pd) (rootPd : root ≠ pd) (pdptPd : pdpt ≠ pd) :
    Path (hang page pd a e s).mem root va pdpt pd := by
  refine ⟨?_, ?_, ?_, ?_, ?_⟩
  · rw [hang_frame rootPd]
    exact path.pml4e
  · rw [hang_frame rootPd]
    exact path.toPdpt
  · rw [hang_frame pdptPd]
    exact path.pdpte
  · rw [hang_frame pdptPd]
    exact path.small
  · rw [hang_frame pdptPd]
    exact path.toPd

/-- Where the setters write. -/
theorem Path.relink (path : Path s.mem root va pdpt pd) (rootPd : root ≠ pd) (rootPdpt : root ≠ pdpt)
    (pdptPd : pdpt ≠ pd) : relink root va pde pdpte ptNew pdtNew pdptNew s =
      Host.hang pdptNew root (pml4Index va) (s.mem root (pml4Index va))
        (Host.hang pdtNew pdpt (pdptIndex va) pdpte (Host.hang ptNew pd (pdIndex va) pde s)) := by
  have path' : Path (Host.hang ptNew pd (pdIndex va) pde s).mem root va pdpt pd :=
    path.hang rootPd pdptPd
  cases ptNew with
  | none =>
      cases pdtNew with
      | none => cases pdptNew <;> rfl
      | some pdt =>
          cases pdptNew with
          | none => simp only [Host.relink, Host.hang, path.setPdpte]
          | some q => simp only [Host.relink, Host.hang, path.setPdpte, store_frame rootPdpt]
  | some pt =>
      cases pdtNew with
      | none =>
          cases pdptNew with
          | none => simp only [Host.relink, Host.hang, path.setPde]
          | some q => simp only [Host.relink, Host.hang, path.setPde, store_frame rootPd]
      | some pdt =>
          simp only [Host.hang] at path'
          cases pdptNew with
          | none => simp only [Host.relink, Host.hang, path.setPde, path'.setPdpte]
          | some q =>
              simp only [Host.relink, Host.hang, path.setPde, path'.setPdpte, store_frame rootPdpt,
                store_frame rootPd]

/-- A copy that is hung in takes the place of the table it was copied from. -/
theorem Forest.hang (h : Forest P old new role n s) (page : Option Frame) (a : Index) (e : Entry)
    (placed : role f = some is)    (small : is = [] → largePage e = false)
    (unplaced : ∀ q, page = some q → role q = none)
    (pool : ∀ q, page = some q → ∃ i, i < n ∧ i < poolPages ∧ q = P.page i)
    (content : ∀ q, page = some q → is.length + 1 < 3 → ∀ b g, next (s.mem q b) = some g →
      role g = some (is ++ [a] ++ [b])) :
    ∃ role', Forest P old new role' n (Host.hang page f a e s) ∧
      (∀ g js, role g = some js → role' g = some js) ∧
      (∀ g, role g = none → page ≠ some g → role' g = none) := by
  cases page with
  | none => exact ⟨role, h, fun _ _ place => place, fun _ place _ => place⟩
  | some q =>
      have free := unplaced q rfl
      obtain ⟨i, below, inside, rfl⟩ := pool q rfl
      have qf : P.page i ≠ f := by
        intro same
        rw [same, placed] at free
        cases free
      have keep : ∀ g js, role g = some js → g ≠ P.page i := by
        rintro g js place rfl
        rw [free] at place
        cases place
      refine ⟨update role (P.page i) (some (is ++ [a])), ⟨?_, ?_, ?_, h.apart, ?_, h.bound, h.usable,
        h.top, ?_⟩, ?_, ?_⟩
      · rw [Host.hang, store_graft (q := P.page i)]
        refine h.typed.graft placed free ?_ (content _ rfl)
        intro g child
        obtain ⟨-, -, rfl⟩ := next_eq_some.mp child
        exact Ept.pageFrameNumber_setPageFrameNumber _ _
      · rw [Function.update_of_ne (keep _ _ h.oldRoot)]
        exact h.oldRoot
      · rw [Function.update_of_ne (keep _ _ h.newRoot)]
        exact h.newRoot
      · intro f' b top here
        have other : f' ≠ P.page i := by
          rintro rfl
          rw [Function.update_self] at top
          simp at top
        rw [Function.update_of_ne other] at top
        by_cases same : f' = f ∧ b = a
        · obtain ⟨rfl, rfl⟩ := same
          rw [placed] at top
          rw [Host.hang, store_here, Ept.largePage_setPageFrameNumber]
          exact small (Option.some.inj top)
        · have kept : (Host.hang (some (P.page i)) f a e s).mem f' b = s.mem f' b := by
            by_cases frame : f' = f
            · subst frame
              exact store_sibling fun index => same ⟨rfl, index⟩
            · rw [hang_frame frame]
          rw [kept] at here ⊢
          exact h.mustBeZero f' b top here
      · intro j above inside'
        rw [Function.update_of_ne (P.page_ne inside' inside (by omega))]
        exact h.fresh j above inside'
      · intro g js place
        rw [Function.update_of_ne (keep g js place)]
        exact place
      · intro g place other
        rw [Function.update_of_ne fun same => other (by rw [same])]
        exact place

theorem hang_store (other : f ≠ g ∨ a ≠ b) :
    (hang page f a e s).store g b v = hang page f a e (s.store g b v) := by
  cases page with
  | none => rfl
  | some q => exact store_comm other

/-- A 1GB page that is moved. -/
theorem Forest.hang_leaf (h : Forest P old new role n s) (notRoot : role f ≠ some [])
    (large : largePage e = true) : Forest P old new role n (Host.hang page f a e s) := by
  cases page with
  | none => exact h
  | some q =>
      refine h.store_leaf notRoot (next_of_large ?_)
      rw [Ept.largePage_setPageFrameNumber, large]

/-- An entry is led to a copy of the page it pointed to. -/
theorem Forest.store_copy (h : Forest P old new role n s) (entry : role f ≠ none → s.mem f a = e)
    (here : present e = true) (small : largePage e = false) (free : role q = none)
    (pool : ∃ i, i < n ∧ i < poolPages ∧ q = P.page i)
    (copy : ∀ is, role f = some is → is.length < 3 → s.mem q = s.mem (pageFrameNumber e)) :
    ∃ role', Forest P old new role' n (s.store f a (setPageFrameNumber e q)) ∧
      (∀ g js, role g = some js → role' g = some js) ∧
      (∀ g, role g = none → g ≠ q → role' g = none) := by
  cases placed : role f with
  | none => exact ⟨role, h.store_unplaced placed, fun _ _ place => place, fun _ place _ => place⟩
  | some is =>
      have atF : s.mem f a = e := entry (by simp [placed])
      obtain ⟨role', forest, keep, out⟩ := h.hang (some q) a e placed (fun _ => small)
        (fun g hg => Option.some.inj hg ▸ free) (fun g hg => Option.some.inj hg ▸ pool)
        (fun g hg short b c child => by
          obtain rfl := Option.some.inj hg
          rw [copy is placed (by omega)] at child
          exact h.typed _ _ b c (h.typed f is a _ placed (by omega) (by rw [atF]; exact next_of_present here small))
            (by simpa using short) child)
      exact ⟨role', forest, keep, fun g free' other => out g free' fun same =>
        other (Option.some.inj same).symm⟩

end Links

section Walks
variable {P : Platform} {old new root pdpt pd f : Frame} {role : Frame → Option (List Index)} {n : Nat}
  {s : Machine} {m m' : Memory} {va : BitVec 64} {js : List Index} {a : Index} {e : Entry}

/-- Two entries that the processor reads alike; one may lead to a copy of the table, or to another
frame of the same GB. -/
def Alike (depth : Nat) (e e' : Entry) : Prop :=
  e' = e ∨ (depth < 3 ∧ largePage e = false ∧ ∃ q, e' = setPageFrameNumber e q) ∨
    (depth = 1 ∧ largePage e = true ∧ pageFrameNumber1gb e' = pageFrameNumber1gb e ∧
      ∃ q, e' = setPageFrameNumber e q)

theorem Alike.flags {depth : Nat} {e e' : Entry} (h : Alike depth e e') :
    present e' = present e ∧ write e' = write e ∧ largePage e' = largePage e := by
  rcases h with rfl | ⟨-, -, q, rfl⟩ | ⟨-, -, -, q, rfl⟩
  · exact ⟨rfl, rfl, rfl⟩
  · exact ⟨present_setPageFrameNumber, write_setPageFrameNumber, Ept.largePage_setPageFrameNumber _ _⟩
  · exact ⟨present_setPageFrameNumber, write_setPageFrameNumber, Ept.largePage_setPageFrameNumber _ _⟩

theorem Alike.eq_of_large {depth : Nat} {e e' : Entry} (h : Alike depth e e') (deep : depth ≠ 1)
    (large : largePage e = true) : e' = e := by
  rcases h with same | ⟨-, small, -⟩ | ⟨one, -⟩
  · exact same
  · rw [large] at small
    cases small
  · exact absurd one deep

theorem Alike.gb {depth : Nat} {e e' : Entry} (h : Alike depth e e') (large : largePage e = true) :
    pageFrameNumber1gb e' = pageFrameNumber1gb e := by
  rcases h with rfl | ⟨-, small, -⟩ | ⟨-, -, same, -⟩
  · rfl
  · rw [large] at small
    cases small
  · exact same

theorem Alike.eq_of_deep {e e' : Entry} (h : Alike 3 e e') : e' = e := by
  rcases h with same | ⟨shallow, -⟩ | ⟨one, -⟩
  · exact same
  · exact absurd shallow (Nat.lt_irrefl 3)
  · cases one

theorem entry_of_table (reach : PageTree.table next m root js = some f) (a : Index) :
    PageTree.entry next m root js a = some (m f a) := by
  rw [PageTree.entry, reach, Option.map_some]

theorem table_of_entry (entry : PageTree.entry next m root js a = some e) (here : present e = true)
    (small : largePage e = false) :
    PageTree.table next m root (js ++ [a]) = some (pageFrameNumber e) := by
  obtain ⟨f, reach, rfl⟩ := Option.map_eq_some_iff.mp entry
  rw [PageTree.table_snoc, reach, Option.bind_some, next_of_present here small]

/-- Trees with entries that are alike translate alike. -/
theorem walk_congr
    (mustBeZero : present (m root (pml4Index va)) = true → largePage (m root (pml4Index va)) = false)
    (alike : ∀ js a e, js.length ≤ 3 → PageTree.entry next m root js a = some e →
      ∃ e', PageTree.entry next m' root js a = some e' ∧ Alike js.length e e') :
    walk m' root va = walk m root va := by
  have step : ∀ js f f', js.length ≤ 3 → PageTree.table next m root js = some f →
      PageTree.table next m' root js = some f' → ∀ a, Alike js.length (m f a) (m' f' a) := by
    intro js f f' short reach reach' a
    obtain ⟨e', entry, like⟩ := alike js a _ short (entry_of_table reach a)
    rw [entry_of_table reach'] at entry
    rw [Option.some.inj entry]
    exact like
  have descend : ∀ js f f' a, js.length ≤ 3 → PageTree.table next m root js = some f →
      PageTree.table next m' root js = some f' → present (m f a) = true → largePage (m f a) = false →
      PageTree.table next m root (js ++ [a]) = some (pageFrameNumber (m f a)) ∧
        PageTree.table next m' root (js ++ [a]) = some (pageFrameNumber (m' f' a)) := by
    intro js f f' a short reach reach' here small
    obtain ⟨present', -, large'⟩ := (step js f f' short reach reach' a).flags
    exact ⟨table_of_entry (entry_of_table reach a) here small,
      table_of_entry (entry_of_table reach' a) (present'.trans here) (large'.trans small)⟩
  unfold walk
  have like0 := step [] root root (by decide) rfl rfl (pml4Index va)
  simp only [like0.flags.1, like0.flags.2.1]
  rcases here0 : present (m root (pml4Index va))
  · rw [if_pos rfl, if_pos rfl]
  obtain ⟨r1, r1'⟩ := descend [] root root _ (by decide) rfl rfl here0 (mustBeZero here0)
  have like1 := step _ _ _ (by simp) r1 r1' (pdptIndex va)
  simp only [like1.flags.1, like1.flags.2.1, like1.flags.2.2]
  rcases here1 : present (m (pageFrameNumber (m root (pml4Index va))) (pdptIndex va))
  · rw [if_pos rfl, if_pos rfl]
  rcases large1 : largePage (m (pageFrameNumber (m root (pml4Index va))) (pdptIndex va))
  case true =>
    simp only [like1.gb large1, Bool.true_eq_false, if_true, if_false]
  obtain ⟨r2, r2'⟩ := descend _ _ _ _ (by simp) r1 r1' here1 large1
  have like2 := step _ _ _ (by simp) r2 r2' (pdIndex va)
  simp only [like2.flags.1, like2.flags.2.1, like2.flags.2.2, Bool.true_eq_false, Bool.false_eq_true,
    if_false]
  generalize m (pageFrameNumber (m root (pml4Index va))) (pdptIndex va) = pdpte at *
  generalize m' (pageFrameNumber (m' root (pml4Index va))) (pdptIndex va) = pdpte' at *
  rcases here2 : present (m (pageFrameNumber pdpte) (pdIndex va))
  · rw [if_pos rfl, if_pos rfl]
  rcases large2 : largePage (m (pageFrameNumber pdpte) (pdIndex va))
  case true =>
    simp only [like2.eq_of_large (by simp) large2, Bool.true_eq_false, if_true, if_false]
  obtain ⟨r3, r3'⟩ := descend _ _ _ _ (by simp) r2 r2' here2 large2
  have like3 := step _ _ _ (by simp) r3 r3' (ptIndex va)
  simp only [like3.eq_of_deep, Bool.true_eq_false, Bool.false_eq_true, if_false]

/-- The second memory has the tables of the tree as they are in the first. -/
def Agree (root : Frame) (m m' : Memory) : Prop := ∀ f, Belongs m root f → m' f = m f

theorem Agree.table (h : Agree root m m') (short : js.length ≤ 4) :
    PageTree.table next m' root js = PageTree.table next m root js := by
  refine PageTree.table_congr fun ks b ls split g reach => ?_
  have bound : ks.length ≤ 3 := by
    rw [split, List.length_append, List.length_cons] at short
    omega
  rw [h g ⟨ks, bound, reach⟩]

theorem Agree.belongs (h : Agree root m m') : Belongs m' root f ↔ Belongs m root f := by
  refine exists_congr fun js => and_congr_right fun short => ?_
  rw [h.table (by omega)]

theorem Agree.entry (h : Agree root m m') (short : js.length ≤ 3) :
    PageTree.entry next m' root js a = PageTree.entry next m root js a := by
  rw [PageTree.entry, PageTree.entry, h.table (by omega)]
  cases reach : PageTree.table next m root js with
  | none => rfl
  | some f => rw [Option.map_some, Option.map_some, h f ⟨js, short, reach⟩]

theorem Agree.walk (h : Agree root m m')
    (mustBeZero : present (m root (pml4Index va)) = true → largePage (m root (pml4Index va)) = false) :
    walk m' root va = walk m root va := by
  refine Host.walk_congr mustBeZero fun js a e short entry => ⟨e, ?_, .inl rfl⟩
  rw [h.entry short, entry]

theorem Agree.store {t : Machine} {v : Entry} (outside : ¬ Belongs t.mem root f) :
    Agree root t.mem (t.store f a v).mem := by
  refine fun g belongs => store_frame ?_
  rintro rfl
  exact outside belongs

theorem Forest.role_table (h : Forest P old new role n s) (top : role root = some [])
    (short : js.length ≤ 3) (reach : PageTree.table next s.mem root js = some f) :
    role f = some js := by
  have place : role f = some ([] ++ js) := h.typed.role_table top (by simpa using short) reach
  rwa [List.nil_append] at place

theorem Forest.placed (h : Forest P old new role n s) (top : role root = some [])
    (belongs : Belongs s.mem root f) : role f ≠ none := by
  obtain ⟨js, short, reach⟩ := belongs
  simp [h.role_table top short reach]

theorem Forest.agree (h : Forest P old new role n s) (top : role root = some [])
    (same : Same role s.mem m) : Agree root s.mem m := fun f belongs => same f (h.placed top belongs)

end Walks

section Replace
variable {P : Platform} {old new f g q : Frame} {role : Frame → Option (List Index)} {n : Nat}
  {u : Machine} {va : BitVec 64} {is js : List Index} {a : Index}
  (h : Forest P old new role n u) (placed : role f = some is) (free : role q = none)
include h placed free

section Avoided
variable (avoid : PageTree.table next u.mem old is ≠ some f)
include avoid

omit free in
/-- The old tree does not have the table that is written. -/
theorem Forest.store_untouched (belongs : Belongs u.mem old g) :
    (u.store f a (setPageFrameNumber (u.mem f a) q)).mem g = u.mem g := by
  obtain ⟨js, short, reach⟩ := belongs
  refine store_frame ?_
  rintro rfl
  have place := h.role_table h.oldRoot short reach
  rw [placed] at place
  obtain rfl := Option.some.inj place
  exact avoid reach

theorem Forest.store_belongs :
    Belongs (u.store f a (setPageFrameNumber (u.mem f a) q)).mem old g ↔ Belongs u.mem old g := by
  refine exists_congr fun js => and_congr_right fun short => ?_
  rw [store_graft (q := q),
    PageTree.graft_table_unreached h.typed h.oldRoot placed free avoid (by omega)]

end Avoided

section Reached
variable (reach : PageTree.table next u.mem new is = some f) (shallow : is.length < 3)
  (here : present (u.mem f a) = true) (small : largePage (u.mem f a) = false)
  (copy : u.mem q = u.mem (pageFrameNumber (u.mem f a)))
include reach shallow here small copy

omit shallow in
theorem Forest.store_table (short : js.length ≤ 3) :
    PageTree.table next (u.store f a (setPageFrameNumber (u.mem f a) q)).mem new js =
      if js = is ++ [a] then some q else PageTree.table next u.mem new js := by
  rw [store_graft (q := q)]
  refine PageTree.graft_table_reached h.typed h.newRoot placed free reach ?_ ?_ short
  · rw [next_of_present (by simpa using here) (by simpa using small),
      Ept.pageFrameNumber_setPageFrameNumber]
  · intro _ b
    rw [copy, next_of_present here small, Option.bind_some]

theorem Forest.store_walk :
    walk (u.store f a (setPageFrameNumber (u.mem f a) q)).mem new va = walk u.mem new va := by
  refine Host.walk_congr (h.mustBeZero new _ h.newRoot) fun js b e short entry => ?_
  rw [store_graft (q := q), PageTree.graft_entry_reached h.typed h.newRoot placed free reach
    (by rw [next_of_present (by simpa using here) (by simpa using small),
      Ept.pageFrameNumber_setPageFrameNumber])
    (fun _ b => by rw [copy, next_of_present here small, Option.bind_some]) short]
  by_cases atEntry : js = is ∧ b = a
  · obtain ⟨rfl, rfl⟩ := atEntry
    rw [entry_of_table reach] at entry
    obtain rfl := Option.some.inj entry
    rw [if_pos ⟨rfl, rfl⟩]
    exact ⟨_, rfl, .inr (.inl ⟨shallow, small, q, rfl⟩)⟩
  rw [if_neg atEntry]
  by_cases below : js = is ++ [a]
  · subst below
    rw [entry_of_table (table_of_entry (entry_of_table reach a) here small)] at entry
    rw [if_pos rfl, copy, entry]
    exact ⟨e, rfl, .inl rfl⟩
  · rw [if_neg below]
    exact ⟨e, entry, .inl rfl⟩

end Reached

end Replace

end LMalz.Host
