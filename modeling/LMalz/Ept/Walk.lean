import LMalz.Ept.EptCls
import LMalz.Lib.PageTree

/- The processor's walk of a table, and the shape of the tables that the code keeps. -/
namespace LMalz.Ept
open PageTree (table entry Typed)

inductive PageSize where
  | kb4
  | mb2
  | gb1
  deriving DecidableEq, Repr

/-- What a guest-physical page is mapped to: the frame of 4KB, what all levels allow
together, and the memory type and size of the leaf. -/
structure Leaf where
  frame : Frame
  access : Access
  memoryType : BitVec 3
  size : PageSize
  deriving DecidableEq, Repr

/-- The walk of the processor with four levels, which cover 48 bits. An entry that allows
nothing is not present. -/
def walk (m : Memory) (root : Frame) (gpa : BitVec 64) : Option Leaf :=
  let pml4e := m root (pml4Index gpa)
  if 2^48 ≤ gpa.toNat then none
  else if access pml4e = .none then none
  else
    let pdpte := m (pageFrameNumber pml4e) (pdptIndex gpa)
    if access pdpte = .none then none
    else if largePage pdpte then
      some ⟨BitField.get pdpte 30 18 ++ pdIndex gpa ++ ptIndex gpa,
        (access pml4e).meet (access pdpte), memoryType pdpte, .gb1⟩
    else
      let pde := m (pageFrameNumber pdpte) (pdIndex gpa)
      if access pde = .none then none
      else if largePage pde then
        some ⟨pageFrameNumber2mb pde ++ ptIndex gpa,
          ((access pml4e).meet (access pdpte)).meet (access pde), memoryType pde, .mb2⟩
      else
        let pte := m (pageFrameNumber pde) (ptIndex gpa)
        if access pte = .none then none
        else
          some ⟨pageFrameNumber pte,
            (((access pml4e).meet (access pdpte)).meet (access pde)).meet (access pte),
            memoryType pte, .kb4⟩

/-- The table an entry points to. -/
def child (e : Entry) : Option Frame :=
  if largePage e ∨ pageFrameNumber e = 0 then none else some (pageFrameNumber e)

/-- Level 0 is the pml4e, level 3 the pte. -/
def indexAt (gpa : BitVec 64) : Nat → Index
  | 0 => pml4Index gpa
  | 1 => pdptIndex gpa
  | 2 => pdIndex gpa
  | _ => ptIndex gpa

def place (gpa : BitVec 64) : Nat → List Index
  | 0 => []
  | n + 1 => place gpa n ++ [indexAt gpa n]

/-- The table that holds the entry of the address at a level. -/
def tableAt (m : Memory) (root : Frame) (gpa : BitVec 64) (n : Nat) : Option Frame :=
  table child m root (place gpa n)

def entryAt (m : Memory) (root : Frame) (gpa : BitVec 64) (n : Nat) : Option Entry :=
  entry child m root (place gpa n) (indexAt gpa n)

/-- const_ept_size. -/
def Below512G (gpa : BitVec 64) : Prop := gpa.toNat < 2^39

/-- The places of table pages. Below 512GB every table is there, down to 2MB pages or
tables of 4KB entries. -/
structure Shaped (role : Frame → Option (List Index)) (m : Memory) : Prop where
  null : role 0 = none
  upper : ∀ f l, role f = some [] → l ≠ 0 → m f l = 0
  below : ∀ f is a, role f = some is → is.length < 3 → (is = [] → a = 0) →
    (largePage (m f a) = false ∧ role (pageFrameNumber (m f a)) = some (is ++ [a])) ∨
      (is.length = 2 ∧ largePage (m f a) = true)

section Shape
variable {role : Frame → Option (List Index)} {m : Memory} {f g root : Frame} {a : Index}
  {is : List Index} {gpa : BitVec 64}

theorem child_eq_some {e : Entry} : child e = some f ↔
    largePage e = false ∧ pageFrameNumber e = f ∧ f ≠ 0 := by
  rw [child]
  split
  · rename_i stop
    constructor
    · intro h
      cases h
    · rintro ⟨large, rfl, nonzero⟩
      rcases stop with h | h
      · simp [large] at h
      · exact absurd h nonzero
  · rename_i go
    rw [not_or] at go
    constructor
    · intro h
      obtain rfl := Option.some.inj h
      exact ⟨by simpa using go.1, rfl, go.2⟩
    · rintro ⟨-, rfl, -⟩
      rfl

theorem Shaped.nonzero (h : Shaped role m) (hf : role f = some is) : f ≠ 0 := by
  rintro rfl
  rw [h.null] at hf
  cases hf

theorem Shaped.child (h : Shaped role m) (hf : role f = some is) (short : is.length < 2)
    (low : is = [] → a = 0) :
    child (m f a) = some (pageFrameNumber (m f a)) ∧ largePage (m f a) = false ∧
      role (pageFrameNumber (m f a)) = some (is ++ [a]) := by
  rcases h.below f is a hf (by omega) low with ⟨large, place⟩ | ⟨deep, -⟩
  · exact ⟨child_eq_some.mpr ⟨large, rfl, h.nonzero place⟩, large, place⟩
  · omega

theorem Shaped.typed (h : Shaped role m) : Typed Ept.child 3 role m := by
  intro f is a g hf short hg
  obtain ⟨large, rfl, nonzero⟩ := child_eq_some.mp hg
  by_cases low : is = [] → a = 0
  · rcases h.below f is a hf short low with ⟨-, place⟩ | ⟨-, big⟩
    · exact place
    · rw [large] at big
      cases big
  · obtain ⟨rfl, other⟩ : is = [] ∧ a ≠ 0 := by
      by_cases top : is = [] <;> simp_all
    rw [h.upper f a hf other] at nonzero
    exact absurd rfl nonzero

theorem Below512G.pml4Index (low : Below512G gpa) : pml4Index gpa = 0 := by
  apply BitVec.eq_of_toNat_eq
  have small : gpa.toNat < 2^39 := low
  have top : gpa.toNat / 2^39 % 2^9 = 0 := by omega
  rw [Ept.pml4Index, BitField.toNat_get, top]
  rfl

theorem Below512G.iff (fits : gpa.toNat < 2^48) : Below512G gpa ↔ Ept.pml4Index gpa = 0 := by
  refine ⟨Below512G.pml4Index, fun low => ?_⟩
  have top := congrArg BitVec.toNat low
  rw [Ept.pml4Index, BitField.toNat_get] at top
  change gpa.toNat / 2^39 % 2^9 = 0 at top
  rw [Below512G]
  omega

@[simp] theorem place_length (gpa : BitVec 64) (n : Nat) : (place gpa n).length = n := by
  induction n with
  | zero => rfl
  | succ n ih => rw [place, List.length_append, ih, List.length_singleton]

theorem tableAt_succ (n : Nat) :
    tableAt m root gpa (n + 1) = (entryAt m root gpa n).bind Ept.child := by
  rw [tableAt, place, PageTree.table_snoc, entryAt, entry, Option.bind_map]
  rfl

theorem entryAt_eq {n : Nat} (hf : tableAt m root gpa n = some f) :
    entryAt m root gpa n = some (m f (indexAt gpa n)) := by
  have reached : table Ept.child m root (place gpa n) = some f := hf
  rw [entryAt, entry, reached, Option.map_some]

theorem entryAt_none {n : Nat} (hf : tableAt m root gpa n = none) : entryAt m root gpa n = none := by
  have missing : table Ept.child m root (place gpa n) = none := hf
  rw [entryAt, entry, missing, Option.map_none]

theorem Shaped.role_tableAt (h : Shaped role m) (hr : role root = some []) {n : Nat} (deep : n ≤ 3)
    (hf : tableAt m root gpa n = some f) : role f = some (place gpa n) := by
  simpa using h.typed.role_table hr (by simpa using deep) hf

theorem Shaped.upperTable (h : Shaped role m) (hr : role root = some []) (low : pml4Index gpa = 0)
    {n : Nat} (upper : n ≤ 2) : ∃ f, tableAt m root gpa n = some f := by
  induction n with
  | zero => exact ⟨root, rfl⟩
  | succ n ih =>
      obtain ⟨f, hf⟩ := ih (by omega)
      have hrole := h.role_tableAt hr (by omega) hf
      have first : place gpa n = [] → indexAt gpa n = 0 := by
        intro top
        cases n with
        | zero => exact low
        | succ n => simp [place] at top
      rw [tableAt_succ, entryAt_eq hf]
      exact ⟨_, (h.child hrole (by simp only [place_length]; omega) first).1⟩

theorem Shaped.upperEntry (h : Shaped role m) (hr : role root = some []) (low : pml4Index gpa = 0)
    {n : Nat} (upper : n ≤ 1) : ∃ e, entryAt m root gpa n = some e ∧ largePage e = false ∧
      tableAt m root gpa (n + 1) = some (pageFrameNumber e) := by
  obtain ⟨f, hf⟩ := h.upperTable hr low (show n ≤ 2 by omega)
  obtain ⟨g, hg⟩ := h.upperTable hr low (show n + 1 ≤ 2 by omega)
  have he := entryAt_eq hf
  rw [tableAt_succ, he, Option.bind_some] at hg
  obtain ⟨large, rfl, -⟩ := child_eq_some.mp hg
  exact ⟨_, he, large, by rw [tableAt_succ, he, Option.bind_some, hg]⟩

theorem lookup_child (pde : Entry) (k : Index) :
    (if largePage pde then none
      else if pageFrameNumber pde = 0 then none else some (pageFrameNumber pde, k)) =
      (Ept.child pde).map fun f => (f, k) := by
  rw [Ept.child]
  by_cases large : largePage pde = true
  · rw [if_pos large, if_pos (.inl large)]
    rfl
  · by_cases absent : pageFrameNumber pde = 0
    · rw [if_neg large, if_pos absent, if_pos (.inr absent)]
      rfl
    · rw [if_neg large, if_neg absent, if_neg (not_or.mpr ⟨large, absent⟩)]
      rfl

/-- The lookups of the code find the entries of the walk. -/
theorem Shaped.pageTableInfo (h : Shaped role m) (hr : role root = some []) (low : pml4Index gpa = 0)
    {n : Nat} (deep : n ≤ 3) : alVmxEptPageTableInfo m gpa (n + 1) root =
      (tableAt m root gpa n).map fun f => (f, indexAt gpa n) := by
  have nonzero := h.nonzero hr
  obtain ⟨e0, h0, -, t1⟩ := h.upperEntry hr low (show 0 ≤ 1 by omega)
  obtain ⟨e1, h1, -, t2⟩ := h.upperEntry hr low (show 1 ≤ 1 by omega)
  have r1 := h.nonzero (h.role_tableAt hr (by omega) t1)
  have r2 := h.nonzero (h.role_tableAt hr (by omega) t2)
  rw [entryAt_eq (show tableAt m root gpa 0 = some root from rfl)] at h0
  obtain rfl := Option.some.inj h0
  rw [entryAt_eq t1] at h1
  obtain rfl := Option.some.inj h1
  have p1 : pageFrameNumber (m root (pml4Index gpa)) ≠ 0 := r1
  have p2 : pageFrameNumber (m (pageFrameNumber (m root (pml4Index gpa))) (pdptIndex gpa)) ≠ 0 := r2
  unfold alVmxEptPageTableInfo
  match n with
  | 0 =>
      simp only [nonzero, p1, if_false]
      rfl
  | 1 =>
      rw [t1]
      simp only [nonzero, p1, if_false]
      rfl
  | 2 =>
      rw [t2]
      simp only [nonzero, p1, p2, if_false]
      rfl
  | 3 =>
      rw [tableAt_succ, entryAt_eq t2, Option.bind_some]
      simp only [nonzero, p1, p2, if_false]
      exact lookup_child _ _

theorem Shaped.getPageTableInfo (h : Shaped role m) (hr : role root = some [])
    (low : pml4Index gpa = 0) {n : Nat} (deep : n ≤ 3) :
    alVmxEptGetPageTableInfo m gpa (n + 1) root = (entryAt m root gpa n).getD 0 := by
  rw [alVmxEptGetPageTableInfo, h.pageTableInfo hr low deep]
  cases hf : tableAt m root gpa n with
  | none =>
      rw [entryAt_none hf]
      rfl
  | some f =>
      rw [entryAt_eq hf]
      rfl

/-- Below 512GB a pde is a 2MB page or points to a table. -/
theorem Shaped.lowestEntry (h : Shaped role m) (hr : role root = some [])
    (hf : tableAt m root gpa 2 = some f) :
    (largePage (m f (indexAt gpa 2)) = true → entryAt m root gpa 3 = none) ∧
      (largePage (m f (indexAt gpa 2)) = false → entryAt m root gpa 3 =
        some (m (pageFrameNumber (m f (indexAt gpa 2))) (indexAt gpa 3))) := by
  have hrole := h.role_tableAt hr (by omega) hf
  have below : tableAt m root gpa 3 = Ept.child (m f (indexAt gpa 2)) := by
    rw [tableAt_succ, entryAt_eq hf, Option.bind_some]
  constructor
  · intro large
    exact entryAt_none (by rw [below, Ept.child, if_pos (.inl large)])
  · intro small
    rcases h.below f _ (indexAt gpa 2) hrole (by simp) (by simp [place]) with
      ⟨-, deeper⟩ | ⟨-, large⟩
    · exact entryAt_eq (below.trans (child_eq_some.mpr ⟨small, rfl, h.nonzero deeper⟩))
    · rw [small] at large
      cases large

theorem get_frame (gpa : BitVec 64) :
    (BitField.get gpa 21 27 ++ ptIndex gpa : Frame) = BitField.get gpa 12 36 :=
  BitField.get_append gpa 12 9 27

/-- What the processor makes of the entries of an address below 512GB. -/
def leafOf (gpa : BitVec 64) (pml4e pdpte pde : Entry) (pte : Option Entry) : Option Leaf :=
  if access pml4e = .none ∨ access pdpte = .none ∨ access pde = .none then none
  else
    let above := ((access pml4e).meet (access pdpte)).meet (access pde)
    match pte with
    | none => some ⟨pageFrameNumber2mb pde ++ ptIndex gpa, above, memoryType pde, .mb2⟩
    | some pte =>
        if access pte = .none then none
        else some ⟨pageFrameNumber pte, above.meet (access pte), memoryType pte, .kb4⟩

theorem Shaped.walk_eq (h : Shaped role m) (hr : role root = some []) (below : Below512G gpa) :
    ∃ pml4e pdpte pde, entryAt m root gpa 0 = some pml4e ∧ entryAt m root gpa 1 = some pdpte ∧
      entryAt m root gpa 2 = some pde ∧
      walk m root gpa = leafOf gpa pml4e pdpte pde (entryAt m root gpa 3) := by
  have low := below.pml4Index
  have fits : ¬ 2^48 ≤ gpa.toNat := by
    have small : gpa.toNat < 2^39 := below
    omega
  obtain ⟨e0, h0, -, t1⟩ := h.upperEntry hr low (show 0 ≤ 1 by omega)
  obtain ⟨e1, h1, large1, t2⟩ := h.upperEntry hr low (show 1 ≤ 1 by omega)
  refine ⟨e0, e1, _, h0, h1, entryAt_eq t2, ?_⟩
  have place2 := h.role_tableAt hr (by omega) t2
  rw [entryAt_eq (show tableAt m root gpa 0 = some root from rfl)] at h0
  obtain rfl := Option.some.inj h0
  rw [entryAt_eq t1] at h1
  obtain rfl := Option.some.inj h1
  have large1 : largePage (m (pageFrameNumber (m root (pml4Index gpa))) (pdptIndex gpa)) = false :=
    large1
  have pte := h.lowestEntry hr t2
  simp only [walk, leafOf, indexAt, if_neg fits] at pte ⊢
  by_cases a0 : access (m root (pml4Index gpa)) = .none
  · simp only [a0, if_true, true_or]
  by_cases a1 : access (m (pageFrameNumber (m root (pml4Index gpa))) (pdptIndex gpa)) = .none
  · simp only [a0, a1, if_true, if_false, true_or, or_true]
  rw [if_neg a0, if_neg a1, large1, if_neg Bool.false_ne_true]
  generalize m (pageFrameNumber (m (pageFrameNumber (m root (pml4Index gpa))) (pdptIndex gpa)))
    (pdIndex gpa) = pde at pte ⊢
  by_cases a2 : access pde = .none
  · simp only [a2, if_true, or_true]
  rw [if_neg a2, if_neg (not_or.mpr ⟨a0, not_or.mpr ⟨a1, a2⟩⟩)]
  cases large : largePage pde with
  | true =>
      rw [pte.1 large]
      rfl
  | false =>
      rw [pte.2 large]
      rfl

theorem walk_upper (h : Shaped role m) (hr : role root = some []) (high : ¬ Below512G gpa) :
    walk m root gpa = none := by
  rw [walk]
  by_cases fits : gpa.toNat < 2^48
  case neg => exact if_pos (by omega)
  rw [if_neg (by omega)]
  rw [Below512G.iff fits] at high
  have absent : access (m root (pml4Index gpa)) = .none := by
    rw [h.upper root _ hr high]
    rfl
  exact if_pos absent

theorem Shaped.walk_congr {role' : Frame → Option (List Index)} {m' : Memory}
    (h : Shaped role m) (h' : Shaped role' m') (hr : role root = some [])
    (hr' : role' root = some [])
    (same : ∀ n, n ≤ 3 → entryAt m' root gpa n = entryAt m root gpa n) :
    walk m' root gpa = walk m root gpa := by
  by_cases low : Below512G gpa
  · obtain ⟨e0, e1, e2, h0, h1, h2, eq⟩ := h.walk_eq hr low
    obtain ⟨f0, f1, f2, h0', h1', h2', eq'⟩ := h'.walk_eq hr' low
    rw [same 0 (by omega), h0] at h0'
    rw [same 1 (by omega), h1] at h1'
    rw [same 2 (by omega), h2] at h2'
    rw [eq, eq', same 3 (by omega), Option.some.inj h0', Option.some.inj h1', Option.some.inj h2']
  · rw [walk_upper h hr low, walk_upper h' hr' low]

theorem Shaped.pde (h : Shaped role m) (hr : role root = some []) (low : pml4Index gpa = 0) :
    ∃ e, entryAt m root gpa 2 = some e ∧ tableAt m root gpa 3 =
      if largePage e then none else some (pageFrameNumber e) := by
  obtain ⟨f, hf⟩ := h.upperTable hr low (show 2 ≤ 2 by omega)
  have hrole := h.role_tableAt hr (by omega) hf
  refine ⟨_, entryAt_eq hf, ?_⟩
  rw [tableAt_succ, entryAt_eq hf, Option.bind_some]
  rcases h.below f _ (indexAt gpa 2) hrole (by simp) (by simp [place]) with
    ⟨small, deeper⟩ | ⟨-, large⟩
  · rw [small, child_eq_some.mpr ⟨small, rfl, h.nonzero deeper⟩]
    rfl
  · rw [large, Ept.child, if_pos (.inl large)]
    rfl

theorem Shaped.pageTable (h : Shaped role m) (hr : role root = some []) (low : pml4Index gpa = 0)
    {f : Frame} (hf : tableAt m root gpa 2 = some f) (small : largePage (m f (indexAt gpa 2)) = false) :
    tableAt m root gpa 3 = some (pageFrameNumber (m f (indexAt gpa 2))) := by
  obtain ⟨e, he, table⟩ := h.pde hr low
  rw [entryAt_eq hf] at he
  rw [table, ← Option.some.inj he, small]
  rfl

/-- Both roots find the same table for the address at the level. -/
def Shares (m : Memory) (a b : Frame) (gpa : BitVec 64) (n : Nat) : Prop :=
  ∃ f, tableAt m a gpa n = some f ∧ tableAt m b gpa n = some f

/-- need_remap against one object finds the uppermost shared table. -/
theorem Shaped.needRemapOf (h : Shaped role m) {this target : Frame} (ht : role this = some [])
    (ho : role target = some []) (low : pml4Index gpa = 0) :
    (Ept.needRemapOf m this target gpa = (0, 0) ∧
        ∀ n, 1 ≤ n → n ≤ 3 → ¬ Shares m this target gpa n) ∨
      ∃ n e, Ept.needRemapOf m this target gpa = (n + 1, e) ∧ n ≤ 2 ∧
        entryAt m this gpa n = some e ∧ Shares m this target gpa (n + 1) ∧
        ∀ k, 1 ≤ k → k ≤ n → ¬ Shares m this target gpa k := by
  obtain ⟨e0, he0, -, t1⟩ := h.upperEntry ht low (show 0 ≤ 1 by omega)
  obtain ⟨e1, he1, -, t2⟩ := h.upperEntry ht low (show 1 ≤ 1 by omega)
  obtain ⟨e2, he2, t3⟩ := h.pde ht low
  obtain ⟨o0, ho0, -, u1⟩ := h.upperEntry ho low (show 0 ≤ 1 by omega)
  obtain ⟨o1, ho1, -, u2⟩ := h.upperEntry ho low (show 1 ≤ 1 by omega)
  obtain ⟨o2, ho2, u3⟩ := h.pde ho low
  have shares1 : Shares m this target gpa 1 ↔ pageFrameNumber e0 = pageFrameNumber o0 := by
    simp [Shares, t1, u1, eq_comm]
  have shares2 : Shares m this target gpa 2 ↔ pageFrameNumber e1 = pageFrameNumber o1 := by
    simp [Shares, t2, u2, eq_comm]
  have shares3 : Shares m this target gpa 3 ↔
      ¬ (largePage o2 = true ∨ largePage e2 = true) ∧ pageFrameNumber e2 = pageFrameNumber o2 := by
    rw [Shares, t3, u3]
    cases largePage e2 <;> cases largePage o2 <;> simp [eq_comm]
  rw [Ept.needRemapOf, h.getPageTableInfo ht low (show 0 ≤ 3 by omega),
    h.getPageTableInfo ho low (show 0 ≤ 3 by omega), h.getPageTableInfo ht low (show 1 ≤ 3 by omega),
    h.getPageTableInfo ho low (show 1 ≤ 3 by omega), h.getPageTableInfo ht low (show 2 ≤ 3 by omega),
    h.getPageTableInfo ho low (show 2 ≤ 3 by omega), he0, he1, he2, ho0, ho1, ho2]
  simp only [Option.getD_some]
  by_cases s1 : pageFrameNumber e0 = pageFrameNumber o0
  · right
    rw [if_pos s1]
    exact ⟨0, e0, rfl, by omega, he0, shares1.mpr s1, fun k low high => by omega⟩
  rw [if_neg s1]
  by_cases s2 : pageFrameNumber e1 = pageFrameNumber o1
  · right
    rw [if_pos s2]
    refine ⟨1, e1, rfl, by omega, he1, shares2.mpr s2, fun k low high => ?_⟩
    obtain rfl : k = 1 := by omega
    exact mt shares1.mp s1
  rw [if_neg s2]
  have apart : ∀ k, 1 ≤ k → k ≤ 2 → ¬ Shares m this target gpa k := by
    intro k low high
    obtain rfl | rfl : k = 1 ∨ k = 2 := by omega
    · exact mt shares1.mp s1
    · exact mt shares2.mp s2
  by_cases s3 : Shares m this target gpa 3
  · right
    obtain ⟨small, same⟩ := shares3.mp s3
    rw [if_neg small, if_pos same]
    exact ⟨2, e2, rfl, by omega, he2, s3, apart⟩
  · left
    constructor
    · by_cases large : largePage o2 = true ∨ largePage e2 = true
      · rw [if_pos large]
      · rw [if_neg large, if_neg fun same => s3 (shares3.mpr ⟨large, same⟩)]
    · intro n low high
      by_cases deep : n = 3
      · rw [deep]
        exact s3
      · exact apart n low (by omega)

/-- need_remap stops at the first object that shares a table on the way. -/
theorem Shaped.needRemapLoop (h : Shaped role m) {this : Frame} (ht : role this = some [])
    (low : pml4Index gpa = 0) {targets : List Frame} (hts : ∀ t ∈ targets, role t = some []) :
    (Ept.needRemapLoop m this gpa targets = (0, 0) ∧
        ∀ t ∈ targets, ∀ n, 1 ≤ n → n ≤ 3 → ¬ Shares m this t gpa n) ∨
      ∃ n e pre t post, Ept.needRemapLoop m this gpa targets = (n + 1, e) ∧ n ≤ 2 ∧
        entryAt m this gpa n = some e ∧ targets = pre ++ t :: post ∧
        (∀ u ∈ pre, ∀ k, 1 ≤ k → k ≤ 3 → ¬ Shares m this u gpa k) ∧
        Shares m this t gpa (n + 1) ∧ ∀ k, 1 ≤ k → k ≤ n → ¬ Shares m this t gpa k := by
  induction targets with
  | nil => exact .inl ⟨rfl, fun t ht => by cases ht⟩
  | cons target rest ih =>
      have htarget := hts target List.mem_cons_self
      rw [Ept.needRemapLoop]
      rcases h.needRemapOf ht htarget low with ⟨eq, apart⟩ | ⟨n, e, eq, upper, he, shares, above⟩
      · rw [eq]
        simp only [ne_eq, not_true_eq_false, if_false]
        rcases ih fun t ht => hts t (List.mem_cons_of_mem _ ht) with
          ⟨done, none⟩ | ⟨n, e, pre, t, post, done, upper, he, split, before, shares, above⟩
        · refine .inl ⟨done, fun t ht => ?_⟩
          rcases List.mem_cons.mp ht with rfl | later
          · exact apart
          · exact none t later
        · refine .inr ⟨n, e, target :: pre, t, post, done, upper, he, ?_, ?_, shares, above⟩
          · rw [split, List.cons_append]
          · intro u hu
            rcases List.mem_cons.mp hu with rfl | later
            · exact apart
            · exact before u later
      · right
        rw [eq]
        refine ⟨n, e, [], target, rest, by simp, upper, he, rfl, ?_, shares, above⟩
        intro u hu
        cases hu

theorem Shaped.needRemapLoop_le (h : Shaped role m) {this t : Frame} (ht : role this = some [])
    (low : pml4Index gpa = 0) {pre post : List Frame} {n : Nat} (upper : n ≤ 2)
    (hts : ∀ u ∈ pre ++ t :: post, role u = some [])
    (before : ∀ u ∈ pre, ∀ k, 1 ≤ k → k ≤ 3 → ¬ Shares m this u gpa k)
    (shares : Shares m this t gpa (n + 1)) :
    ∃ j e, Ept.needRemapLoop m this gpa (pre ++ t :: post) = (j + 1, e) ∧ j ≤ n := by
  induction pre with
  | nil =>
      rw [List.nil_append, Ept.needRemapLoop]
      rcases h.needRemapOf ht (hts t (by simp)) low with
        ⟨-, apart⟩ | ⟨j, e, eq, -, -, -, above⟩
      · exact absurd shares (apart (n + 1) (by omega) (by omega))
      · rw [eq]
        refine ⟨j, e, by simp, ?_⟩
        by_contra beyond
        exact above (n + 1) (by omega) (by omega) shares
  | cons u pre ih =>
      rw [List.cons_append, Ept.needRemapLoop]
      rcases h.needRemapOf ht (hts u (by simp)) low with ⟨eq, -⟩ | ⟨j, e, -, upper', -, shares', -⟩
      · rw [eq]
        simp only [ne_eq, not_true_eq_false, if_false]
        exact ih (fun v hv => hts v (List.mem_cons_of_mem u hv))
          fun v hv => before v (List.mem_cons_of_mem u hv)
      · exact absurd shares' (before u (by simp) (j + 1) (by omega) (by omega))

theorem Shares.succ {b : Frame} {n : Nat} (h : Shares m root b gpa n) :
    tableAt m root gpa (n + 1) = tableAt m b gpa (n + 1) := by
  obtain ⟨t, left, right⟩ := h
  rw [tableAt_succ, tableAt_succ, entryAt_eq left, entryAt_eq right]

theorem tableAt_le {n j : Nat} (le : j ≤ n) (hf : tableAt m root gpa n = some f) :
    ∃ g, tableAt m root gpa j = some g := by
  induction n generalizing f with
  | zero =>
      obtain rfl : j = 0 := by omega
      exact ⟨f, hf⟩
  | succ n ih =>
      by_cases last : j = n + 1
      · exact ⟨f, by rw [last, hf]⟩
      · cases above : tableAt m root gpa n with
        | none =>
            rw [tableAt_succ, entryAt_none above] at hf
            cases hf
        | some g => exact ih (by omega) above

/-- Below a shared table all tables are shared. -/
theorem Shares.mono {b : Frame} {n j : Nat} (h : Shares m root b gpa n) (le : n ≤ j)
    (hf : tableAt m root gpa j = some f) : Shares m root b gpa j := by
  induction j generalizing f with
  | zero =>
      obtain rfl : n = 0 := by omega
      exact h
  | succ j ih =>
      by_cases last : n = j + 1
      · rw [← last]
        exact h
      · obtain ⟨g, hg⟩ := tableAt_le (show j ≤ j + 1 by omega) hf
        exact ⟨f, hf, (ih (by omega) hg).succ ▸ hf⟩

end Shape

end LMalz.Ept
