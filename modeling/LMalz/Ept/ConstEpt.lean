import LMalz.Ept.Edits

/- ALvmxEPTnewTable: the tables that the two loops leave in the pool. -/
namespace LMalz.Ept
open Function (update)
open Mtrr (MtrrData)

/-- The machine before init: `k` pool pages are taken, the others are zero. -/
structure Fresh (P : Platform) (s : Machine) (k : Nat) : Prop where
  bound : k ≤ poolPages
  usable : s.limits.poolUsable = 0x1000 * k
  top : Pool.InPool s.limits.poolBigMemEnd
  zero : ∀ i, k ≤ i → i < poolPages → ∀ a, s.mem (P.page i) a = 0

/-- The pte that the first loop of ALvmxEPTnewTable makes for an address. -/
def newPte (s : Machine) (i : BitVec 64) : Entry :=
  setMemoryType (setPageFrameNumber (setAccess 0 .full) (BitField.get i 12 36))
    (alHvMmGetMemoryType s i 0x1000)

/-- The pde that the second loop makes. -/
def newPde (s : Machine) (i : BitVec 64) : Entry :=
  setMemoryType (setPageFrameNumber2mb (setLargePage (setAccess 0 .full) true)
    (BitField.get i 21 27)) (alHvMmGetMemoryType s i 0x200000)

def pteAddress (n : Nat) : BitVec 64 := BitVec.ofNat 64 (n * 0x1000)
def pdeAddress (n : Nat) : BitVec 64 := BitVec.ofNat 64 (n * 0x200000)

/-- The tables under construction in the pool pages from `k` on: the pml4, the first page
table, the pdpt and `d` page directories, with `t` ptes and `n` pdes. -/
structure Built (P : Platform) (k : Nat) (start : Machine) (t n d : Nat) (s : Machine) : Prop where
  bound : k + 3 + d ≤ poolPages
  usable : s.limits.poolUsable = 0x1000 * (k + 3 + d : Nat)
  top : Pool.InPool s.limits.poolBigMemEnd
  memEnd : s.limits.poolBigMemEnd = start.limits.poolBigMemEnd
  types : s.mtrrData = start.mtrrData
  pml4 : s.mem (P.page k) = fun a => if a = 0 then tableEntry (P.page (k + 2)) else 0
  pdpt : s.mem (P.page (k + 2)) = fun a =>
    if a.toNat < d then tableEntry (P.page (k + 3 + a.toNat)) else 0
  pd : ∀ q, q < d → s.mem (P.page (k + 3 + q)) = fun a =>
    if q = 0 ∧ a = 0 then tableEntry (P.page (k + 1))
    else if 512 * q + a.toNat < n then newPde start (pdeAddress (512 * q + a.toNat)) else 0
  pt : ∀ a : Index, a.toNat < t → s.mem (P.page (k + 1)) a = newPte start (pteAddress a.toNat)
  zero : ∀ i, k + 3 + d ≤ i → i < poolPages → ∀ a, s.mem (P.page i) a = 0

section Indices
variable {n : Nat}

theorem pteAddress_indices (small : n < 512) : pml4Index (pteAddress n) = 0 ∧
    pdptIndex (pteAddress n) = 0 ∧ pdIndex (pteAddress n) = 0 ∧
    ptIndex (pteAddress n) = BitVec.ofNat 9 n := by
  refine ⟨?_, ?_, ?_, ?_⟩ <;> apply BitVec.eq_of_toNat_eq
  all_goals
    simp only [pml4Index, pdptIndex, pdIndex, ptIndex, BitField.toNat_get, pteAddress,
      BitVec.ofNat_eq_ofNat, BitVec.toNat_ofNat]
    omega

theorem pdeAddress_indices (small : n < 262144) : pml4Index (pdeAddress n) = 0 ∧
    pdptIndex (pdeAddress n) = BitVec.ofNat 9 (n / 512) ∧
    pdIndex (pdeAddress n) = BitVec.ofNat 9 (n % 512) := by
  refine ⟨?_, ?_, ?_⟩ <;> apply BitVec.eq_of_toNat_eq
  all_goals
    simp only [pml4Index, pdptIndex, pdIndex, BitField.toNat_get, pdeAddress,
      BitVec.ofNat_eq_ofNat, BitVec.toNat_ofNat]
    omega

end Indices

theorem newPte_congr {s t : Machine} (same : s.mtrrData = t.mtrrData) (i : BitVec 64) :
    newPte s i = newPte t i := by
  rw [newPte, newPte, alHvMmGetMemoryType, alHvMmGetMemoryType, same]

theorem newPde_congr {s t : Machine} (same : s.mtrrData = t.mtrrData) (i : BitVec 64) :
    newPde s i = newPde t i := by
  rw [newPde, newPde, alHvMmGetMemoryType, alHvMmGetMemoryType, same]

@[simp] theorem access_newPte (s : Machine) (i : BitVec 64) : access (newPte s i) = .full := by
  simp [newPte]

@[simp] theorem access_newPde (s : Machine) (i : BitVec 64) : access (newPde s i) = .full := by
  simp [newPde]

@[simp] theorem largePage_newPde (s : Machine) (i : BitVec 64) : largePage (newPde s i) = true := by
  simp [newPde]

section Loops
variable {P : Platform} {start s : Machine} {k t n d : Nat}

theorem Built.latch (b : Built P k start t n d s) : Built P k start t n d s.latch :=
  ⟨b.bound, b.usable, b.top, b.memEnd, b.types, b.pml4, b.pdpt, b.pd, b.pt, b.zero⟩

theorem index_eq_ofNat {a : Index} {n : Nat} (small : n < 512) :
    a = BitVec.ofNat 9 n ↔ a.toNat = n := by
  constructor
  · rintro rfl
    simp only [BitVec.toNat_ofNat]
    omega
  · intro same
    apply BitVec.eq_of_toNat_eq
    simp only [BitVec.toNat_ofNat]
    omega

theorem index_pos {a : Index} (ne : a ≠ 0) : 0 < a.toNat := by
  by_contra zero
  exact ne ((index_eq_ofNat (n := 0) (by omega)).mpr (by omega))

theorem Built.put (b : Built P k start t n d s) (some : 1 ≤ n) (inside : n < 512 * d) :
    Built P k start t (n + 1) d
      (s.store (P.page (k + 3 + n / 512)) (BitVec.ofNat 9 (n % 512)) (newPde start (pdeAddress n))) := by
  have bound := b.bound
  have here : n / 512 < d := by omega
  have other : ∀ i, i < poolPages → i ≠ k + 3 + n / 512 →
      (s.store (P.page (k + 3 + n / 512)) (BitVec.ofNat 9 (n % 512))
        (newPde start (pdeAddress n))).mem (P.page i) = s.mem (P.page i) :=
    fun i inside ne => Function.update_of_ne (P.page_ne inside (by omega) ne) _ _
  refine ⟨b.bound, b.usable, b.top, b.memEnd, b.types, ?_, ?_, fun q hq => ?_, fun a ha => ?_,
    fun i hi inside a => ?_⟩
  · rw [other k (by omega) (by omega)]
    exact b.pml4
  · rw [other (k + 2) (by omega) (by omega)]
    exact b.pdpt
  · by_cases same : q = n / 512
    · subst same
      funext a
      simp only [Machine.store, Function.update_self]
      by_cases at_a : a = BitVec.ofNat 9 (n % 512)
      · have index := (index_eq_ofNat (by omega)).mp at_a
        have first : ¬ (n / 512 = 0 ∧ a = 0) := by
          rintro ⟨zero, rfl⟩
          simp only [BitVec.ofNat_eq_ofNat, BitVec.toNat_ofNat] at index
          omega
        have this : 512 * (n / 512) + a.toNat = n := by omega
        rw [at_a, Function.update_self, ← at_a, if_neg first, if_pos (by omega), this]
      · rw [Function.update_of_ne at_a, b.pd _ here]
        have apart := mt (index_eq_ofNat (by omega)).mpr at_a
        have less : 512 * (n / 512) + a.toNat < n + 1 ↔ 512 * (n / 512) + a.toNat < n := by omega
        simp only [less]
    · rw [other (k + 3 + q) (by omega) (by omega), b.pd q hq]
      funext a
      have less : 512 * q + a.toNat < n + 1 ↔ 512 * q + a.toNat < n := by
        have := a.isLt
        omega
      simp only [less]
  · rw [other (k + 1) (by omega) (by omega)]
    exact b.pt a ha
  · rw [other i inside (by omega)]
    exact b.zero i hi inside a

theorem Built.grow (b : Built P k start t n d s) (room : k + 3 + d < poolPages) (some : 1 ≤ d)
    (small : d < 512) (full : n ≤ 512 * d) : Built P k start t n (d + 1)
      ((s.withPages (k + 3 + d + 1)).store (P.page (k + 2)) (BitVec.ofNat 9 d)
        (tableEntry (P.page (k + 3 + d)))) := by
  have other : ∀ i, i < poolPages → i ≠ k + 2 →
      ((s.withPages (k + 3 + d + 1)).store (P.page (k + 2)) (BitVec.ofNat 9 d)
        (tableEntry (P.page (k + 3 + d)))).mem (P.page i) = s.mem (P.page i) :=
    fun i inside ne => Function.update_of_ne (P.page_ne inside (by omega) ne) _ _
  refine ⟨room, rfl, b.top, b.memEnd, b.types, ?_, ?_, fun q hq => ?_, fun a ha => ?_,
    fun i hi inside a => ?_⟩
  · rw [other k (by omega) (by omega)]
    exact b.pml4
  · funext a
    have page : (s.withPages (k + 3 + d + 1)).mem (P.page (k + 2)) = s.mem (P.page (k + 2)) := rfl
    simp only [Machine.store, Function.update_self, page, b.pdpt]
    by_cases at_a : a = BitVec.ofNat 9 d
    · have index := (index_eq_ofNat small).mp at_a
      rw [at_a, Function.update_self, ← at_a, index, if_pos (by omega)]
    · have apart := mt (index_eq_ofNat small).mpr at_a
      have less : a.toNat < d + 1 ↔ a.toNat < d := by omega
      rw [Function.update_of_ne at_a]
      simp only [less]
  · rw [other (k + 3 + q) (by omega) (by omega)]
    by_cases old : q < d
    · exact b.pd q old
    · obtain rfl : q = d := by omega
      funext a
      rw [if_neg (by omega), if_neg (by omega)]
      exact b.zero _ (Nat.le_refl _) room a
  · rw [other (k + 1) (by omega) (by omega)]
    exact b.pt a ha
  · rw [other i inside (by omega)]
    exact b.zero i (by omega) inside a

/-- The number of page directories that hold `n` pdes. -/
def directories (n : Nat) : Nat := (n + 511) / 512

theorem Built.root (b : Built P k start t n d s) :
    pageFrameNumber (s.mem (P.page k) 0) = P.page (k + 2) := by
  rw [b.pml4]
  exact pageFrameNumber_tableEntry _

theorem Built.directory (b : Built P k start t n d s) {q : Nat} (small : q < 512) (here : q < d) :
    pageFrameNumber (s.mem (P.page (k + 2)) (BitVec.ofNat 9 q)) = P.page (k + 3 + q) := by
  have index : (BitVec.ofNat 9 q).toNat = q := by
    simp only [BitVec.toNat_ofNat]
    omega
  rw [b.pdpt]
  simp only [index, if_pos here]
  exact pageFrameNumber_tableEntry _

theorem Built.noDirectory (b : Built P k start t n d s) {q : Nat} (small : q < 512) (new : d ≤ q) :
    pageFrameNumber (s.mem (P.page (k + 2)) (BitVec.ofNat 9 q)) = 0 := by
  have index : (BitVec.ofNat 9 q).toNat = q := by
    simp only [BitVec.toNat_ofNat]
    omega
  rw [b.pdpt]
  simp only [index, if_neg (show ¬ q < d by omega)]
  exact pageFrameNumber_zero

/-- Without a page for the pdpt the call ends there. -/
theorem setPde_newPdpt_died {fuel m : Nat} {gpa : BitVec 64} {pde : Entry} {root : Frame}
    (nonzero : root ≠ 0) (absent : pageFrameNumber (s.mem root (pml4Index gpa)) = 0)
    (died : Died (allocatePage P s) start m) :
    Died (alVmxEptSetPde P (fuel + 1) gpa pde root s) start m := by
  refine ⟨?_, died.2⟩
  simp only [alVmxEptSetPde, nonzero, absent, died.1, ne_eq, not_true_eq_false, if_false,
    Outcome.killed_bind]

theorem setPde_newPd_died {fuel m : Nat} {gpa : BitVec 64} {pde : Entry} {root pdpt : Frame}
    (nonzero : root ≠ 0) (hpdpt : pageFrameNumber (s.mem root (pml4Index gpa)) = pdpt)
    (hpdpt' : pdpt ≠ 0) (absent : pageFrameNumber (s.mem pdpt (pdptIndex gpa)) = 0)
    (died : Died (allocatePage P s) start m) :
    Died (alVmxEptSetPde P (fuel + 1) gpa pde root s) start m := by
  subst hpdpt
  refine ⟨?_, died.2⟩
  simp only [alVmxEptSetPde, nonzero, hpdpt', absent, died.1, ne_eq, not_false_eq_true,
    not_true_eq_false, if_true, if_false, Outcome.killed_bind]

/-- One round of the second loop. -/
theorem Built.setPde (b : Built P k start t n (directories n) s) (some : 1 ≤ n) (small : n < 262144)
    (fuel : Nat) :
    Died (alVmxEptSetPde P (fuel + 2) (pdeAddress n) (newPde start (pdeAddress n)) (P.page k) s)
        start (k + 3 + directories (n + 1)) ∨
      ∃ s', alVmxEptSetPde P (fuel + 2) (pdeAddress n) (newPde start (pdeAddress n)) (P.page k) s =
        .ok (true, s') ∧ Built P k start t (n + 1) (directories (n + 1)) s' := by
  obtain ⟨i4, i3, i2⟩ := pdeAddress_indices small
  have bound := b.bound
  have rootNonzero := P.nonzero k (by omega)
  have pdptNonzero := P.nonzero (k + 2) (by omega)
  have hroot : pageFrameNumber (s.mem (P.page k) (pml4Index (pdeAddress n))) = P.page (k + 2) := by
    rw [i4]
    exact b.root
  have put : ∀ {s' : Machine} {d : Nat} (fuel : Nat), Built P k start t n d s' → n < 512 * d →
      ∃ s'', alVmxEptSetPde P (fuel + 1) (pdeAddress n) (newPde start (pdeAddress n)) (P.page k) s' =
        .ok (true, s'') ∧ Built P k start t (n + 1) d s'' := by
    intro s' d fuel b' inside
    have bound' := b'.bound
    refine ⟨_, ?_, b'.put some inside⟩
    rw [← i2]
    refine setPde_put fuel rootNonzero ?_ pdptNonzero ?_ (P.nonzero _ (by omega))
    · rw [i4]
      exact b'.root
    · rw [i3]
      exact b'.directory (by omega) (by omega)
  by_cases inside : n < 512 * directories n
  · right
    have same : directories (n + 1) = directories n := by
      rw [directories] at inside ⊢
      rw [directories]
      omega
    rw [same]
    exact put (fuel + 1) b inside
  · have next : directories (n + 1) = directories n + 1 ∧ n / 512 = directories n ∧
        n = 512 * directories n := by
      rw [directories] at inside ⊢
      rw [directories]
      omega
    have absent : pageFrameNumber (s.mem (P.page (k + 2)) (pdptIndex (pdeAddress n))) = 0 := by
      rw [i3]
      exact b.noDirectory (by omega) (by omega)
    rcases allocatePage_cases (P := P) b.usable b.top b.bound with died | ⟨room, took⟩
    · exact .inl (setPde_newPd_died rootNonzero hroot pdptNonzero absent
        (died.mono (by omega) b.memEnd))
    · right
      rw [setPde_newPd (fuel + 1) rootNonzero hroot pdptNonzero absent took (P.nonzero _ room), i3,
        next.1, next.2.1]
      refine put fuel (b.grow room ?_ (by omega) (by omega)) (by omega)
      rw [directories]
      omega

theorem Built.lookupPde (b : Built P k start t n d s) (one : 1 ≤ d) {gpa : BitVec 64}
    (i4 : pml4Index gpa = 0) (i3 : pdptIndex gpa = 0) (i2 : pdIndex gpa = 0) :
    alVmxEptGetPageTableInfo s.mem gpa 3 (P.page k) = tableEntry (P.page (k + 1)) := by
  have bound := b.bound
  have pdpt := b.root
  have pd : pageFrameNumber (s.mem (P.page (k + 2)) 0) = P.page (k + 3) :=
    b.directory (q := 0) (by omega) (by omega)
  have pde : s.mem (P.page (k + 3)) 0 = tableEntry (P.page (k + 1)) := congrFun (b.pd 0 one) 0
  simp only [alVmxEptGetPageTableInfo, alVmxEptPageTableInfo, i4, i3, i2, pdpt, pd,
    P.nonzero k (by omega), P.nonzero (k + 2) (by omega), P.nonzero (k + 3) (by omega), if_false,
    Nat.reduceLT, Nat.reduceEqDiff, or_self, if_true]
  exact pde

/-- One round of the first loop when the first page table is there. -/
theorem Built.setPte (b : Built P k start t 1 1 s) (small : t < 512) (fuel : Nat) :
    ∃ s', alVmxEptSetPte P (fuel + 1) (pteAddress t) (newPte start (pteAddress t)) (P.page k) s =
      .ok (true, s') ∧ Built P k start (t + 1) 1 1 s' := by
  obtain ⟨i4, i3, i2, i1⟩ := pteAddress_indices small
  have bound := b.bound
  refine ⟨s.store (P.page (k + 1)) (BitVec.ofNat 9 t) (newPte start (pteAddress t)), ?_, ?_⟩
  · have present : access (tableEntry (P.page (k + 1))) ≠ .none := by
      simp [Access.full, Access.none]
    simp only [alVmxEptSetPte, b.lookupPde (Nat.le_refl 1) i4 i3 i2, ne_eq, present,
      not_false_eq_true, if_true, largePage_tableEntry, Bool.false_eq_true, if_false, storePte,
      pageFrameNumber_tableEntry, i1]
  · have other : ∀ i, i < poolPages → i ≠ k + 1 →
        (s.store (P.page (k + 1)) (BitVec.ofNat 9 t) (newPte start (pteAddress t))).mem (P.page i) =
          s.mem (P.page i) :=
      fun i inside ne => Function.update_of_ne (P.page_ne inside (by omega) ne) _ _
    refine ⟨b.bound, b.usable, b.top, b.memEnd, b.types, ?_, ?_, fun q hq => ?_, fun a ha => ?_,
      fun i hi inside a => ?_⟩
    · rw [other k (by omega) (by omega)]
      exact b.pml4
    · rw [other (k + 2) (by omega) (by omega)]
      exact b.pdpt
    · rw [other (k + 3 + q) (by omega) (by omega)]
      exact b.pd q hq
    · simp only [Machine.store, Function.update_self]
      by_cases at_a : a = BitVec.ofNat 9 t
      · have index := (index_eq_ofNat small).mp at_a
        rw [at_a, Function.update_self, ← at_a, index]
      · have apart := mt (index_eq_ofNat small).mpr at_a
        rw [Function.update_of_ne at_a]
        exact b.pt a (by omega)
    · rw [other i inside (by omega)]
      exact b.zero i hi inside a

theorem Fresh.withPdpt (f : Fresh P s (k + 2)) (room : k + 2 < poolPages)
    (one : ∀ a, s.mem (P.page k) a = 0)
    (memEnd : s.limits.poolBigMemEnd = start.limits.poolBigMemEnd)
    (types : s.mtrrData = start.mtrrData) : Built P k start 0 0 0
      ((s.withPages (k + 2 + 1)).store (P.page k) 0 (tableEntry (P.page (k + 2)))) := by
  have other : ∀ i, i < poolPages → i ≠ k →
      ((s.withPages (k + 2 + 1)).store (P.page k) 0 (tableEntry (P.page (k + 2)))).mem (P.page i) =
        s.mem (P.page i) :=
    fun i inside ne => Function.update_of_ne (P.page_ne inside (by omega) ne) _ _
  refine ⟨room, rfl, f.top, memEnd, types, ?_, ?_, fun q hq => absurd hq (Nat.not_lt_zero _),
    fun a ha => absurd ha (Nat.not_lt_zero _), fun i hi inside a => ?_⟩
  · have page : (s.withPages (k + 2 + 1)).mem (P.page k) = s.mem (P.page k) := rfl
    funext a
    simp only [Machine.store, Function.update_self, page]
    by_cases zero : a = 0
    · rw [if_pos zero, zero, Function.update_self]
    · rw [if_neg zero, Function.update_of_ne zero, one]
  · rw [other (k + 2) room (by omega)]
    funext a
    rw [if_neg (Nat.not_lt_zero _), f.zero (k + 2) (Nat.le_refl _) room]
  · rw [other i inside (by omega)]
    exact f.zero i (by omega) inside a

theorem Built.withFirstPde (b : Built P k start 0 0 0 s) (room : k + 3 < poolPages) :
    Built P k start 0 1 1
      (((s.withPages (k + 3 + 1)).store (P.page (k + 2)) 0 (tableEntry (P.page (k + 3)))).store
        (P.page (k + 3)) 0 (tableEntry (P.page (k + 1)))) := by
  generalize hs : ((s.withPages (k + 3 + 1)).store (P.page (k + 2)) 0
    (tableEntry (P.page (k + 3)))).store (P.page (k + 3)) 0 (tableEntry (P.page (k + 1))) = s'
  have mem : s'.mem = update (update s.mem (P.page (k + 2))
      (update (s.mem (P.page (k + 2))) 0 (tableEntry (P.page (k + 3))))) (P.page (k + 3))
      (update (s.mem (P.page (k + 3))) 0 (tableEntry (P.page (k + 1)))) := by
    have kept : update s.mem (P.page (k + 2)) (update (s.mem (P.page (k + 2))) 0
        (tableEntry (P.page (k + 3)))) (P.page (k + 3)) = s.mem (P.page (k + 3)) :=
      Function.update_of_ne (P.page_ne room (by omega) (by omega)) _ _
    rw [← hs, ← kept]
    rfl
  have other : ∀ i, i < poolPages → i ≠ k + 2 → i ≠ k + 3 →
      s'.mem (P.page i) = s.mem (P.page i) := by
    intro i inside ne2 ne3
    rw [mem, Function.update_of_ne (P.page_ne inside room ne3),
      Function.update_of_ne (P.page_ne inside (by omega) ne2)]
  subst hs
  refine ⟨room, rfl, b.top, b.memEnd, b.types, ?_, ?_, fun q hq => ?_,
    fun a ha => absurd ha (Nat.not_lt_zero _), fun i hi inside a => ?_⟩
  · rw [other k (by omega) (by omega) (by omega)]
    exact b.pml4
  · rw [mem, Function.update_of_ne (P.page_ne (by omega) room (by omega)), Function.update_self, b.pdpt]
    funext a
    by_cases zero : a = 0
    · rw [zero, Function.update_self, if_pos (by decide)]
      rfl
    · have positive := index_pos zero
      rw [Function.update_of_ne zero, if_neg (by omega), if_neg (by omega)]
  · obtain rfl : q = 0 := by omega
    rw [mem, Nat.add_zero, Function.update_self]
    funext a
    by_cases zero : a = 0
    · rw [zero, Function.update_self, if_pos ⟨rfl, rfl⟩]
    · have positive := index_pos zero
      rw [Function.update_of_ne zero, if_neg (fun both => zero both.2), if_neg (by omega),
        b.zero (k + 3) (by omega) room]
  · rw [other i inside (by omega) (by omega)]
    exact b.zero i (by omega) inside a

/-- The call that makes the first pdpt, page directory and page table. -/
theorem Fresh.setPde (f : Fresh P s (k + 2)) (one : ∀ a, s.mem (P.page k) a = 0)
    (memEnd : s.limits.poolBigMemEnd = start.limits.poolBigMemEnd)
    (types : s.mtrrData = start.mtrrData) (fuel : Nat) :
    Died (alVmxEptSetPde P (fuel + 3) (pteAddress 0) (tableEntry (P.page (k + 1))) (P.page k) s)
        start (k + 4) ∨
      ∃ s', alVmxEptSetPde P (fuel + 3) (pteAddress 0) (tableEntry (P.page (k + 1))) (P.page k) s =
        .ok (true, s') ∧ Built P k start 0 1 1 s' := by
  obtain ⟨i4, i3, i2, -⟩ := pteAddress_indices (show 0 < 512 by omega)
  have bound := f.bound
  have rootNonzero := P.nonzero k (by omega)
  have absent : pageFrameNumber (s.mem (P.page k) (pml4Index (pteAddress 0))) = 0 := by
    rw [one]
    exact pageFrameNumber_zero
  rcases allocatePage_cases (P := P) f.usable f.top bound with died | ⟨room, took⟩
  · exact .inl (setPde_newPdpt_died rootNonzero absent (died.mono (by omega) memEnd))
  rw [setPde_newPdpt (fuel + 2) rootNonzero absent took (P.nonzero _ room), i4]
  have b := f.withPdpt room one memEnd types
  generalize (s.withPages (k + 2 + 1)).store _ _ _ = s1 at b ⊢
  have pdptNonzero := P.nonzero (k + 2) room
  have hroot : pageFrameNumber (s1.mem (P.page k) (pml4Index (pteAddress 0))) = P.page (k + 2) := by
    rw [i4]
    exact b.root
  have noDirectory : pageFrameNumber (s1.mem (P.page (k + 2)) (pdptIndex (pteAddress 0))) = 0 := by
    rw [i3]
    exact b.noDirectory (q := 0) (by omega) (Nat.le_refl 0)
  rcases allocatePage_cases (P := P) b.usable b.top b.bound with died | ⟨room', took'⟩
  · exact .inl (setPde_newPd_died rootNonzero hroot pdptNonzero noDirectory
      (died.mono (Nat.le_refl _) b.memEnd))
  right
  refine ⟨_, ?_, b.withFirstPde room'⟩
  rw [setPde_newPd (fuel + 1) rootNonzero hroot pdptNonzero noDirectory took' (P.nonzero _ room'), i3]
  refine (setPde_put fuel rootNonzero ?_ pdptNonzero ?_ (P.nonzero _ room')).trans (by rw [i2])
  · change pageFrameNumber (update s1.mem _ _ _ _) = _
    rw [Function.update_of_ne (P.page_ne (by omega) room (by omega))]
    exact hroot
  · change pageFrameNumber (update s1.mem _ _ _ _) = _
    rw [i3, Function.update_self, Function.update_self]
    exact pageFrameNumber_tableEntry _

theorem Fresh.setPte (f : Fresh P s (k + 1)) (one : ∀ a, s.mem (P.page k) a = 0) (taken : k < poolPages)
    (memEnd : s.limits.poolBigMemEnd = start.limits.poolBigMemEnd)
    (types : s.mtrrData = start.mtrrData) (fuel : Nat) :
    Died (alVmxEptSetPte P (fuel + 4) (pteAddress 0) (newPte start (pteAddress 0)) (P.page k) s)
        start (k + 4) ∨
      ∃ s', alVmxEptSetPte P (fuel + 4) (pteAddress 0) (newPte start (pteAddress 0)) (P.page k) s =
        .ok (true, s') ∧ Built P k start 1 1 1 s' := by
  have absent : alVmxEptGetPageTableInfo s.mem (pteAddress 0) 3 (P.page k) = 0 := by
    simp only [alVmxEptGetPageTableInfo, alVmxEptPageTableInfo, one, pageFrameNumber_zero,
      BitVec.ofNat_eq_ofNat, if_true, ite_self]
  have empty : access (0 : Entry) = .none := access_zero
  rw [alVmxEptSetPte]
  simp only [absent, empty, ne_eq, not_true_eq_false, if_false, alVmxEptBuildPde]
  rcases allocatePage_cases (P := P) f.usable f.top f.bound with died | ⟨room, took⟩
  · exact .inl (((died.mono (by omega) memEnd).bind _).bind _)
  rw [took]
  simp only [Outcome.ok_bind, if_neg (P.nonzero _ room), Outcome.pure_eq,
    tableEntry_ne_zero (P.nonzero _ room), not_false_eq_true, if_true]
  generalize hs : Machine.fill _ _ _ = s1
  have kept : ∀ i, i < poolPages → i ≠ k + 1 → s1.mem (P.page i) = s.mem (P.page i) := by
    intro i inside ne
    rw [← hs]
    exact Function.update_of_ne (P.page_ne inside room ne) _ _
  have fresh : Fresh P s1 (k + 2) := by
    refine ⟨room, ?_, ?_, fun i hi inside a => ?_⟩
    · rw [← hs]
      rfl
    · rw [← hs]
      exact f.top
    · rw [kept i inside (by omega)]
      exact f.zero i (by omega) inside a
  have root : ∀ a, s1.mem (P.page k) a = 0 := by
    intro a
    rw [kept k taken (by omega)]
    exact one a
  have same : s1.limits.poolBigMemEnd = start.limits.poolBigMemEnd ∧
      s1.mtrrData = start.mtrrData := by
    rw [← memEnd, ← types, ← hs]
    exact ⟨rfl, rfl⟩
  rcases fresh.setPde root same.1 same.2 fuel with died | ⟨s2, done, b⟩
  · exact .inl (died.bind _)
  · right
    rw [done, Outcome.ok_bind]
    exact b.setPte (by omega) (fuel + 2)

theorem newTablePtes_cons {fuel : Nat} {root : Frame} {i : BitVec 64} {is : List (BitVec 64)}
    {r : Outcome (Bool × Machine)} (types : s.mtrrData = start.mtrrData)
    (first : alVmxEptSetPte P fuel i (newPte start i) root s.latch = r) :
    newTablePtes P fuel (setAccess 0 .full) root (i :: is) s = r >>= fun r =>
      if r.1 then newTablePtes P fuel (setAccess 0 .full) root is r.2 else .ok (false, r.2) := by
  have pte : setMemoryType (setPageFrameNumber (setAccess 0 (access (setAccess 0 .full)))
      (BitField.get i 12 36)) (alHvMmGetMemoryType s i 0x1000) = newPte start i := by
    rw [access_setAccess]
    exact newPte_congr types i
  rw [newTablePtes, pte, first]
  rfl

theorem newTablePdes_cons {fuel : Nat} {root : Frame} {i : BitVec 64} {is : List (BitVec 64)}
    {r : Outcome (Bool × Machine)} (types : s.mtrrData = start.mtrrData)
    (first : alVmxEptSetPde P fuel i (newPde start i) root s.latch = r) :
    newTablePdes P fuel (setAccess 0 .full) root (i :: is) s = r >>= fun r =>
      if r.1 then newTablePdes P fuel (setAccess 0 .full) root is r.2 else .ok (false, r.2) := by
  have pde : setMemoryType (setPageFrameNumber2mb (setLargePage (setAccess 0
      (access (setAccess 0 .full))) true) (BitField.get i 21 27))
      (alHvMmGetMemoryType s i 0x200000) = newPde start i := by
    rw [access_setAccess]
    exact newPde_congr types i
  rw [newTablePdes, pde, first]
  rfl

theorem newTablePtes_built (fuel : Nat) {m : Nat} (b : Built P k start t 1 1 s)
    (rest : t + m = 512) : ∃ s', newTablePtes P (fuel + 1) (setAccess 0 .full) (P.page k)
      ((List.range' t m).map pteAddress) s = .ok (true, s') ∧ Built P k start 512 1 1 s' := by
  induction m generalizing t s with
  | zero =>
      obtain rfl : t = 512 := by omega
      exact ⟨s, rfl, b⟩
  | succ m ih =>
      rw [List.range'_succ, List.map_cons]
      obtain ⟨s', done, b'⟩ := b.latch.setPte (by omega) fuel
      rw [newTablePtes_cons b.types done, Outcome.ok_bind, if_pos rfl]
      exact ih b' (by omega)

/-- The second loop of ALvmxEPTnewTable. -/
theorem newTablePdes_built (fuel : Nat) {m : Nat} (b : Built P k start t n (directories n) s)
    (some : 1 ≤ n) (rest : n + m = 262144) :
    Died (newTablePdes P (fuel + 2) (setAccess 0 .full) (P.page k)
        ((List.range' n m).map pdeAddress) s) start (k + 515) ∨
      ∃ s', newTablePdes P (fuel + 2) (setAccess 0 .full) (P.page k)
        ((List.range' n m).map pdeAddress) s = .ok (true, s') ∧ Built P k start t 262144 512 s' := by
  induction m generalizing n s with
  | zero =>
      obtain rfl : n = 262144 := by omega
      exact .inr ⟨s, rfl, b⟩
  | succ m ih =>
      rw [List.range'_succ, List.map_cons]
      rcases b.latch.setPde some (by omega) fuel with died | ⟨s', done, b'⟩
      · left
        rw [newTablePdes_cons b.types rfl]
        refine (died.mono ?_ rfl).bind _
        rw [directories]
        omega
      · rw [newTablePdes_cons b.types done, Outcome.ok_bind, if_pos rfl]
        exact ih b' (by omega) (by omega)

/-- The first loop of ALvmxEPTnewTable, with the new root in page `k`. -/
theorem Fresh.newTablePtes (f : Fresh P s k) (room : k < poolPages) (fuel : Nat) :
    Died (newTablePtes P (fuel + 4) (setAccess 0 .full) (P.page k)
        ((List.range 512).map pteAddress) (s.withPages (k + 1))) s (k + 4) ∨
      ∃ s', newTablePtes P (fuel + 4) (setAccess 0 .full) (P.page k)
        ((List.range 512).map pteAddress) (s.withPages (k + 1)) = .ok (true, s') ∧
        Built P k s 512 1 1 s' := by
  have fresh : Fresh P (s.withPages (k + 1)).latch (k + 1) :=
    ⟨room, rfl, f.top, fun i hi inside a => f.zero i (by omega) inside a⟩
  rw [List.range_eq_range', @List.range'_succ 0 511 1, List.map_cons]
  have types : (s.withPages (k + 1)).mtrrData = s.mtrrData := rfl
  have latched : (s.withPages (k + 1)).latch.mtrrData = s.mtrrData := rfl
  have memEnd : (s.withPages (k + 1)).latch.limits.poolBigMemEnd = s.limits.poolBigMemEnd := rfl
  rcases fresh.setPte (fun a => f.zero k (Nat.le_refl k) room a) room memEnd latched fuel with
    died | ⟨s1, done, b⟩
  · left
    rw [newTablePtes_cons types rfl]
    exact died.bind _
  · right
    obtain ⟨s2, rest, b'⟩ := newTablePtes_built (fuel + 3) b (show 1 + 511 = 512 by omega)
    rw [newTablePtes_cons types done, Outcome.ok_bind, if_pos rfl, rest]
    exact ⟨s2, rfl, b'⟩

theorem Fresh.newTable (f : Fresh P s k) (fuel : Nat) :
    Died (alVmxEptNewTable P (fuel + 4) (setAccess 0 .full) constEptSize s) s (k + 515) ∨
      ∃ s', alVmxEptNewTable P (fuel + 4) (setAccess 0 .full) constEptSize s =
        .ok (true, P.page k, s') ∧ Built P k s 512 262144 512 s' := by
  have size : constEptSize * 512 - 1 = 262143 := rfl
  rw [alVmxEptNewTable, size]
  rcases allocatePage_cases (P := P) f.usable f.top f.bound with died | ⟨room, took⟩
  · exact .inl ((died.mono (by omega) rfl).bind _)
  rw [took]
  simp only [Outcome.ok_bind]
  rcases f.newTablePtes room fuel with died | ⟨s1, done, b⟩
  · exact .inl ((died.mono (by omega) rfl).bind _)
  unfold pteAddress at done
  rw [done]
  simp only [Outcome.ok_bind, Bool.not_true, Bool.false_eq_true, if_false]
  have start : Built P k s 512 1 (directories 1) s1 := b
  rcases newTablePdes_built (fuel + 2) start (Nat.le_refl 1) (show 1 + 262143 = 262144 by rfl) with
    died | ⟨s2, done, b⟩
  · exact .inl (died.bind _)
  · right
    unfold pdeAddress at done
    rw [done]
    exact ⟨s2, rfl, b⟩

/-- The places of the tables. -/
noncomputable def builtRole (P : Platform) (k : Nat) (f : Frame) : Option (List Index) :=
  open Classical in
  if f = P.page k then some []
  else if f = P.page (k + 1) then some [0, 0, 0]
  else if f = P.page (k + 2) then some [0]
  else if h : ∃ q : Index, f = P.page (k + 3 + q.toNat) then some [0, h.choose]
  else none

section Roles
variable (b : Built P k start 512 262144 512 s)
include b

omit b in
theorem role_pml4 : builtRole P k (P.page k) = some [] := if_pos rfl

theorem Built.role_pt : builtRole P k (P.page (k + 1)) = some [0, 0, 0] := by
  have bound := b.bound
  rw [builtRole, if_neg (P.page_ne (by omega) (by omega) (by omega)), if_pos rfl]

theorem Built.role_pdpt : builtRole P k (P.page (k + 2)) = some [0] := by
  have bound := b.bound
  rw [builtRole, if_neg (P.page_ne (by omega) (by omega) (by omega)),
    if_neg (P.page_ne (by omega) (by omega) (by omega)), if_pos rfl]

theorem Built.role_pd (q : Index) : builtRole P k (P.page (k + 3 + q.toNat)) = some [0, q] := by
  have bound := b.bound
  have small := q.isLt
  have found : ∃ q' : Index, P.page (k + 3 + q.toNat) = P.page (k + 3 + q'.toNat) := ⟨q, rfl⟩
  have same : found.choose = q := by
    have other := found.choose.isLt
    apply BitVec.eq_of_toNat_eq
    have := P.distinct _ _ (by omega) (by omega) found.choose_spec
    omega
  rw [builtRole, if_neg (P.page_ne (by omega) (by omega) (by omega)),
    if_neg (P.page_ne (by omega) (by omega) (by omega)),
    if_neg (P.page_ne (by omega) (by omega) (by omega)), dif_pos found, same]

theorem Built.role_cases {f : Frame} {is : List Index} (h : builtRole P k f = some is) :
    (f = P.page k ∧ is = []) ∨ (f = P.page (k + 1) ∧ is = [0, 0, 0]) ∨
      (f = P.page (k + 2) ∧ is = [0]) ∨ ∃ q : Index, f = P.page (k + 3 + q.toNat) ∧ is = [0, q] := by
  by_cases pml4 : f = P.page k
  · rw [pml4, role_pml4] at h
    exact .inl ⟨pml4, (Option.some.inj h).symm⟩
  by_cases pt : f = P.page (k + 1)
  · rw [pt, b.role_pt] at h
    exact .inr (.inl ⟨pt, (Option.some.inj h).symm⟩)
  by_cases pdpt : f = P.page (k + 2)
  · rw [pdpt, b.role_pdpt] at h
    exact .inr (.inr (.inl ⟨pdpt, (Option.some.inj h).symm⟩))
  by_cases pd : ∃ q : Index, f = P.page (k + 3 + q.toNat)
  · obtain ⟨q, hq⟩ := pd
    rw [hq, b.role_pd] at h
    exact .inr (.inr (.inr ⟨q, hq, (Option.some.inj h).symm⟩))
  · rw [builtRole, if_neg pml4, if_neg pt, if_neg pdpt, dif_neg pd] at h
    cases h

theorem Built.pde_eq (q a : Index) : s.mem (P.page (k + 3 + q.toNat)) a =
    if q = 0 ∧ a = 0 then tableEntry (P.page (k + 1))
    else newPde start (pdeAddress (512 * q.toNat + a.toNat)) := by
  have smallQ := q.isLt
  have smallA := a.isLt
  rw [b.pd q.toNat smallQ]
  have zero : q.toNat = 0 ↔ q = 0 := (index_eq_ofNat (n := 0) (by omega)).symm
  simp only [zero, if_pos (show 512 * q.toNat + a.toNat < 262144 by omega)]

theorem Built.shaped : Shaped (builtRole P k) s.mem := by
  have bound := b.bound
  refine ⟨?_, fun f l hf other => ?_, fun f is a hf short top => ?_⟩
  · by_contra placed
    obtain ⟨is, h⟩ := Option.ne_none_iff_exists'.mp placed
    rcases b.role_cases h with ⟨zero, -⟩ | ⟨zero, -⟩ | ⟨zero, -⟩ | ⟨q, zero, -⟩
    · exact P.nonzero k (by omega) zero.symm
    · exact P.nonzero (k + 1) (by omega) zero.symm
    · exact P.nonzero (k + 2) (by omega) zero.symm
    · have := q.isLt
      exact P.nonzero (k + 3 + q.toNat) (by omega) zero.symm
  · rcases b.role_cases hf with ⟨rfl, -⟩ | ⟨-, empty⟩ | ⟨-, empty⟩ | ⟨q, -, empty⟩
    · rw [b.pml4]
      exact if_neg other
    · cases empty
    · cases empty
    · cases empty
  · rcases b.role_cases hf with ⟨rfl, rfl⟩ | ⟨rfl, rfl⟩ | ⟨rfl, rfl⟩ | ⟨q, rfl, rfl⟩
    · left
      rw [b.pml4, top rfl]
      simp only [if_true, pageFrameNumber_tableEntry]
      exact ⟨largePage_tableEntry _, b.role_pdpt⟩
    · simp at short
    · left
      rw [b.pdpt]
      simp only [if_pos a.isLt, pageFrameNumber_tableEntry]
      exact ⟨largePage_tableEntry _, b.role_pd a⟩
    · rw [b.pde_eq]
      by_cases first : q = 0 ∧ a = 0
      · left
        rw [if_pos first, pageFrameNumber_tableEntry, first.1, first.2]
        exact ⟨largePage_tableEntry _, b.role_pt⟩
      · right
        rw [if_neg first]
        exact ⟨rfl, largePage_newPde _ _⟩

theorem Built.tables : Tables P s (builtRole P k) (k + 515) := by
  have bound := b.bound
  refine ⟨b.shaped, by omega, b.usable, b.top, fun f placed => ?_, fun i later inside => ?_⟩
  · obtain ⟨is, h⟩ := Option.ne_none_iff_exists'.mp placed
    rcases b.role_cases h with ⟨rfl, -⟩ | ⟨rfl, -⟩ | ⟨rfl, -⟩ | ⟨q, rfl, -⟩
    · exact ⟨k, by omega, rfl⟩
    · exact ⟨k + 1, by omega, rfl⟩
    · exact ⟨k + 2, by omega, rfl⟩
    · have := q.isLt
      exact ⟨k + 3 + q.toNat, by omega, rfl⟩
  · exact b.zero i (by omega) inside

theorem Built.entries {gpa : BitVec 64} (low : pml4Index gpa = 0) :
    entryAt s.mem (P.page k) gpa 0 = some (tableEntry (P.page (k + 2))) ∧
      entryAt s.mem (P.page k) gpa 1 =
        some (tableEntry (P.page (k + 3 + (pdptIndex gpa).toNat))) ∧
      entryAt s.mem (P.page k) gpa 2 =
        some (if pdptIndex gpa = 0 ∧ pdIndex gpa = 0 then tableEntry (P.page (k + 1))
          else newPde start (pdeAddress (512 * (pdptIndex gpa).toNat + (pdIndex gpa).toNat))) ∧
      entryAt s.mem (P.page k) gpa 3 =
        if pdptIndex gpa = 0 ∧ pdIndex gpa = 0 then
          some (newPte start (pteAddress (ptIndex gpa).toNat))
        else none := by
  have bound := b.bound
  have below : ∀ {n f q}, tableAt s.mem (P.page k) gpa n = some f →
      s.mem f (indexAt gpa n) = tableEntry q → q ≠ 0 →
      entryAt s.mem (P.page k) gpa n = some (tableEntry q) ∧
        tableAt s.mem (P.page k) gpa (n + 1) = some q := by
    intro n f q hf entry nonzero
    rw [tableAt_succ, entryAt_eq hf, entry, Option.bind_some]
    exact ⟨rfl, child_eq_some.mpr ⟨largePage_tableEntry q, pageFrameNumber_tableEntry q, nonzero⟩⟩
  have top : tableAt s.mem (P.page k) gpa 0 = some (P.page k) := rfl
  obtain ⟨e0, t1⟩ := below top (q := P.page (k + 2))
    (by rw [b.pml4]; exact if_pos low) (P.nonzero _ (by omega))
  obtain ⟨e1, t2⟩ := below t1 (q := P.page (k + 3 + (pdptIndex gpa).toNat))
    (by rw [b.pdpt]; exact if_pos (pdptIndex gpa).isLt)
    (P.nonzero _ (by have := (pdptIndex gpa).isLt; omega))
  have pde := b.pde_eq (pdptIndex gpa) (pdIndex gpa)
  refine ⟨e0, e1, ?_, ?_⟩
  · rw [entryAt_eq t2]
    exact congrArg some pde
  · by_cases first : pdptIndex gpa = 0 ∧ pdIndex gpa = 0
    · rw [if_pos first] at pde ⊢
      obtain ⟨-, t3⟩ := below t2 pde (P.nonzero _ (by omega))
      rw [entryAt_eq t3]
      exact congrArg some (b.pt _ (ptIndex gpa).isLt)
    · rw [if_neg first] at pde ⊢
      refine entryAt_none ?_
      rw [tableAt_succ, entryAt_eq t2, Option.bind_some, child]
      refine if_pos (.inl ?_)
      change largePage (s.mem _ (pdIndex gpa)) = true
      rw [pde, largePage_newPde]

end Roles

end Loops

end LMalz.Ept
