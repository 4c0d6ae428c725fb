import LMalz.Lib.LeastScan
import LMalz.Mtrr.MemoryType

/- What calc_mtrr_mem_type computes, beside the precedence of overlapping variable ranges. -/
namespace LMalz.Mtrr

def MEMORY_TYPE_WRITE_THROUGH : BitVec 8 := 4

/-- The address agrees with the base in every bit that the mask selects. -/
def VariableRange.Covers (r : VariableRange) (pfn : BitVec 64) : Prop :=
  ∀ i < 36, r.maskFrame.getLsbD i = true → pfn.getLsbD i = r.baseFrame.getLsbD i

/-- The types of the variable ranges that match a page. -/
def MtrrData.matching (mtrrs : MtrrData) (pfn : BitVec 64) : Set (BitVec 8) :=
  {t | ∃ r ∈ mtrrs.variables, r.Covers pfn ∧ r.type = t}

def MtrrData.defaultType (mtrrs : MtrrData) : BitVec 8 :=
  (defaultMemoryType mtrrs.defType).setWidth 8

/-- A page that calc_mtrr_mem_type takes for one of an enabled fixed range. -/
def MtrrData.Fixed (mtrrs : MtrrData) (pfn : BitVec 64) : Prop :=
  pfn < 0x100 ∧ fixedRangeSupported mtrrs.cap = true ∧ fixedRangeMtrrEnable mtrrs.defType = true

/-- A page of an enabled fixed range, one that an uncacheable range matches, or one that no range
matches while the default is uncacheable. -/
def MtrrData.Uncacheable (mtrrs : MtrrData) (pfn : BitVec 64) : Prop :=
  mtrrs.Fixed pfn ∨ MEMORY_TYPE_UNCACHEABLE ∈ mtrrs.matching pfn ∨
    (mtrrs.matching pfn = ∅ ∧ mtrrs.defaultType = MEMORY_TYPE_UNCACHEABLE)

/-- The pages that intersect a range of addresses. -/
def pagesOf (address size : BitVec 64) : Set (BitVec 64) :=
  {pfn | ∃ byte, address.toNat ≤ byte ∧ byte < address.toNat + size.toNat ∧
    byte / 0x1000 = pfn.toNat}

/-- The end of a range, rounded up to a page. -/
def endOf (address size : BitVec 64) : Nat :=
  address.toNat + (size.toNat + 0xFFF) / 0x1000 * 0x1000

section Ranges
variable {mtrrs : MtrrData} {pfn : BitVec 64} {rs rs' : List VariableRange}

theorem mem_readMtrrData {msrs : Msrs} {r : VariableRange} :
    r ∈ (readMtrrData msrs).variables ↔
      (∃ i < (variableRangeCount (msrs IA32_MTRR_CAPABILITIES)).toNat, variableRange msrs i = r) ∧
        r.valid = true := by
  simp only [readMtrrData, List.mem_filter, List.mem_map, List.mem_range]

theorem VariableRange.covers_iff (r : VariableRange) (pfn : BitVec 64) :
    pfn &&& r.maskFrame.setWidth 64 = (r.baseFrame &&& r.maskFrame).setWidth 64 ↔
      r.Covers pfn := by
  constructor
  · intro same i hi selected
    have bit := congrArg (BitVec.getLsbD · i) same
    simpa [selected, show i < 64 by omega] using bit
  · intro covers
    ext i hi
    by_cases selected : r.maskFrame.getLsbD i = true
    · have low : i < 36 := BitVec.lt_of_getLsbD selected
      simpa [selected, BitVec.getLsbD_eq_getElem hi] using covers i low selected
    · simp [Bool.not_eq_true _ ▸ selected]

instance (r : VariableRange) (pfn : BitVec 64) : Decidable (r.Covers pfn) :=
  decidable_of_iff _ (r.covers_iff pfn)

/-- The types of the ranges of a list that match a page. -/
def typesAt (pfn : BitVec 64) (rs : List VariableRange) : List (BitVec 8) :=
  (rs.filter (·.Covers pfn)).map VariableRange.type

theorem mem_typesAt {t : BitVec 8} : t ∈ typesAt pfn rs ↔ ∃ r ∈ rs, r.Covers pfn ∧ r.type = t := by
  simp only [typesAt, List.mem_map, List.mem_filter, decide_eq_true_eq, and_assoc]

theorem calcVariable_eq (curr : BitVec 8) :
    calcVariable mtrrs pfn rs curr =
      if LeastScan.scan BitVec.toNat MEMORY_TYPE_UNCACHEABLE (typesAt pfn rs) curr =
          MEMORY_TYPE_INVALID
      then mtrrs.defaultType
      else LeastScan.scan BitVec.toNat MEMORY_TYPE_UNCACHEABLE (typesAt pfn rs) curr := by
  induction rs generalizing curr with
  | nil => rfl
  | cons r rs ih =>
      rw [calcVariable, if_congr (r.covers_iff pfn) rfl rfl]
      by_cases covers : r.Covers pfn
      · have head : typesAt pfn (r :: rs) = r.type :: typesAt pfn rs := by
          simp [typesAt, covers]
        rw [if_pos covers, head, LeastScan.scan]
        by_cases uncacheable : r.type = MEMORY_TYPE_UNCACHEABLE
        · rw [if_pos uncacheable, if_pos uncacheable, if_neg (by decide)]
        · rw [if_neg uncacheable, if_neg uncacheable, ih]
          rfl
      · have skip : typesAt pfn (r :: rs) = typesAt pfn rs := by simp [typesAt, covers]
        rw [if_neg covers, skip, ih]

instance : DecidablePred Architectural := fun t =>
  inferInstanceAs (Decidable (t = 0 ∨ t = 1 ∨ t = 4 ∨ t = 5 ∨ t = 6))

theorem Architectural.valid {t : BitVec 8} (h : Architectural t) :
    t.toNat < MEMORY_TYPE_INVALID.toNat := by
  rcases h with rfl | rfl | rfl | rfl | rfl <;> decide

theorem uncacheable_least (t : BitVec 8) : MEMORY_TYPE_UNCACHEABLE.toNat ≤ t.toNat := Nat.zero_le _

/-- A page that some range matches has the least of the matching types. -/
theorem calcVariable_isLeast (types : ∀ r ∈ rs, Architectural r.type)
    (matched : typesAt pfn rs ≠ []) :
    calcVariable mtrrs pfn rs MEMORY_TYPE_INVALID ∈ typesAt pfn rs ∧
      IsLeast {n | ∃ t ∈ typesAt pfn rs, n = t.toNat}
        (calcVariable mtrrs pfn rs MEMORY_TYPE_INVALID).toNat := by
  have below : ∀ t ∈ typesAt pfn rs, t.toNat < MEMORY_TYPE_INVALID.toNat := by
    intro t ht
    obtain ⟨r, mem, -, rfl⟩ := mem_typesAt.mp ht
    exact (types r mem).valid
  rw [calcVariable_eq, if_neg (LeastScan.scan_ne uncacheable_least below matched)]
  exact LeastScan.scan_isLeast uncacheable_least below matched

theorem calcVariable_default (unmatched : typesAt pfn rs = []) :
    calcVariable mtrrs pfn rs MEMORY_TYPE_INVALID = mtrrs.defaultType := by
  rw [calcVariable_eq, unmatched]
  rfl

theorem calcVariable_perm (perm : rs.Perm rs') (curr : BitVec 8) :
    calcVariable mtrrs pfn rs curr = calcVariable mtrrs pfn rs' curr := by
  have same : (typesAt pfn rs).Perm (typesAt pfn rs') := (perm.filter _).map _
  rw [calcVariable_eq, calcVariable_eq,
    LeastScan.scan_perm (fun _ _ h => BitVec.eq_of_toNat_eq h) uncacheable_least same]

theorem calcMtrrMemTypePage_free (enabled : mtrrEnable mtrrs.defType = true)
    (free : ¬ mtrrs.Fixed pfn) :
    calcMtrrMemTypePage mtrrs pfn = calcVariable mtrrs pfn mtrrs.variables MEMORY_TYPE_INVALID := by
  rw [calcMtrrMemTypePage, enabled, if_neg (by decide)]
  exact if_neg free

/-- The type of a page that no fixed range governs is the matching type of the least number. -/
theorem calcMtrrMemTypePage_least (valid : mtrrs.Valid) (enabled : mtrrEnable mtrrs.defType = true)
    (free : ¬ mtrrs.Fixed pfn) {t : BitVec 8} (ht : t ∈ mtrrs.matching pfn) :
    calcMtrrMemTypePage mtrrs pfn ∈ mtrrs.matching pfn ∧
      (calcMtrrMemTypePage mtrrs pfn).toNat ≤ t.toNat := by
  have mem := mem_typesAt.mpr ht
  obtain ⟨found, -, least⟩ := calcVariable_isLeast valid.variables (List.ne_nil_of_mem mem)
  rw [calcMtrrMemTypePage_free enabled free]
  exact ⟨mem_typesAt.mp found, least ⟨t, mem, rfl⟩⟩

theorem calcMtrrMemTypePage_precedence (valid : mtrrs.Valid)
    (enabled : mtrrEnable mtrrs.defType = true) (free : ¬ mtrrs.Fixed pfn) :
    (mtrrs.matching pfn = ∅ → calcMtrrMemTypePage mtrrs pfn = mtrrs.defaultType) ∧
    (MEMORY_TYPE_UNCACHEABLE ∈ mtrrs.matching pfn →
      calcMtrrMemTypePage mtrrs pfn = MEMORY_TYPE_UNCACHEABLE) ∧
    (mtrrs.matching pfn = {MEMORY_TYPE_WRITE_THROUGH, MEMORY_TYPE_WRITE_BACK} →
      calcMtrrMemTypePage mtrrs pfn = MEMORY_TYPE_WRITE_THROUGH) ∧
    (∀ t, mtrrs.matching pfn = {t} → calcMtrrMemTypePage mtrrs pfn = t) := by
  refine ⟨fun unmatched => ?_, fun uncacheable => ?_, fun both => ?_, fun t only => ?_⟩
  · rw [calcMtrrMemTypePage_free enabled free]
    apply calcVariable_default
    apply List.eq_nil_iff_forall_not_mem.mpr
    intro t ht
    exact (unmatched ▸ mem_typesAt.mp ht : t ∈ (∅ : Set (BitVec 8)))
  · obtain ⟨-, least⟩ := calcMtrrMemTypePage_least valid enabled free uncacheable
    exact BitVec.eq_of_toNat_eq (Nat.le_zero.mp least)
  · obtain ⟨found, least⟩ := calcMtrrMemTypePage_least valid enabled free
      (t := MEMORY_TYPE_WRITE_THROUGH) (both ▸ .inl rfl)
    rw [both] at found
    rcases found with through | back
    · exact through
    · rw [Set.mem_singleton_iff.mp back] at least
      exact absurd least (by decide)
  · obtain ⟨found, -⟩ := calcMtrrMemTypePage_least valid enabled free (t := t) (only ▸ rfl)
    rw [only] at found
    exact found

theorem calcMtrrMemTypePage_uncacheable_iff (valid : mtrrs.Valid)
    (enabled : mtrrEnable mtrrs.defType = true) :
    calcMtrrMemTypePage mtrrs pfn = MEMORY_TYPE_UNCACHEABLE ↔ mtrrs.Uncacheable pfn := by
  by_cases fixed : mtrrs.Fixed pfn
  · refine iff_of_true ?_ (.inl fixed)
    rw [calcMtrrMemTypePage, enabled, if_neg (by decide)]
    exact if_pos fixed
  rw [MtrrData.Uncacheable, or_iff_right fixed]
  obtain ⟨unmatched, uncacheable, -, -⟩ := calcMtrrMemTypePage_precedence valid enabled fixed
  constructor
  · intro type
    rcases (mtrrs.matching pfn).eq_empty_or_nonempty with none | ⟨t, ht⟩
    · exact .inr ⟨none, (unmatched none).symm.trans type⟩
    · obtain ⟨found, -⟩ := calcMtrrMemTypePage_least valid enabled fixed ht
      exact .inl (type ▸ found)
  · rintro (found | ⟨none, default⟩)
    · exact uncacheable found
    · exact (unmatched none).trans default

theorem calcVariable_ranges (rs : List VariableRange) (curr : BitVec 8) (qs : List VariableRange) :
    calcVariable { mtrrs with «variables» := qs } pfn rs curr = calcVariable mtrrs pfn rs curr := by
  rw [calcVariable_eq, calcVariable_eq]
  rfl

theorem calcMtrrMemTypePage_perm (perm : mtrrs.variables.Perm rs) (pfn : BitVec 64) :
    calcMtrrMemTypePage mtrrs pfn = calcMtrrMemTypePage { mtrrs with «variables» := rs } pfn := by
  unfold calcMtrrMemTypePage
  rw [calcVariable_perm perm, ← calcVariable_ranges rs _ rs]

end Ranges

section Pages
variable {mtrrs : MtrrData} {address size : BitVec 64}

/-- The types of `n` pages one behind the other. -/
def typesFrom (mtrrs : MtrrData) (address : BitVec 64) : Nat → List (BitVec 8)
  | 0 => []
  | n + 1 => calcMtrrMemTypePage mtrrs (address >>> 12) :: typesFrom mtrrs (address + 0x1000) n

theorem calcPages_eq (n : Nat) (curr : BitVec 8) :
    calcPages mtrrs n address curr =
      if LeastScan.scan BitVec.toNat MEMORY_TYPE_UNCACHEABLE (typesFrom mtrrs address n) curr =
          MEMORY_TYPE_INVALID
      then MEMORY_TYPE_UNCACHEABLE
      else LeastScan.scan BitVec.toNat MEMORY_TYPE_UNCACHEABLE (typesFrom mtrrs address n) curr := by
  induction n generalizing address curr with
  | zero => rfl
  | succ n ih =>
      simp only [calcPages, typesFrom, LeastScan.scan]
      by_cases uncacheable : calcMtrrMemTypePage mtrrs (address >>> 12) = MEMORY_TYPE_UNCACHEABLE
      · rw [if_pos uncacheable, if_pos uncacheable, uncacheable, if_neg (by decide)]
      · rw [if_neg uncacheable, if_neg uncacheable, ih]
        rfl

theorem mem_typesFrom {n : Nat} {t : BitVec 8} :
    t ∈ typesFrom mtrrs address n ↔
      ∃ k < n, calcMtrrMemTypePage mtrrs ((address + BitVec.ofNat 64 (k * 0x1000)) >>> 12) = t := by
  induction n generalizing address with
  | zero => simp [typesFrom]
  | succ n ih =>
      rw [typesFrom, List.mem_cons, ih]
      constructor
      · rintro (rfl | ⟨k, hk, rfl⟩)
        · exact ⟨0, Nat.succ_pos n, by simp⟩
        · refine ⟨k + 1, Nat.succ_lt_succ hk, ?_⟩
          rw [Nat.succ_mul, Nat.add_comm, BitVec.ofNat_add, ← BitVec.add_assoc]
          rfl
      · rintro ⟨k, hk, rfl⟩
        cases k with
        | zero => exact .inl (by simp)
        | succ k =>
            refine .inr ⟨k, Nat.lt_of_succ_lt_succ hk, ?_⟩
            rw [Nat.succ_mul, Nat.add_comm, BitVec.ofNat_add, ← BitVec.add_assoc]
            rfl

theorem mem_typesFrom_range {t : BitVec 8} (aligned : address.toNat % 0x1000 = 0)
    (noOverflow : endOf address size < 2 ^ 64) :
    t ∈ typesFrom mtrrs address ((size.toNat + 0xFFF) / 0x1000) ↔
      ∃ pfn ∈ pagesOf address size, calcMtrrMemTypePage mtrrs pfn = t := by
  have page : ∀ k, k < (size.toNat + 0xFFF) / 0x1000 →
      ((address + BitVec.ofNat 64 (k * 0x1000)) >>> 12).toNat = address.toNat / 0x1000 + k := by
    intro k hk
    have inside : address.toNat + k * 0x1000 < 2 ^ 64 := by
      refine lt_of_le_of_lt (Nat.add_le_add_left ?_ _) noOverflow
      exact Nat.mul_le_mul_right _ hk.le
    have sum : (address + BitVec.ofNat 64 (k * 0x1000)).toNat = address.toNat + k * 0x1000 := by
      rw [BitVec.toNat_add, BitVec.toNat_ofNat, Nat.add_mod_mod, Nat.mod_eq_of_lt inside]
    rw [BitVec.toNat_ushiftRight, sum, Nat.shiftRight_eq_div_pow]
    exact Nat.add_mul_div_right _ _ (by decide)
  rw [mem_typesFrom]
  constructor
  · rintro ⟨k, hk, rfl⟩
    refine ⟨_, ⟨address.toNat + k * 0x1000, by omega, by omega, ?_⟩, rfl⟩
    rw [page k hk]
    omega
  · rintro ⟨pfn, ⟨byte, first, last, number⟩, rfl⟩
    refine ⟨pfn.toNat - address.toNat / 0x1000, by omega, ?_⟩
    congr 1
    apply BitVec.eq_of_toNat_eq
    rw [page _ (by omega)]
    omega

theorem pageStart_eq (aligned : address.toNat % 0x1000 = 0) : address &&& ~~~0xFFF = address := by
  apply BitVec.eq_of_toNat_eq
  rw [BitField.toNat_and_not_low (show _ = 2 ^ 12 - 1 from rfl)]
  omega

theorem toNat_roundedSize (size : BitVec 64) :
    ((size + 0xFFF) &&& ~~~0xFFF).toNat = (size.toNat + 0xFFF) % 2 ^ 64 / 0x1000 * 0x1000 := by
  have literal : (0xFFF : BitVec 64).toNat = 0xFFF := rfl
  rw [BitField.toNat_and_not_low (show _ = 2 ^ 12 - 1 from rfl), BitVec.toNat_add, literal]
  rfl

theorem calcMtrrMemType_eq (aligned : address.toNat % 0x1000 = 0)
    (noOverflow : endOf address size < 2 ^ 64) :
    calcMtrrMemType mtrrs address size =
      calcPages mtrrs ((size.toNat + 0xFFF) / 0x1000) address MEMORY_TYPE_INVALID := by
  rw [endOf] at noOverflow
  have small : (size.toNat + 0xFFF) % 2 ^ 64 = size.toNat + 0xFFF := Nat.mod_eq_of_lt (by omega)
  simp only [calcMtrrMemType, pageStart_eq aligned, toNat_roundedSize, small, if_pos noOverflow]
  rw [Nat.mul_div_cancel _ (by decide)]

/-- If the end wraps the loop visits no page, and the range passes for uncacheable. -/
theorem calcMtrrMemType_wraps (aligned : address.toNat % 0x1000 = 0)
    (wraps : 2 ^ 64 ≤ endOf address size) :
    calcMtrrMemType mtrrs address size = MEMORY_TYPE_UNCACHEABLE := by
  rw [endOf] at wraps
  have none : (if address.toNat + (size.toNat + 0xFFF) % 2 ^ 64 / 0x1000 * 0x1000 < 2 ^ 64
      then (size.toNat + 0xFFF) % 2 ^ 64 / 0x1000 * 0x1000 / 0x1000 else 0) = 0 := by
    split_ifs with below
    · have small := size.isLt
      omega
    · rfl
  simp only [calcMtrrMemType, pageStart_eq aligned, toNat_roundedSize, none]
  rfl

theorem calcMtrrMemType_isLeast (valid : mtrrs.Valid) (aligned : address.toNat % 0x1000 = 0)
    (nonempty : 0 < size.toNat) (noOverflow : endOf address size < 2 ^ 64) :
    IsLeast {n | ∃ pfn ∈ pagesOf address size, n = (calcMtrrMemTypePage mtrrs pfn).toNat}
      (calcMtrrMemType mtrrs address size).toNat := by
  have visited := fun t => @mem_typesFrom_range mtrrs address size t aligned noOverflow
  have below : ∀ t ∈ typesFrom mtrrs address ((size.toNat + 0xFFF) / 0x1000),
      t.toNat < MEMORY_TYPE_INVALID.toNat := by
    intro t ht
    obtain ⟨pfn, -, rfl⟩ := (visited t).mp ht
    exact (calcMtrrMemTypePage_architectural valid pfn).valid
  have visits : typesFrom mtrrs address ((size.toNat + 0xFFF) / 0x1000) ≠ [] := by
    obtain ⟨n, hn⟩ : ∃ n, (size.toNat + 0xFFF) / 0x1000 = n + 1 := ⟨(size.toNat - 1) / 0x1000, by omega⟩
    rw [hn, typesFrom]
    exact List.cons_ne_nil _ _
  obtain ⟨-, least⟩ := LeastScan.scan_isLeast uncacheable_least below visits
  have same : {n | ∃ pfn ∈ pagesOf address size, n = (calcMtrrMemTypePage mtrrs pfn).toNat} =
      {n | ∃ t ∈ typesFrom mtrrs address ((size.toNat + 0xFFF) / 0x1000), n = t.toNat} := by
    ext n
    constructor
    · rintro ⟨pfn, hp, rfl⟩
      exact ⟨_, (visited _).mpr ⟨pfn, hp, rfl⟩, rfl⟩
    · rintro ⟨t, ht, rfl⟩
      obtain ⟨pfn, hp, rfl⟩ := (visited t).mp ht
      exact ⟨pfn, hp, rfl⟩
  rw [calcMtrrMemType_eq aligned noOverflow, calcPages_eq,
    if_neg (LeastScan.scan_ne uncacheable_least below visits), same]
  exact least

/-- The rounding of the last page is what can go wrong. -/
theorem calcMtrrMemType_isLeast_iff (valid : mtrrs.Valid)
    (enabled : mtrrEnable mtrrs.defType = true) (aligned : address.toNat % 0x1000 = 0)
    (nonempty : 0 < size.toNat) :
    IsLeast {n | ∃ pfn ∈ pagesOf address size, n = (calcMtrrMemTypePage mtrrs pfn).toNat}
        (calcMtrrMemType mtrrs address size).toNat ↔
      endOf address size < 2 ^ 64 ∨ ∃ pfn ∈ pagesOf address size, mtrrs.Uncacheable pfn := by
  simp only [← calcMtrrMemTypePage_uncacheable_iff valid enabled]
  by_cases fits : endOf address size < 2 ^ 64
  · exact iff_of_true (calcMtrrMemType_isLeast valid aligned nonempty fits) (.inl fits)
  rw [calcMtrrMemType_wraps aligned (Nat.le_of_not_lt fits)]
  constructor
  · rintro ⟨⟨pfn, page, zero⟩, -⟩
    exact .inr ⟨pfn, page, BitVec.eq_of_toNat_eq zero.symm⟩
  · rintro (below | ⟨pfn, page, uncacheable⟩)
    · exact absurd below fits
    · exact ⟨⟨pfn, page, by rw [uncacheable]⟩, fun n _ => Nat.zero_le n⟩

/-- The precedence of the variable ranges, whatever their order, and when a range has the worst type
of its pages. -/
theorem calcMtrrMemType_resolution_iff (mtrrs : MtrrData) (valid : mtrrs.Valid)
    (enabled : mtrrEnable mtrrs.defType = true) :
    (∀ pfn, ¬ mtrrs.Fixed pfn →
      (mtrrs.matching pfn = ∅ → calcMtrrMemTypePage mtrrs pfn = mtrrs.defaultType) ∧
      (MEMORY_TYPE_UNCACHEABLE ∈ mtrrs.matching pfn →
        calcMtrrMemTypePage mtrrs pfn = MEMORY_TYPE_UNCACHEABLE) ∧
      (mtrrs.matching pfn = {MEMORY_TYPE_WRITE_THROUGH, MEMORY_TYPE_WRITE_BACK} →
        calcMtrrMemTypePage mtrrs pfn = MEMORY_TYPE_WRITE_THROUGH) ∧
      (∀ t, mtrrs.matching pfn = {t} → calcMtrrMemTypePage mtrrs pfn = t)) ∧
    (∀ rs, mtrrs.variables.Perm rs → ∀ pfn,
      calcMtrrMemTypePage { mtrrs with «variables» := rs } pfn = calcMtrrMemTypePage mtrrs pfn) ∧
    (∀ address size, address.toNat % 0x1000 = 0 → 0 < size.toNat →
      address.toNat + size.toNat < 2 ^ 64 →
      (IsLeast {n | ∃ pfn ∈ pagesOf address size, n = (calcMtrrMemTypePage mtrrs pfn).toNat}
          (calcMtrrMemType mtrrs address size).toNat ↔
        endOf address size < 2 ^ 64 ∨ ∃ pfn ∈ pagesOf address size, mtrrs.Uncacheable pfn)) := by
  refine ⟨fun pfn free => ?_, fun rs perm pfn => ?_, fun address size aligned nonempty _ =>
    calcMtrrMemType_isLeast_iff valid enabled aligned nonempty⟩
  · exact calcMtrrMemTypePage_precedence valid enabled free
  · exact (calcMtrrMemTypePage_perm perm pfn).symm

/-- A gigabyte of write-back memory, its first page write-through as well. -/
def overlapping : MtrrData where
  cap := 0x508
  defType := 0x806
  «variables» := [⟨0x6, 0xFFFFC0000800⟩, ⟨0x4, 0xFFFFFFFFF800⟩]

theorem overlapping_valid : overlapping.Valid where
  default := by decide
  «variables» := by decide

theorem overlapping_matching :
    overlapping.matching 0 = {MEMORY_TYPE_WRITE_THROUGH, MEMORY_TYPE_WRITE_BACK} := by
  ext t
  have types : typesAt 0 overlapping.variables = [6, 4] := by decide
  have mem : t ∈ overlapping.matching 0 ↔ t ∈ typesAt 0 overlapping.variables := mem_typesAt.symm
  rw [mem, types, List.mem_pair, or_comm]
  rfl

theorem calcMtrrMemType_resolution_iff_overlapping :
    calcMtrrMemTypePage overlapping 0 = MEMORY_TYPE_WRITE_THROUGH ∧
    calcMtrrMemTypePage { overlapping with «variables» := overlapping.variables.reverse } 0 =
      MEMORY_TYPE_WRITE_THROUGH ∧
    IsLeast {n | ∃ pfn ∈ pagesOf 0 0x1001, n = (calcMtrrMemTypePage overlapping pfn).toNat} 4 := by
  obtain ⟨page, order, range⟩ := calcMtrrMemType_resolution_iff overlapping overlapping_valid rfl
  have first := (page 0 fun fixed => absurd fixed.2.2 (by decide)).2.2.1 overlapping_matching
  refine ⟨first, ?_, (range 0 0x1001 rfl (by decide) (by decide)).mpr (.inl (by decide))⟩
  rw [order _ (List.reverse_perm _).symm, first]

/-- One byte of the last page: the end of the range does not overflow, but rounded up it is 0. -/
theorem calcMtrrMemType_misses_last_page :
    overlapping.Valid ∧ mtrrEnable overlapping.defType = true ∧
      calcMtrrMemType overlapping 0xFFFFFFFFFFFFF000 1 = MEMORY_TYPE_UNCACHEABLE ∧
        ¬ IsLeast {n | ∃ pfn ∈ pagesOf 0xFFFFFFFFFFFFF000 1,
            n = (calcMtrrMemTypePage overlapping pfn).toNat}
          (calcMtrrMemType overlapping 0xFFFFFFFFFFFFF000 1).toNat := by
  have type : calcMtrrMemType overlapping 0xFFFFFFFFFFFFF000 1 = MEMORY_TYPE_UNCACHEABLE := by decide
  refine ⟨overlapping_valid, rfl, type, ?_⟩
  rintro ⟨⟨pfn, ⟨byte, first, last, number⟩, zero⟩, -⟩
  have start : (0xFFFFFFFFFFFFF000 : BitVec 64).toNat = 0xFFFFFFFFFFFFF000 := rfl
  have one : (1 : BitVec 64).toNat = 1 := rfl
  obtain rfl : pfn = 0xFFFFFFFFFFFFF := by
    apply BitVec.eq_of_toNat_eq
    have value : (0xFFFFFFFFFFFFF : BitVec 64).toNat = 0xFFFFFFFFFFFFF := rfl
    omega
  rw [type] at zero
  exact absurd zero (by decide)

end Pages

end LMalz.Mtrr
