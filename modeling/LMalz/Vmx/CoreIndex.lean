import LMalz.Lib.BitField
import LMalz.Vmx.Start

/- The map from APIC ids to core indices, and the core that ALhvGetCurrVcoreIndex takes itself for. -/
namespace LMalz.Vmx

def APIC_MAP_SIZE : Nat := 512

/-- apid_to_coreIndex. -/
abbrev CoreMap := Nat → BitVec 8

/-- The processors as Windows and CPUID show them: EBX of leaf 1 on each core, and the core on which
a thread of an affinity runs. -/
structure Processors (θ : Type) where
  ke : AffinityCalls θ
  number : Nat → Option ProcessorNumber
  ebx : Nat → BitVec 32
  runsOn : GroupAffinity → Nat
  placed : ∀ {i p}, number i = some p → runsOn p.affinity = i

section Map
variable {θ : Type} (P : Processors θ)

/-- ALhvGetAPIC_id on a core; the results of __cpuid are `int`s. -/
def alHvGetApicId (core : Nat) : BitVec 32 := (P.ebx core).sshiftRight 24 &&& 0xFF

/-- The loop of MapAPICidToCoreIndex from core `i` on. -/
def mapCores : Nat → Nat → θ → CoreMap → Bool × θ × CoreMap
  | 0, _, thread, map => (true, thread, map)
  | count + 1, i, thread, map =>
      match P.number i with
      | none => (false, thread, map)
      | some p =>
          let (oldAffinity, thread) := P.ke.set p.affinity thread
          let apicId := alHvGetApicId P (P.runsOn (P.ke.affinity thread))
          if APIC_MAP_SIZE ≤ apicId.toNat then (false, thread, map)
          else mapCores count (i + 1) (P.ke.revert oldAffinity thread)
            (Function.update map apicId.toNat (BitVec.ofNat 8 i))

def mapApicIdToCoreIndex (coreCount : Nat) (thread : θ) : Bool × θ × CoreMap :=
  if 128 < coreCount then (false, thread, fun _ => 0) else mapCores P coreCount 0 thread fun _ => 0

/-- ALhvGetCurrVcoreIndex on a core. -/
def alHvGetCurrVcoreIndex (map : CoreMap) (core : Nat) : Nat :=
  (map (alHvGetApicId P core).toNat).toNat

/-- Every core finds its own index, and no two cores the same one. -/
def OwnIndices (map : CoreMap) (coreCount : Nat) : Prop :=
  (∀ i < coreCount, alHvGetCurrVcoreIndex P map i = i) ∧
    ∀ i < coreCount, ∀ j < coreCount,
      alHvGetCurrVcoreIndex P map i = alHvGetCurrVcoreIndex P map j → i = j

end Map

section Fill
variable {key : Nat → Nat} {map : CoreMap} {i j k n count : Nat}

/-- One write after the other at the keys of the cores. -/
def fill (key : Nat → Nat) : Nat → Nat → CoreMap → CoreMap
  | 0, _, map => map
  | count + 1, i, map => fill key count (i + 1) (Function.update map (key i) (BitVec.ofNat 8 i))

theorem fill_other (other : ∀ j, i ≤ j → j < i + count → key j ≠ k) :
    fill key count i map k = map k := by
  induction count generalizing i map with
  | zero => rfl
  | succ count ih =>
      have first : k ≠ key i := (other i (Nat.le_refl i) (by omega)).symm
      rw [fill, ih fun j low high => other j (by omega) (by omega), Function.update_of_ne first]

theorem fill_last (low : i ≤ j) (high : j < i + count)
    (last : ∀ l, j < l → l < i + count → key l ≠ key j) :
    fill key count i map (key j) = BitVec.ofNat 8 j := by
  induction count generalizing i map with
  | zero => omega
  | succ count ih =>
      rw [fill]
      rcases Nat.eq_or_lt_of_le low with rfl | later
      · rw [fill_other fun l above below => last l (by omega) (by omega), Function.update_self]
      · exact ih later (by omega) fun l above below => last l above (by omega)

/-- All writes can be read back exactly when their keys are distinct. -/
theorem fill_own_iff (small : n ≤ 128) :
    (∀ i < n, (fill key n 0 map (key i)).toNat = i) ↔
      ∀ i < n, ∀ j < n, key i = key j → i = j := by
  constructor
  · intro own i hi j hj same
    have left := own i hi
    rw [same, own j hj] at left
    exact left.symm
  · intro distinct i hi
    rw [fill_last (Nat.zero_le i) (by omega) fun l above below same =>
      absurd (distinct l (by omega) i hi same) (by omega), BitVec.toNat_ofNat]
    exact Nat.mod_eq_of_lt (by omega)

end Fill

section Lookup
variable {θ : Type} {P : Processors θ} {i count n : Nat} {thread : θ} {map : CoreMap}

theorem toNat_alHvGetApicId (P : Processors θ) (core : Nat) :
    (alHvGetApicId P core).toNat = (P.ebx core >>> 24).toNat := by
  have same : alHvGetApicId P core = P.ebx core >>> 24 := by
    apply BitVec.eq_of_getLsbD_eq
    intro i hi
    have mask : (0xFF : BitVec 32).getLsbD i = decide (i < 8) := by
      rw [BitVec.getLsbD, show (0xFF : BitVec 32).toNat = 2 ^ 8 - 1 from rfl,
        Nat.testBit_two_pow_sub_one]
    rw [alHvGetApicId, BitVec.getLsbD_and, mask, BitVec.getLsbD_sshiftRight,
      BitVec.getLsbD_ushiftRight]
    by_cases inside : i < 8
    · have fits : 24 + i < 32 := by omega
      simp [inside, hi, fits]
    · have above : 32 ≤ 24 + i := by omega
      simp [inside, BitVec.getLsbD_of_ge _ _ above]
  rw [same]

theorem apicId_below (P : Processors θ) (core : Nat) :
    (alHvGetApicId P core).toNat < APIC_MAP_SIZE := by
  have ebx := (P.ebx core).isLt
  rw [toNat_alHvGetApicId, BitVec.toNat_ushiftRight, Nat.shiftRight_eq_div_pow, APIC_MAP_SIZE]
  omega

theorem mapCores_fill (thread : θ) (map : CoreMap)
    (numbers : ∀ j, i ≤ j → j < i + count → (P.number j).isSome) :
    ∃ thread', mapCores P count i thread map =
      (true, thread', fill (fun j => (alHvGetApicId P j).toNat) count i map) := by
  induction count generalizing i thread map with
  | zero => exact ⟨thread, rfl⟩
  | succ count ih =>
      obtain ⟨p, number⟩ := Option.isSome_iff_exists.mp (numbers i (Nat.le_refl i) (by omega))
      obtain ⟨thread', run⟩ := ih (P.ke.revert (P.ke.set p.affinity thread).1 (P.ke.set p.affinity thread).2)
        (Function.update map (alHvGetApicId P i).toNat (BitVec.ofNat 8 i)) (i := i + 1)
        fun j low high => numbers j (by omega) (by omega)
      refine ⟨thread', ?_⟩
      simp only [mapCores, number, P.ke.affinity_set, P.placed number,
        if_neg (Nat.not_le.mpr (apicId_below P i)), run, fill]

theorem mapCores_fails {j : Nat} (thread : θ) (map : CoreMap) (low : i ≤ j) (high : j < i + count) (fails : P.number j = none) :
    (mapCores P count i thread map).1 = false := by
  induction count generalizing i thread map with
  | zero => omega
  | succ count ih =>
      cases number : P.number i with
      | none => simp only [mapCores, number]
      | some p =>
          have later : i ≠ j := by
            rintro rfl
            rw [fails] at number
            cases number
          simp only [mapCores, number]
          split_ifs
          · rfl
          · exact ih _ _ (by omega) (by omega)

theorem ownIndices_iff (small : n ≤ 128) :
    OwnIndices P (fill (fun j => (alHvGetApicId P j).toNat) n 0 map) n ↔
      ∀ i < n, ∀ j < n, (alHvGetApicId P i).toNat = (alHvGetApicId P j).toNat → i = j := by
  rw [← fill_own_iff small]
  constructor
  · exact fun own => own.1
  · intro own
    refine ⟨own, fun i hi j hj same => ?_⟩
    rw [alHvGetCurrVcoreIndex, alHvGetCurrVcoreIndex, own i hi, own j hj] at same
    exact same

/-- A map that is built gives each core its own index exactly when the low bytes of the ids differ. -/
theorem mapApicIdToCoreIndex_own_iff {θ : Type} (P : Processors θ) (ids : Nat → Nat) (coreCount : Nat)
    (thread : θ) (small : coreCount ≤ 128)
    (leaf : ∀ i < coreCount, (P.ebx i >>> 24).toNat = ids i % 256) :
    ((mapApicIdToCoreIndex P coreCount thread).1 = true →
      OwnIndices P (mapApicIdToCoreIndex P coreCount thread).2.2 coreCount) ↔
      (∃ i < coreCount, P.number i = none) ∨
        ∀ i < coreCount, ∀ j < coreCount, ids i % 256 = ids j % 256 → i = j := by
  rw [mapApicIdToCoreIndex, if_neg (Nat.not_lt.mpr small)]
  by_cases fails : ∃ i < coreCount, P.number i = none
  · obtain ⟨i, hi, none⟩ := fails
    have zero := mapCores_fails thread (fun _ => 0) (Nat.zero_le i)
      (show i < 0 + coreCount by omega) none
    exact iff_of_true (fun one => absurd (zero.symm.trans one) Bool.false_ne_true) (.inl ⟨i, hi, none⟩)
  · have numbers : ∀ j, 0 ≤ j → j < 0 + coreCount → (P.number j).isSome := by
      intro j _ hj
      exact Option.isSome_iff_ne_none.mpr fun none => fails ⟨j, by omega, none⟩
    obtain ⟨thread', run⟩ := mapCores_fill thread (fun _ => 0) numbers
    rw [run, or_iff_right fails]
    simp only [true_implies]
    rw [ownIndices_iff small]
    refine forall₂_congr fun i hi => forall₂_congr fun j hj => ?_
    rw [toNat_alHvGetApicId, toNat_alHvGetApicId, leaf i hi, leaf j hj]

def plainNumber (i : Nat) : Option ProcessorNumber := if i < 64 then some ⟨0, BitVec.ofNat 8 i⟩ else none

theorem plainNumber_mask {i : Nat} {p : ProcessorNumber} (number : plainNumber i = some p) :
    p.affinity.mask.toNat.log2 = i := by
  unfold plainNumber at number
  split_ifs at number with small
  obtain rfl := Option.some.inj number
  have shift : i % 2 ^ 8 = i := Nat.mod_eq_of_lt (by omega)
  have mask : 2 ^ i % 2 ^ 64 = 2 ^ i := Nat.mod_eq_of_lt (Nat.pow_lt_pow_right (by decide) small)
  rw [ProcessorNumber.affinity, BitVec.toNat_ofNat, shift, BitVec.toNat_shiftLeft,
    Nat.shiftLeft_eq, show (1#64).toNat = 1 from rfl, Nat.one_mul, mask, Nat.log2_two_pow]

/-- A thread is its affinity, and the mask of a core is a single bit. -/
def plainProcessors (ids : Nat → Nat) : Processors GroupAffinity where
  ke := plainAffinity
  number := plainNumber
  ebx i := BitVec.ofNat 8 (ids i) ++ 0#24
  runsOn a := a.mask.toNat.log2
  placed := plainNumber_mask

theorem mapApicIdToCoreIndex_own_plain :
    let P := plainProcessors (· + 300)
    OwnIndices P (mapApicIdToCoreIndex P 4 ⟨0, 15⟩).2.2 4 := by
  intro P
  refine (mapApicIdToCoreIndex_own_iff P (· + 300) 4 ⟨0, 15⟩ (by decide) (by decide)).mpr (.inr ?_)
    (by decide)
  intro i hi j hj same
  omega

/-- Ids 0 and 256 are one id to CPUID leaf 1, and both cores take themselves for core 1. -/
theorem mapApicIdToCoreIndex_collides :
    let ids := fun i => 256 * i
    let P := plainProcessors ids
    let r := mapApicIdToCoreIndex P 2 ⟨0, 3⟩
    (∀ i < 2, ∀ j < 2, ids i = ids j → i = j) ∧ (∀ i < 2, ids i ≤ 511) ∧
      (∀ i < 2, (P.ebx i >>> 24).toNat = ids i % 256) ∧
      r.1 = true ∧ ¬ OwnIndices P r.2.2 2 ∧
      alHvGetCurrVcoreIndex P r.2.2 0 = 1 ∧ alHvGetCurrVcoreIndex P r.2.2 1 = 1 := by
  refine ⟨by decide, by decide, by decide, by decide, fun own => ?_, by decide, by decide⟩
  exact absurd (own.1 0 (by decide)) (by decide)

end Lookup
end LMalz.Vmx
