import Mathlib.Algebra.Group.Nat.Defs
import Mathlib.Tactic.SplitIfs

/- Fields of consecutive bits in a machine word. -/
namespace BitField

variable {w lo len lo' len' : Nat} {v : BitVec w}

/-- The field of `len` bits from bit `lo` on. -/
def get (v : BitVec w) (lo len : Nat) : BitVec len := v.extractLsb' lo len

/-- `v` with the field from bit `lo` on replaced by `x`. -/
def set (v : BitVec w) (lo : Nat) (x : BitVec len) : BitVec w :=
  (v &&& ~~~((BitVec.allOnes len).setWidth w <<< lo)) ||| (x.setWidth w <<< lo)

theorem getLsbD_get (i : Nat) : (get v lo len).getLsbD i = (decide (i < len) && v.getLsbD (lo + i)) := by
  rw [get, BitVec.getLsbD_extractLsb']

theorem getLsbD_set (x : BitVec len) (i : Nat) :
    (set v lo x).getLsbD i =
      if lo ≤ i ∧ i < lo + len ∧ i < w then x.getLsbD (i - lo) else v.getLsbD i := by
  simp only [set, BitVec.getLsbD_or, BitVec.getLsbD_and, BitVec.getLsbD_not, BitVec.getLsbD_shiftLeft,
    BitVec.getLsbD_setWidth, BitVec.getLsbD_allOnes]
  by_cases inside : lo ≤ i ∧ i < lo + len ∧ i < w
  · obtain ⟨low, high, short⟩ := inside
    have h1 : i - lo < w := by omega
    have h2 : i - lo < len := by omega
    have h3 : ¬ i < lo := by omega
    simp [low, high, short, h1, h2, h3]
  · rw [if_neg inside]
    by_cases short : i < w
    · by_cases low : lo ≤ i
      · have high : ¬ i - lo < len := by omega
        simp [short, high, BitVec.getLsbD_of_ge x (i - lo) (by omega)]
      · have before : i < lo := by omega
        simp [short, before]
    · simp [short, BitVec.getLsbD_of_ge v i (by omega)]

theorem get_set (x : BitVec len) (fits : lo + len ≤ w) : get (set v lo x) lo len = x := by
  ext i hi
  have inside : lo ≤ lo + i ∧ lo + i < lo + len ∧ lo + i < w := by omega
  rw [← BitVec.getLsbD_eq_getElem, getLsbD_get, getLsbD_set, if_pos inside, Nat.add_sub_cancel_left]
  simp [hi, BitVec.getLsbD_eq_getElem]

theorem get_set_apart (x : BitVec len) (apart : lo + len ≤ lo' ∨ lo' + len' ≤ lo) :
    get (set v lo x) lo' len' = get v lo' len' := by
  ext i hi
  have outside : ¬ (lo ≤ lo' + i ∧ lo' + i < lo + len ∧ lo' + i < w) := by omega
  rw [← BitVec.getLsbD_eq_getElem, ← BitVec.getLsbD_eq_getElem, getLsbD_get, getLsbD_get,
    getLsbD_set, if_neg outside]

theorem set_get (v : BitVec w) (lo len : Nat) : set v lo (get v lo len) = v := by
  apply BitVec.eq_of_getLsbD_eq
  intro i hi
  rw [getLsbD_set, getLsbD_get]
  split
  · rename_i inside
    have within : i - lo < len := by omega
    have back : lo + (i - lo) = i := by omega
    simp [within, back]
  · rfl

theorem set_set (v : BitVec w) (lo : Nat) (x y : BitVec len) : set (set v lo x) lo y = set v lo y := by
  apply BitVec.eq_of_getLsbD_eq
  intro i hi
  rw [getLsbD_set, getLsbD_set, getLsbD_set]
  split <;> rfl

theorem get_append (v : BitVec w) (lo len len' : Nat) :
    get v (lo + len) len' ++ get v lo len = get v lo (len' + len) := by
  apply BitVec.eq_of_getLsbD_eq
  intro i hi
  rw [BitVec.getLsbD_append, getLsbD_get, getLsbD_get, getLsbD_get]
  by_cases low : i < len
  · simp [low, hi]
  · have back : lo + len + (i - len) = lo + i := by omega
    have within : i - len < len' := by omega
    simp [low, hi, back, within]

/-- Two fields set side by side are one field set. -/
theorem set_set_append (v : BitVec w) (lo : Nat) (x : BitVec len) (y : BitVec len') :
    set (set v lo x) (lo + len) y = set v lo (y ++ x) := by
  apply BitVec.eq_of_getLsbD_eq
  intro i hi
  rw [getLsbD_set, getLsbD_set, getLsbD_set, BitVec.getLsbD_append]
  by_cases high : lo + len ≤ i
  · have back : i - lo - len = i - (lo + len) := by omega
    have apart : ¬ (lo ≤ i ∧ i < lo + len ∧ i < w) := by omega
    by_cases inside : i < lo + len + len'
    · have both : lo ≤ i ∧ i < lo + (len' + len) ∧ i < w := by omega
      rw [if_pos ⟨high, inside, hi⟩, if_pos both, if_neg (by omega), back]
    · have beyond : ¬ (lo ≤ i ∧ i < lo + (len' + len) ∧ i < w) := by omega
      rw [if_neg (fun h => inside h.2.1), if_neg apart, if_neg beyond]
  · rw [if_neg (fun h => high h.1)]
    by_cases inside : lo ≤ i
    · rw [if_pos ⟨inside, by omega, hi⟩, if_pos ⟨inside, by omega, hi⟩, if_pos (by omega)]
    · rw [if_neg (fun h => inside h.1), if_neg (fun h => inside h.1)]

theorem setWidth_injective {n : Nat} {v v' : BitVec w} (fits : w ≤ n) (same : v.setWidth n = v'.setWidth n) :
    v = v' := by
  have back := congrArg (fun x => BitVec.setWidth w x) same
  simpa only [BitVec.setWidth_setWidth_of_le _ fits, BitVec.setWidth_eq] using back

theorem setWidth_append {m n : Nat} (x : BitVec m) (y : BitVec n) (w : Nat) :
    (x ++ y).setWidth w = y.setWidth w ||| x.setWidth w <<< n := by
  apply BitVec.eq_of_getLsbD_eq
  intro i hi
  simp only [BitVec.getLsbD_setWidth, BitVec.getLsbD_append, BitVec.getLsbD_or, BitVec.getLsbD_shiftLeft]
  by_cases low : i < n
  · simp [low, hi]
  · have within : i - n < w := by omega
    simp [low, hi, within, BitVec.getLsbD_of_ge y i (by omega)]

/-- Copying two fields that lie side by side in both words copies one. -/
theorem copy_copy {u : Nat} (v : BitVec w) (d : BitVec u) (lo src len len' : Nat) :
    set (set v lo (get d src len)) (lo + len) (get d (src + len) len') = set v lo (get d src (len' + len)) := by
  rw [set_set_append, get_append]

theorem get_zero (lo len : Nat) : get (0 : BitVec w) lo len = 0 := by
  apply BitVec.eq_of_getLsbD_eq
  intro i hi
  simp [getLsbD_get]

theorem toNat_get (v : BitVec w) (lo len : Nat) : (get v lo len).toNat = v.toNat / 2 ^ lo % 2 ^ len := by
  rw [get, BitVec.extractLsb'_toNat, Nat.shiftRight_eq_div_pow]

/-- A field above all the bits that are set. -/
theorem toNat_set_above (x : BitVec len) (small : v.toNat < 2^lo) (fits : lo + len ≤ w) :
    (set v lo x).toNat = x.toNat * 2^lo + v.toNat := by
  have clear : ∀ i, lo ≤ i → v.getLsbD i = false := by
    intro i high
    rw [BitVec.getLsbD]
    exact Nat.testBit_lt_two_pow (Nat.lt_of_lt_of_le small (Nat.pow_le_pow_right (by omega) high))
  have whole : set v lo x = (x.setWidth w <<< lo) ||| v := by
    apply BitVec.eq_of_getLsbD_eq
    intro i bound
    rw [getLsbD_set, BitVec.getLsbD_or, BitVec.getLsbD_shiftLeft, BitVec.getLsbD_setWidth]
    by_cases high : lo ≤ i
    · rw [clear i high, Bool.or_false]
      by_cases inside : i < lo + len
      · simp [high, inside, bound, Nat.not_lt.mpr high, show i - lo < w by omega]
      · simp [inside, BitVec.getLsbD_of_ge x (i - lo) (by omega)]
    · simp [high, Nat.lt_of_not_le high]
  have shifted : x.toNat <<< lo < 2^w := by
    rw [Nat.shiftLeft_eq]
    calc x.toNat * 2^lo < 2^len * 2^lo := Nat.mul_lt_mul_of_pos_right x.isLt (Nat.two_pow_pos lo)
      _ = 2^(lo + len) := by rw [← Nat.pow_add, Nat.add_comm]
      _ ≤ 2^w := Nat.pow_le_pow_right (by omega) fits
  have short : x.toNat % 2^w = x.toNat :=
    Nat.mod_eq_of_lt (Nat.lt_of_lt_of_le x.isLt (Nat.pow_le_pow_right (by omega) (by omega)))
  rw [whole, BitVec.toNat_or, BitVec.toNat_shiftLeft, BitVec.toNat_setWidth, short,
    Nat.mod_eq_of_lt shifted, ← Nat.shiftLeft_add_eq_or_of_lt small, Nat.shiftLeft_eq]

section Align
variable {mask : BitVec w}

theorem and_not_low (low : mask.toNat = 2^lo - 1) : v &&& ~~~mask = v >>> lo <<< lo := by
  apply BitVec.eq_of_getLsbD_eq
  intro i hi
  have bit : mask.getLsbD i = decide (i < lo) := by
    rw [BitVec.getLsbD, low, Nat.testBit_two_pow_sub_one]
  rw [BitVec.getLsbD_and, BitVec.getLsbD_not, bit, BitVec.getLsbD_shiftLeft, BitVec.getLsbD_ushiftRight]
  by_cases below : i < lo
  · simp [below]
  · have back : lo + (i - lo) = i := by omega
    simp [hi, below, back]

theorem toNat_and_not_low (low : mask.toNat = 2^lo - 1) :
    (v &&& ~~~mask).toNat = v.toNat / 2^lo * 2^lo := by
  rw [and_not_low low, BitVec.toNat_shiftLeft, BitVec.toNat_ushiftRight, Nat.shiftLeft_eq, Nat.shiftRight_eq_div_pow]
  exact Nat.mod_eq_of_lt (Nat.lt_of_le_of_lt (Nat.div_mul_le_self _ _) v.isLt)

theorem toNat_and_low (low : mask.toNat = 2^lo - 1) : (v &&& mask).toNat = v.toNat % 2^lo := by
  rw [BitVec.toNat_and, low, Nat.and_two_pow_sub_one_eq_mod]

end Align

end BitField
