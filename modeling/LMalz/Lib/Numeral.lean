import Mathlib.Data.Nat.Digits.Lemmas

/- Numerals in a base, the most significant digit first. -/
namespace Numeral

variable {b n k d : Nat} {ds es : List Nat}

/-- The numeral of `n`; 0 has no digit. -/
def digits (b n : Nat) : List Nat := (Nat.digits b n).reverse

def value (b : Nat) (ds : List Nat) : Nat := ds.foldl (fun v d => v * b + d) 0

@[simp] theorem digits_zero (b : Nat) : digits b 0 = [] := by rw [digits, Nat.digits_zero, List.reverse_nil]

theorem digits_step (base : 1 < b) (pos : n ≠ 0) : digits b n = digits b (n / b) ++ [n % b] := by
  rw [digits, Nat.digits_def' base (Nat.pos_of_ne_zero pos), List.reverse_cons, digits]

theorem digits_lt (base : 1 < b) (digit : d ∈ digits b n) : d < b :=
  Nat.digits_lt_base base (List.mem_reverse.mp digit)

theorem digits_eq_nil_iff : digits b n = [] ↔ n = 0 := by
  rw [digits, List.reverse_eq_nil_iff, Nat.digits_eq_nil_iff_eq_zero]

theorem digits_head (first : digits b n = d :: ds) : d ≠ 0 := by
  have pos : n ≠ 0 := by
    rintro rfl
    rw [digits_zero] at first
    cases first
  have last := Nat.getLast_digit_ne_zero b pos
  have whole : Nat.digits b n = ds.reverse ++ [d] := by
    rw [← List.reverse_reverse (Nat.digits b n), ← digits, first, List.reverse_cons]
  simpa [whole] using last

theorem length_digits_le (base : 1 < b) (small : n < b ^ k) : (digits b n).length ≤ k := by
  rw [digits, List.length_reverse]
  exact (Nat.digits_length_le_iff base n).mpr small

theorem foldl_value (v : Nat) (ds : List Nat) :
    ds.foldl (fun v d => v * b + d) v = v * b ^ ds.length + value b ds := by
  unfold value
  induction ds generalizing v with
  | nil => simp
  | cons d ds ih =>
      rw [List.foldl_cons, List.foldl_cons, ih, ih (0 * b + d), List.length_cons]
      ring

theorem value_append (ds es : List Nat) : value b (ds ++ es) = value b ds * b ^ es.length + value b es := by
  rw [value, List.foldl_append, foldl_value, ← value]

theorem value_digits (base : 1 < b) (n : Nat) : value b (digits b n) = n := by
  induction n using Nat.strong_induction_on with
  | _ n ih =>
      by_cases zero : n = 0
      · rw [zero, digits_zero]
        rfl
      · rw [digits_step base zero, value_append, ih (n / b) (Nat.div_lt_self (Nat.pos_of_ne_zero zero) base)]
        have one : value b [n % b] = n % b := by simp [value]
        rw [one, List.length_singleton, Nat.pow_one, Nat.mul_comm]
        exact Nat.div_add_mod n b

theorem value_replicate_zero (b k : Nat) : value b (List.replicate k 0) = 0 := by
  induction k with
  | zero => rfl
  | succ k ih =>
      rw [List.replicate_succ', value_append, ih]
      simp [value]

/-- Zeros on the left change nothing. -/
theorem value_zeros_append (k : Nat) (ds : List Nat) : value b (List.replicate k 0 ++ ds) = value b ds := by
  rw [value_append, value_replicate_zero, Nat.zero_mul, Nat.zero_add]

/-- Each zero on the right multiplies by the base. -/
theorem value_append_zeros (k : Nat) (ds : List Nat) : value b (ds ++ List.replicate k 0) = value b ds * b ^ k := by
  rw [value_append, value_replicate_zero, List.length_replicate, Nat.add_zero]

section Read
variable {C : Type*} (digit : C → Option Nat)

/-- The value of a non-empty text of digits. -/
def read (b : Nat) (cs : List C) : Option Nat :=
  if cs = [] then none else (cs.mapM digit).map (value b)

variable {digit} {char : Nat → C}

theorem mapM_char (known : ∀ d ∈ ds, digit (char d) = some d) : (ds.map char).mapM digit = some ds := by
  induction ds with
  | nil => rfl
  | cons d ds ih =>
      rw [List.map_cons, List.mapM_cons, known d List.mem_cons_self,
        ih fun e later => known e (List.mem_cons_of_mem _ later)]
      rfl

/-- A text of known digits is read as their value. -/
theorem read_map (known : ∀ d ∈ ds, digit (char d) = some d) (nonempty : ds ≠ []) :
    read digit b (ds.map char) = some (value b ds) := by
  have text : ds.map char ≠ [] := fun none => nonempty (List.map_eq_nil_iff.mp none)
  rw [read, if_neg text, mapM_char known]
  rfl

end Read
end Numeral
