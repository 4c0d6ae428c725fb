import Mathlib.Logic.Function.Basic

/- Copies in a memory, cell by cell and in larger units. Cell `k` goes from `sou k` to `des k`. -/
namespace ByteCopy
open Function (update)

variable {A B : Type*} [DecidableEq A] {des sou des' sou' : Nat → A} {n k : Nat} {m : A → B} {x : A}

/-- One cell after the other. -/
def copy (des sou : Nat → A) : Nat → (A → B) → A → B
  | 0, m => m
  | n + 1, m => update (copy des sou n m) (des n) (copy des sou n m (sou n))

/-- All cells are loaded, then all are stored. -/
def move (des sou : Nat → A) (m : A → B) : Nat → A → B
  | 0 => m
  | n + 1 => update (move des sou m n) (des n) (m (sou n))

/-- One unit after the other; a unit is an offset and a number of cells. -/
def moveUnits (des sou : Nat → A) : List (Nat × Nat) → (A → B) → A → B
  | [], m => m
  | (o, n) :: units, m =>
      moveUnits des sou units (move (fun k => des (o + k)) (fun k => sou (o + k)) m n)

/-- The units are one behind the other, from `o` to `n`. -/
def Tiles : Nat → List (Nat × Nat) → Nat → Prop
  | o, [], n => o = n
  | o, (p, len) :: units, n => p = o ∧ Tiles (o + len) units n

/-- One unit after the other, up to the first that has a cell without `ok`. -/
def moveWhile (ok : Nat → Prop) [DecidablePred ok] (des sou : Nat → A) :
    List (Nat × Nat) → (A → B) → Bool × (A → B)
  | [], m => (true, m)
  | (o, n) :: units, m =>
      if ∀ k < n, ok (o + k) then
        moveWhile ok des sou units (move (fun k => des (o + k)) (fun k => sou (o + k)) m n)
      else (false, m)

/-- None of the first `n` targets is one of the first `n` sources. -/
def Apart (des sou : Nat → A) (n : Nat) : Prop := ∀ i k, i < n → k < n → des i ≠ sou k

omit [DecidableEq A] in
theorem Apart.part (h : Apart des sou n) {o len : Nat} (inside : o + len ≤ n) :
    Apart (fun k => des (o + k)) (fun k => sou (o + k)) len :=
  fun i k hi hk => h (o + i) (o + k) (by omega) (by omega)

theorem copy_frame (outside : ∀ k, k < n → x ≠ des k) : copy des sou n m x = m x := by
  induction n with
  | zero => rfl
  | succ n ih =>
      rw [copy, Function.update_of_ne (outside n (Nat.lt_succ_self n))]
      exact ih fun k hk => outside k (by omega)

theorem copy_congr (targets : ∀ k, k < n → des' k = des k) (sources : ∀ k, k < n → sou' k = sou k) :
    copy des' sou' n m = copy des sou n m := by
  induction n with
  | zero => rfl
  | succ n ih =>
      rw [copy, copy, ih (fun k hk => targets k (by omega)) fun k hk => sources k (by omega),
        targets n (Nat.lt_succ_self n), sources n (Nat.lt_succ_self n)]

theorem copy_add (len : Nat) : copy des sou (n + len) m =
    copy (fun k => des (n + k)) (fun k => sou (n + k)) len (copy des sou n m) := by
  induction len with
  | zero => rfl
  | succ len ih => rw [← Nat.add_assoc, copy, copy, ih]

theorem copy_at (apart : Apart des sou n) (inside : k < n)
    (once : ∀ i, i < n → des i = des k → i = k) : copy des sou n m (des k) = m (sou k) := by
  induction n with
  | zero => exact absurd inside (Nat.not_lt_zero k)
  | succ n ih =>
      rw [copy]
      by_cases last : k = n
      · subst last
        rw [Function.update_self]
        exact copy_frame fun i hi same => apart i k (by omega) inside same.symm
      · have other : des k ≠ des n := fun same => last (once n (Nat.lt_succ_self n) same.symm).symm
        rw [Function.update_of_ne other]
        exact ih (fun i j hi hj => apart i j (by omega) (by omega)) (by omega)
          fun i hi => once i (by omega)

/-- The sources are not touched before they are loaded, so the units do not matter. -/
theorem move_eq_copy (apart : Apart des sou n) : move des sou m n = copy des sou n m := by
  induction n with
  | zero => rfl
  | succ n ih =>
      have before : Apart des sou n := fun i k hi hk => apart i k (by omega) (by omega)
      have source : copy des sou n m (sou n) = m (sou n) :=
        copy_frame fun i hi same => apart i n (by omega) (Nat.lt_succ_self n) same.symm
      rw [move, copy, ih before, source]

section Tiles
variable {o p : Nat} {us vs : List (Nat × Nat)} {ok : Nat → Prop} [DecidablePred ok]

theorem Tiles.append (left : Tiles o us p) (right : Tiles p vs n) : Tiles o (us ++ vs) n := by
  induction us generalizing o with
  | nil =>
      obtain rfl : o = p := left
      exact right
  | cons u us ih => exact ⟨left.1, ih left.2⟩

theorem tiles_evenly (o len count : Nat) :
    Tiles o ((List.range count).map fun i => (o + len * i, len)) (o + len * count) := by
  induction count with
  | zero => rfl
  | succ count ih =>
      rw [List.range_succ, List.map_append]
      exact ih.append ⟨rfl, by rw [Nat.mul_succ, ← Nat.add_assoc]; rfl⟩

theorem Tiles.le (h : Tiles o us n) : o ≤ n := by
  induction us generalizing o with
  | nil => exact Nat.le_of_eq h
  | cons u us ih => exact Nat.le_trans (Nat.le_add_right _ _) (ih h.2)

/-- The units hold every cell from `o` to `n`, lowest first. -/
theorem Tiles.offsets (h : Tiles o us n) :
    us.flatMap (fun (p, len) => List.range' p len) = List.range' o (n - o) := by
  induction us generalizing o with
  | nil =>
      obtain rfl : o = n := h
      rw [Nat.sub_self]
      rfl
  | cons u us ih =>
      obtain ⟨rfl, rest⟩ := h
      have more := rest.le
      rw [List.flatMap_cons, ih rest, List.range'_append_1]
      congr 1
      omega

theorem moveUnits_tiles (apart : Apart des sou n) (h : Tiles o us n) :
    moveUnits des sou us (copy des sou o m) = copy des sou n m := by
  induction us generalizing o with
  | nil =>
      obtain rfl : o = n := h
      rfl
  | cons u us ih =>
      obtain ⟨rfl, rest⟩ := h
      rw [moveUnits, move_eq_copy (apart.part rest.le), ← copy_add]
      exact ih rest

theorem moveWhile_all (apart : Apart des sou n) (h : Tiles o us n) (all : ∀ k < n, ok k) :
    moveWhile ok des sou us (copy des sou o m) = (true, copy des sou n m) := by
  induction us generalizing o with
  | nil =>
      obtain rfl : o = n := h
      rfl
  | cons u us ih =>
      obtain ⟨rfl, rest⟩ := h
      have unit : ∀ k < u.2, ok (u.1 + k) := fun k hk =>
        all _ (Nat.lt_of_lt_of_le (Nat.add_lt_add_left hk _) rest.le)
      rw [moveWhile, if_pos unit, move_eq_copy (apart.part rest.le), ← copy_add]
      exact ih rest

/-- A cell that may not be accessed stops the copy, with a prefix done. -/
theorem moveWhile_stops {bad : Nat} (apart : Apart des sou n) (h : Tiles o us n) (low : o ≤ bad)
    (high : bad < n) (stop : ¬ ok bad) :
    ∃ p < n, moveWhile ok des sou us (copy des sou o m) = (false, copy des sou p m) := by
  induction us generalizing o with
  | nil =>
      obtain rfl : o = n := h
      exact absurd low (Nat.not_le.mpr high)
  | cons u us ih =>
      obtain ⟨rfl, rest⟩ := h
      rw [moveWhile]
      by_cases unit : ∀ k < u.2, ok (u.1 + k)
      · rw [if_pos unit, move_eq_copy (apart.part rest.le), ← copy_add]
        refine ih rest (Nat.le_of_not_lt fun inside => stop ?_)
        have here := unit (bad - u.1) (by omega)
        rw [Nat.add_sub_cancel' low] at here
        exact here
      · rw [if_neg unit]
        exact ⟨u.1, Nat.lt_of_le_of_lt low high, rfl⟩

end Tiles

end ByteCopy
