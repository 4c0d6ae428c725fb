import Mathlib.Tactic.Ring

/- Struct members in order, each at its natural alignment. -/
namespace StructLayout

structure Member where
  size : Nat
  align : Nat
  aligned : 0 < align

/-- The first multiple of `a` from `o` on. -/
def roundUp (o a : Nat) : Nat := (o + (a - 1)) / a * a

/-- The offset and size of each member of a struct whose members start at `o`. -/
def spans : Nat → List Member → List (Nat × Nat)
  | _, [] => []
  | o, f :: fs => (roundUp o f.align, f.size) :: spans (roundUp o f.align + f.size) fs

/-- The end of the last member. -/
def finish : Nat → List Member → Nat
  | o, [] => o
  | o, f :: fs => finish (roundUp o f.align + f.size) fs

def offsetOf (fs : List Member) (i : Nat) : Nat := ((spans 0 fs)[i]?.getD (0, 0)).1

def alignOf : List Member → Nat
  | [] => 1
  | f :: fs => max f.align (alignOf fs)

/-- An empty struct has one byte. -/
def structSize (fs : List Member) : Nat := max 1 (roundUp (finish 0 fs) (alignOf fs))

section Laws
variable {fs : List Member} {o a : Nat} {s : Nat × Nat}

theorem le_roundUp (positive : 0 < a) : o ≤ roundUp o a := by
  have split := Nat.div_add_mod (o + (a - 1)) a
  have below := Nat.mod_lt (o + (a - 1)) positive
  have same : a * ((o + (a - 1)) / a) = roundUp o a := Nat.mul_comm _ _
  omega

theorem alignOf_pos : 0 < alignOf fs := by
  cases fs with
  | nil => exact Nat.one_pos
  | cons f fs => exact lt_of_lt_of_le f.aligned (le_max_left _ _)

/-- A struct as a member of another one. -/
def nested (fs : List Member) : Member := ⟨structSize fs, alignOf fs, alignOf_pos⟩

theorem le_finish : o ≤ finish o fs := by
  induction fs generalizing o with
  | nil => exact Nat.le_refl o
  | cons f fs ih =>
      have first : o ≤ roundUp o f.align := le_roundUp f.aligned
      have rest : roundUp o f.align + f.size ≤ finish (roundUp o f.align + f.size) fs := ih
      rw [finish]
      omega

theorem spans_inside (hs : s ∈ spans o fs) : o ≤ s.1 ∧ s.1 + s.2 ≤ finish o fs := by
  induction fs generalizing o with
  | nil => cases hs
  | cons f fs ih =>
      have first : o ≤ roundUp o f.align := le_roundUp f.aligned
      rw [finish]
      rcases List.mem_cons.mp hs with rfl | later
      · exact ⟨first, le_finish⟩
      · obtain ⟨low, high⟩ := ih later
        exact ⟨by omega, high⟩

/-- No two members share a byte. -/
theorem spans_apart : (spans o fs).Pairwise fun s t => s.1 + s.2 ≤ t.1 := by
  induction fs generalizing o with
  | nil => exact .nil
  | cons f fs ih => exact .cons (fun t ht => (spans_inside ht).1) ih

theorem finish_le_structSize : finish 0 fs ≤ structSize fs :=
  le_max_of_le_right (le_roundUp alignOf_pos)

end Laws
end StructLayout
