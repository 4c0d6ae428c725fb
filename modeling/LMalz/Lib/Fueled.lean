import Mathlib.Tactic.TypeStar

/- Computations with fuel that come to one result, from some fuel on. -/
namespace Fueled

variable {α β : Type*} {run : Nat → Option α} {a a' : α} {b : β} {fuel : Nat}

/-- With enough fuel the result is `a`, with less there is none. -/
def Completes (run : Nat → Option α) (a : α) : Prop :=
  ∃ n, ∀ fuel, run fuel = if n ≤ fuel then some a else none

namespace Completes

theorem pure (a : α) : Completes (fun _ => some a) a := ⟨0, fun fuel => (if_pos (Nat.zero_le fuel)).symm⟩

/-- A loop over `n` items and their end. -/
theorem loop {n : Nat} (eq : ∀ fuel, run fuel = if n < fuel then some a else none) : Completes run a :=
  ⟨n + 1, eq⟩

theorem bind {next : Nat → α → Option β} (h : Completes run a) (h' : Completes (fun fuel => next fuel a) b) :
    Completes (fun fuel => (run fuel).bind (next fuel)) b := by
  obtain ⟨n, eq⟩ := h
  obtain ⟨n', eq'⟩ := h'
  refine ⟨max n n', fun fuel => ?_⟩
  dsimp only
  rw [eq fuel]
  by_cases first : n ≤ fuel
  · have rest : next fuel a = if n' ≤ fuel then some b else none := eq' fuel
    rw [if_pos first, Option.bind_some, rest]
    simp only [Nat.max_le, first, true_and]
  · rw [if_neg first, if_neg (fun both => first (Nat.max_le.mp both).1)]
    rfl

theorem map (h : Completes run a) (f : α → β) : Completes (fun fuel => (run fuel).map f) (f a) := by
  obtain ⟨n, eq⟩ := h
  refine ⟨n, fun fuel => ?_⟩
  dsimp only
  rw [eq fuel]
  split <;> rfl

/-- No fuel leads to another result. -/
theorem eq_of_some (h : Completes run a) (ran : run fuel = some a') : a' = a := by
  obtain ⟨n, eq⟩ := h
  rw [eq fuel] at ran
  split at ran
  · exact (Option.some.inj ran).symm
  · cases ran

theorem exists_some (h : Completes run a) : ∃ fuel, run fuel = some a := by
  obtain ⟨n, eq⟩ := h
  exact ⟨n, (eq n).trans (if_pos (Nat.le_refl n))⟩

theorem both {run' : Nat → Option β} (h : Completes run a) (h' : Completes run' b) :
    ∃ fuel, run fuel = some a ∧ run' fuel = some b := by
  obtain ⟨n, eq⟩ := h
  obtain ⟨n', eq'⟩ := h'
  exact ⟨max n n', (eq _).trans (if_pos (Nat.le_max_left n n')), (eq' _).trans (if_pos (Nat.le_max_right n n'))⟩

end Completes
end Fueled
