import Mathlib.Tactic.TypeStar

/- Loops that run a body until it returns. -/
namespace Loop

variable {σ ρ : Type*} {body : σ → σ ⊕ ρ} {s t : σ} {r r' : ρ} {k l : Nat}

/-- At most `k` iterations of `body`, which goes on (`inl`) or returns (`inr`). -/
def run (body : σ → σ ⊕ ρ) : Nat → σ → Option ρ
  | 0, _ => none
  | k + 1, s =>
      match body s with
      | .inl t => run body k t
      | .inr r => some r

theorem run_next (h : body s = .inl t) : run body (k + 1) s = run body k t := by
  rw [run, h]

theorem run_done (h : body s = .inr r) : run body (k + 1) s = some r := by
  rw [run, h]

/-- More iterations never change a result. -/
theorem run_add (h : run body k s = some r) : run body (k + l) s = some r := by
  induction k generalizing s with
  | zero => cases h
  | succ k ih =>
      rw [Nat.succ_add]
      cases hb : body s with
      | inl t =>
          rw [run_next hb] at h ⊢
          exact ih h
      | inr r =>
          rw [run_done hb] at h ⊢
          exact h

/-- The loop started at `s` ends and returns `r`. -/
def Returns (body : σ → σ ⊕ ρ) (s : σ) (r : ρ) : Prop := ∃ k, run body k s = some r

namespace Returns

theorem done (h : body s = .inr r) : Returns body s r := ⟨1, run_done h⟩

theorem next (h : body s = .inl t) (rest : Returns body t r) : Returns body s r := by
  obtain ⟨k, hk⟩ := rest
  exact ⟨k + 1, (run_next h).trans hk⟩

/-- A loop that goes on wherever `I` holds, and keeps it, does not end. -/
theorem false_of_invariant {I : σ → Prop} (goesOn : ∀ s, I s → ∃ t, body s = .inl t ∧ I t)
    (h : I s) : ¬ Returns body s r := by
  rintro ⟨k, hk⟩
  induction k generalizing s with
  | zero => cases hk
  | succ k ih =>
      obtain ⟨t, next, kept⟩ := goesOn s h
      rw [run_next next] at hk
      exact ih kept hk

theorem unique (h : Returns body s r) (h' : Returns body s r') : r = r' := by
  obtain ⟨k, hk⟩ := h
  obtain ⟨l, hl⟩ := h'
  have long : run body (k + l) s = some r := run_add hk
  have long' : run body (l + k) s = some r' := run_add hl
  rw [Nat.add_comm l k, long] at long'
  exact Option.some.inj long'

end Returns
end Loop
