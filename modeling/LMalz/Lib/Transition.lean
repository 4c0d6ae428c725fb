import Mathlib.Tactic.TypeStar

/- Finite runs of a labelled transition relation. -/
namespace Transition

variable {σ α : Type*} {step step' : σ → α → σ → Prop} {s t u : σ} {as bs : List α}

/-- `Run step s as t`: the steps labelled `as` lead from `s` to `t`. -/
inductive Run (step : σ → α → σ → Prop) : σ → List α → σ → Prop
  | nil (s : σ) : Run step s [] s
  | cons {s t u : σ} {a : α} {as : List α} : step s a t → Run step t as u → Run step s (a :: as) u

namespace Run

/-- What one step preserves, a run preserves. -/
theorem invariant {I : σ → Prop} (r : Run step s as t)
    (keep : ∀ {s a t}, I s → step s a t → I t) (h : I s) : I t := by
  induction r with
  | nil s => exact h
  | cons first _ ih => exact ih (keep h first)

/-- What the steps with some labels preserve, a run of such steps preserves. -/
theorem invariant_where {I : σ → Prop} {p : α → Prop} (r : Run step s as t) (labels : ∀ a ∈ as, p a)
    (keep : ∀ {s a t}, p a → I s → step s a t → I t) (h : I s) : I t := by
  induction r with
  | nil s => exact h
  | cons first _ ih =>
      exact ih (fun a later => labels a (List.mem_cons_of_mem _ later))
        (keep (labels _ List.mem_cons_self) h first)

theorem append (r : Run step s as t) (q : Run step t bs u) : Run step s (as ++ bs) u := by
  induction r with
  | nil s => exact q
  | cons first _ ih => exact .cons first (ih q)

theorem of_append (r : Run step s (as ++ bs) u) : ∃ t, Run step s as t ∧ Run step t bs u := by
  induction as generalizing s with
  | nil => exact ⟨s, .nil s, r⟩
  | cons a as ih =>
      cases r with
      | cons first rest =>
          obtain ⟨t, before, after⟩ := ih rest
          exact ⟨t, .cons first before, after⟩

theorem snoc {a : α} (r : Run step s as t) (last : step t a u) : Run step s (as ++ [a]) u :=
  r.append (.cons last (.nil u))

theorem mono (r : Run step s as t) (sub : ∀ {s a t}, step s a t → step' s a t) :
    Run step' s as t := by
  induction r with
  | nil s => exact .nil s
  | cons first _ ih => exact .cons (sub first) ih

theorem step_of_mem {a : α} (r : Run step s as t) (taken : a ∈ as) : ∃ u v, step u a v := by
  induction r with
  | nil s => cases taken
  | cons first _ ih =>
      rcases List.mem_cons.mp taken with rfl | later
      · exact ⟨_, _, first⟩
      · exact ih later

/-- What a part of the state does in a run: the steps whose labels it shares, and the others leave it. -/
theorem filterMap {τ β : Type*} {part : τ → β → τ → Prop} {f : σ → τ} {g : α → Option β} (r : Run step s as t)
    (project : ∀ {s a t}, step s a t → (g a).elim (f s = f t) fun b => part (f s) b (f t)) :
    Run part (f s) (as.filterMap g) (f t) := by
  induction r with
  | nil s => exact .nil (f s)
  | @cons s u t a as first _ ih =>
      have here := project first
      cases label : g a with
      | none =>
          rw [label] at here
          rw [List.filterMap_cons_none label, show f s = f u from here]
          exact ih
      | some b =>
          rw [label] at here
          rw [List.filterMap_cons_some label]
          exact .cons here ih

end Run

/-- The steps of `step` taken where `guard` holds of the state and the label. -/
def Guarded (step : σ → α → σ → Prop) (guard : σ → α → Prop) (s : σ) (a : α) (t : σ) : Prop :=
  guard s a ∧ step s a t

end Transition
