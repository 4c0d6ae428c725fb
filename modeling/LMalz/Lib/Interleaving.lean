import LMalz.Lib.Transition
import Mathlib.Data.List.Basic

/- Processes that share a memory and take their steps in any order. -/
namespace Interleaving
open Transition

variable {M P : Type*}

structure Config (M P : Type*) where
  mem : M
  procs : List P

/-- The process at position `k` takes a step, the others stand still. -/
inductive Step (next : M → P → M → P → Prop) : Config M P → Nat → Config M P → Prop
  | step {m m' : M} {p p' : P} {pre post : List P} (moved : next m p m' p') :
      Step next ⟨m, pre ++ p :: post⟩ pre.length ⟨m', pre ++ p' :: post⟩

/-- A guard on the memory, the process that is to move and the other processes. -/
def Before (guard : M → P → List P → Prop) (c : Config M P) (k : Nat) : Prop :=
  ∀ p, c.procs[k]? = some p → guard c.mem p (c.procs.eraseIdx k)

section Rules
variable {next : M → P → M → P → Prop} {guard : M → P → List P → Prop} {c c' : Config M P}
  {ks : List Nat} {k : Nat}

theorem Step.of_get {p p' : P} {m' : M} (here : c.procs[k]? = some p)
    (moved : next c.mem p m' p') : Step next c k ⟨m', c.procs.set k p'⟩ := by
  obtain ⟨m, procs⟩ := c
  obtain ⟨inside, there⟩ := List.getElem?_eq_some_iff.mp here
  dsimp only at there
  have split := List.take_append_drop k procs
  rw [List.drop_eq_getElem_cons inside, there] at split
  have width : (procs.take k).length = k := List.length_take_of_le (Nat.le_of_lt inside)
  have stepped : Step next ⟨m, procs.take k ++ p :: procs.drop (k + 1)⟩ (procs.take k).length
      ⟨m', procs.take k ++ p' :: procs.drop (k + 1)⟩ := .step moved
  rw [split, width] at stepped
  rwa [List.set_eq_take_append_cons_drop, if_pos inside]

/-- Up to order a step replaces one process. -/
theorem Step.focus (s : Step next c k c') : ∃ p p', c.procs[k]? = some p ∧
    c.procs.Perm (p :: c.procs.eraseIdx k) ∧ c'.procs.Perm (p' :: c.procs.eraseIdx k) ∧
    next c.mem p c'.mem p' := by
  cases s with
  | @step m m' p p' pre post moved =>
      refine ⟨p, p', by simp, ?_⟩
      have others : (pre ++ p :: post).eraseIdx pre.length = pre ++ post := by
        simp [List.eraseIdx_append_of_length_le]
      rw [others]
      exact ⟨List.perm_middle, List.perm_middle, moved⟩

/-- An invariant that does not depend on the order of the processes is kept by every
run when the step of the foremost process keeps it. -/
theorem keeps {I : M → List P → Prop} (order : ∀ {m ps qs}, List.Perm ps qs → I m ps → I m qs)
    (keep : ∀ {m p m' p' others}, I m (p :: others) → guard m p others → next m p m' p' →
      I m' (p' :: others))
    (run : Run (Guarded (Step next) (Before guard)) c ks c') (start : I c.mem c.procs) :
    I c'.mem c'.procs := by
  refine run.invariant (I := fun c => I c.mem c.procs) ?_ start
  intro s a t holds taken
  obtain ⟨p, p', here, before, after, moved⟩ := taken.2.focus
  exact order after.symm (keep (order before holds) (taken.1 p here) moved)

theorem unguarded (run : Run (Step next) c ks c') :
    Run (Guarded (Step next) (Before fun _ _ _ => True)) c ks c' :=
  run.mono fun taken => ⟨fun _ _ => trivial, taken⟩

end Rules

section Execution
variable (next : M → P → Option (M × P))

/-- A run of deterministic processes in a given order. -/
def exec : Config M P → List Nat → Option (Config M P)
  | c, [] => some c
  | c, k :: ks => match c.procs[k]? with
      | none => none
      | some p => match next c.mem p with
          | none => none
          | some (m, p') => exec ⟨m, c.procs.set k p'⟩ ks

variable {next}
variable {c c' : Config M P} {ks : List Nat}

theorem exec_run (done : exec next c ks = some c') :
    Run (Step fun m p m' p' => next m p = some (m', p')) c ks c' := by
  induction ks generalizing c with
  | nil =>
      cases done
      exact .nil _
  | cons k ks ih =>
      simp only [exec] at done
      split at done
      · cases done
      · next p here =>
          split at done
          · cases done
          · next m p' moved => exact .cons (Step.of_get here moved) (ih done)

/-- A run in a given order that stops where the guard does not hold. -/
def guardedExec (next : M → P → Option (M × P)) (guard : M → P → List P → Prop)
    [∀ m p qs, Decidable (guard m p qs)] : Config M P → List Nat → Option (Config M P)
  | c, [] => some c
  | c, k :: ks => match c.procs[k]? with
      | none => none
      | some p =>
          if guard c.mem p (c.procs.eraseIdx k) then
            match next c.mem p with
              | none => none
              | some (m, p') => guardedExec next guard ⟨m, c.procs.set k p'⟩ ks
          else none

theorem guardedExec_run {guard : M → P → List P → Prop} [∀ m p qs, Decidable (guard m p qs)]
    (done : guardedExec next guard c ks = some c') :
    Run (Guarded (Step fun m p m' p' => next m p = some (m', p')) (Before guard)) c ks c' := by
  induction ks generalizing c with
  | nil =>
      cases done
      exact .nil _
  | cons k ks ih =>
      simp only [guardedExec] at done
      split at done
      · cases done
      · next p here =>
          split at done
          · next holds =>
              split at done
              · cases done
              · next m p' moved =>
                  refine .cons ⟨fun q there => ?_, Step.of_get here moved⟩ (ih done)
                  rw [here] at there
                  cases there
                  exact holds
          · cases done

end Execution
end Interleaving
