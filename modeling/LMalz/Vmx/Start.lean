import Mathlib.Data.List.Basic

/- ALvmxStart: every core in turn, by moving the calling thread to it. -/
namespace LMalz.Vmx

/-- GROUP_AFFINITY without its reserved words. -/
structure GroupAffinity where
  group : BitVec 16
  mask : BitVec 64
  deriving DecidableEq

structure ProcessorNumber where
  group : BitVec 16
  number : BitVec 8

/-- What ALvmxStart fills in before it moves the thread. -/
def ProcessorNumber.affinity (p : ProcessorNumber) : GroupAffinity :=
  ⟨p.group, 1#64 <<< p.number.toNat⟩

/-- What Windows keeps of a thread for KeSetSystemGroupAffinityThread, which returns what
KeRevertToUserGroupAffinityThread needs to undo it. -/
structure AffinityCalls (θ : Type) where
  affinity : θ → GroupAffinity
  set : GroupAffinity → θ → GroupAffinity × θ
  revert : GroupAffinity → θ → θ
  affinity_set (a : GroupAffinity) (t : θ) : affinity (set a t).2 = a
  affinity_revert (a : GroupAffinity) (t : θ) :
    affinity (revert (set a t).1 (set a t).2) = affinity t

/-- The outcome of each call that ALvmxStart makes: of ALvmxInit, and for each core of
KeGetProcessorNumberFromIndex and ALvmxCoreStart. -/
structure Outcomes where
  init : Bool
  processorNumber : Nat → Option ProcessorNumber
  coreStart : Nat → Bool

/-- The calling thread, and the cores that run under the hypervisor. -/
structure Cores (θ : Type) where
  thread : θ
  virtualized : List Nat

section Start
variable {θ : Type} (ke : AffinityCalls θ) (o : Outcomes)

/-- The loop over the cores from `i` on, `count` of them being left. -/
def startCores (coreCount : Nat) : Nat → Nat → Nat → Cores θ → Bool × Cores θ
  | 0, _, success, s => (success = coreCount, s)
  | count + 1, i, success, s =>
      match o.processorNumber i with
      | none => (success = coreCount, s)
      | some p =>
          let (oldAffinity, thread) := ke.set p.affinity s.thread
          if o.coreStart i then
            startCores coreCount count (i + 1) (success + 1)
              ⟨ke.revert oldAffinity thread, i :: s.virtualized⟩
          else (false, { s with thread := thread })

def alVmxStart (coreCount : Nat) (s : Cores θ) : Bool × Cores θ :=
  if o.init = false then (false, s) else startCores ke o coreCount coreCount 0 0 s

/-- All cores or none, and the thread where it was. -/
structure AllOrNothing (coreCount : Nat) (s : Cores θ) (r : Bool × Cores θ) : Prop where
  all : r.1 = true → ∀ i < coreCount, i ∈ r.2.virtualized
  nothing : r.1 = false → r.2.virtualized = []
  affinity : ke.affinity r.2.thread = ke.affinity s.thread

end Start

/-- Both calls for core `i` succeed. -/
def Outcomes.Starts (o : Outcomes) (i : Nat) : Prop :=
  (o.processorNumber i).isSome ∧ o.coreStart i = true

section Loop
variable {θ : Type} {ke : AffinityCalls θ} {o : Outcomes} {n i count success : Nat} {s : Cores θ}
  {p : ProcessorNumber}

theorem startCores_started (number : o.processorNumber i = some p)
    (started : o.coreStart i = true) :
    startCores ke o n (count + 1) i success s =
      startCores ke o n count (i + 1) (success + 1)
        ⟨ke.revert (ke.set p.affinity s.thread).1 (ke.set p.affinity s.thread).2,
          i :: s.virtualized⟩ := by
  simp only [startCores, number, started, if_true]

theorem startCores_notStarted (number : o.processorNumber i = some p)
    (stays : o.coreStart i = false) :
    startCores ke o n (count + 1) i success s =
      (false, { s with thread := (ke.set p.affinity s.thread).2 }) := by
  simp only [startCores, number, stays, Bool.false_eq_true, if_false]

theorem startCores_noNumber (number : o.processorNumber i = none) :
    startCores ke o n (count + 1) i success s = (decide (success = n), s) := by
  simp only [startCores, number]

theorem startCores_all (starts : ∀ j, i ≤ j → j < i + count → o.Starts j)
    (whole : success + count = n) :
    ∃ t, startCores ke o n count i success s = (true, t) ∧
      (∀ j, i ≤ j → j < i + count → j ∈ t.virtualized) ∧ s.virtualized ⊆ t.virtualized ∧
      ke.affinity t.thread = ke.affinity s.thread := by
  induction count generalizing i success s with
  | zero =>
      refine ⟨s, ?_, fun j low high => absurd high (by omega), List.Subset.refl _, rfl⟩
      rw [startCores, decide_eq_true (show success = n from whole)]
  | succ count ih =>
      obtain ⟨number, started⟩ := starts i (Nat.le_refl i) (by omega)
      obtain ⟨p, number⟩ := Option.isSome_iff_exists.mp number
      have next : success + 1 + count = n := by omega
      obtain ⟨t, run, rest, kept, affinity⟩ :=
        ih (i := i + 1)
          (s := ⟨ke.revert (ke.set p.affinity s.thread).1 (ke.set p.affinity s.thread).2,
            i :: s.virtualized⟩)
          (fun j low high => starts j (by omega) (by omega)) next
      refine ⟨t, (startCores_started number started).trans run, fun j low high => ?_,
        fun j old => kept (List.mem_cons_of_mem i old), affinity.trans (ke.affinity_revert _ _)⟩
      rcases Nat.eq_or_lt_of_le low with rfl | later
      · exact kept List.mem_cons_self
      · exact rest j later (by omega)

theorem startCores_fails {j : Nat} (low : i ≤ j) (high : j < i + count) (fails : ¬ o.Starts j)
    (whole : success + count = n) : (startCores ke o n count i success s).1 = false := by
  induction count generalizing i success s with
  | zero => omega
  | succ count ih =>
      cases number : o.processorNumber i with
      | none =>
          rw [startCores_noNumber number]
          exact decide_eq_false (by omega)
      | some p =>
          cases started : o.coreStart i with
          | false => rw [startCores_notStarted number started]
          | true =>
              have later : i ≠ j := by
                rintro rfl
                exact fails ⟨Option.isSome_of_eq_some number, started⟩
              rw [startCores_started number started]
              exact ih (by omega) (by omega) (by omega)

/-- No way out of the loop stops a core again. -/
theorem startCores_keeps {j : Nat} (running : j ∈ s.virtualized) :
    j ∈ (startCores ke o n count i success s).2.virtualized := by
  induction count generalizing i success s with
  | zero => exact running
  | succ count ih =>
      cases number : o.processorNumber i with
      | none => rwa [startCores_noNumber number]
      | some p =>
          cases started : o.coreStart i with
          | false => rwa [startCores_notStarted number started]
          | true =>
              rw [startCores_started number started]
              exact ih (List.mem_cons_of_mem i running)

end Loop

/-- No failure, or a first one that nothing has to be undone for: of ALvmxInit, of
KeGetProcessorNumberFromIndex on core 0, or of ALvmxCoreStart on core 0 when the thread has the
affinity of core 0 already. -/
def NothingToUndo (o : Outcomes) (coreCount : Nat) (before : GroupAffinity) : Prop :=
  o.init = false ∨ (∀ i < coreCount, o.Starts i) ∨ o.processorNumber 0 = none ∨
    ∃ p, o.processorNumber 0 = some p ∧ o.coreStart 0 = false ∧ p.affinity = before

/-- A failure on a later core leaves those before it virtualized, and a failure of ALvmxCoreStart
leaves the thread on the core that failed. -/
theorem start_allOrNothing {θ : Type} (ke : AffinityCalls θ) (o : Outcomes) (coreCount : Nat)
    (thread : θ) :
    AllOrNothing ke coreCount ⟨thread, []⟩ (alVmxStart ke o coreCount ⟨thread, []⟩) ↔
      NothingToUndo o coreCount (ke.affinity thread) := by
  unfold alVmxStart NothingToUndo
  cases init : o.init with
  | false =>
      simp only [if_true, true_or, iff_true]
      exact ⟨fun h => absurd h Bool.false_ne_true, fun _ => rfl, rfl⟩
  | true =>
      simp only [Bool.true_eq_false, if_false, false_or]
      by_cases starts : ∀ i < coreCount, o.Starts i
      · refine iff_of_true ?_ (.inl starts)
        obtain ⟨t, run, all, -, affinity⟩ := startCores_all (i := 0) (s := ⟨thread, []⟩)
          (fun j _ high => starts j (by omega)) (Nat.zero_add coreCount)
        rw [run]
        exact ⟨fun _ j high => all j (Nat.zero_le j) (by omega),
          fun h => absurd h.symm Bool.false_ne_true, affinity⟩
      · have stuck := starts
        push Not at stuck
        obtain ⟨j, high, fails⟩ := stuck
        have failed : (startCores ke o coreCount coreCount 0 0 ⟨thread, []⟩).1 = false :=
          startCores_fails (Nat.zero_le j) (by omega) fails (Nat.zero_add coreCount)
        obtain ⟨count, rfl⟩ : ∃ count, coreCount = count + 1 := ⟨coreCount - 1, by omega⟩
        simp only [starts, false_or]
        cases number : o.processorNumber 0 with
        | none =>
            simp only [true_or, iff_true]
            rw [startCores_noNumber number]
            exact ⟨fun h => absurd h (by simp), fun _ => rfl, rfl⟩
        | some p =>
            cases started : o.coreStart 0 with
            | true =>
                have running : 0 ∈
                    (startCores ke o (count + 1) (count + 1) 0 0 ⟨thread, []⟩).2.virtualized := by
                  rw [startCores_started number started]
                  exact startCores_keeps List.mem_cons_self
                constructor
                · intro h
                  rw [h.nothing failed] at running
                  cases running
                · rintro (h | ⟨q, _, h, _⟩) <;> cases h
            | false =>
                rw [startCores_notStarted number started]
                constructor
                · intro h
                  exact .inr ⟨p, rfl, rfl, (ke.affinity_set _ _).symm.trans h.affinity⟩
                · rintro (h | ⟨q, same, _, here⟩)
                  · cases h
                  · cases same
                    exact ⟨fun h => absurd h Bool.false_ne_true, fun _ => rfl,
                      (ke.affinity_set _ _).trans here⟩

/-- A thread that has no affinity but the one it was given last. -/
def plainAffinity : AffinityCalls GroupAffinity :=
  ⟨id, fun a t => (t, a), fun a _ => a, fun _ _ => rfl, fun _ _ => rfl⟩

/-- Core 1 of two does not start: the call returns 0, core 0 stays under the hypervisor and the
thread stays on core 1. -/
theorem start_half_done :
    ¬ AllOrNothing plainAffinity 2 ⟨⟨0, 3⟩, []⟩
      (alVmxStart plainAffinity ⟨true, fun i => some ⟨0, BitVec.ofNat 8 i⟩, fun i => i = 0⟩ 2
        ⟨⟨0, 3⟩, []⟩) := by
  intro h
  have running : [0] = ([] : List Nat) := h.nothing rfl
  cases running

end LMalz.Vmx
