import LMalz.Handler.BoundedList
import LMalz.Monitor.Runs

/- EPT violations: each core changes between the vice EPT and the target EPT. -/
namespace LMalz.Monitor
open Ept Transition
open Handler (HandlerCls)

/-- MONITOR_CALLBACK_TYPE. -/
inductive Callback where
  | enter
  | exit
  | mtf
  deriving DecidableEq, Repr

/-- The EPT pointer in the VMCS of a core, and the calls of g_callback on the core so far. -/
structure Core where
  eptPointer : BitVec 64
  callbacks : List Callback
  killed : Bool
  deriving DecidableEq

/-- What the VMCS tells about a violation. -/
structure Violation where
  exitQualification : BitVec 64
  physicalAddress : BitVec 64

/-- execute_access of vmx_exit_qualification_ept_violation. -/
def Violation.executeAccess (v : Violation) : Bool := flag v.exitQualification 2

section Handlers
variable (target vice : EptCls) (s : Machine) (v : Violation)

def monitorEptViolationHandler (c : Core) : Bool × Core :=
  if v.executeAccess = false then (false, c)
  else if pageFrameNumber c.eptPointer = pageFrameNumber vice.eptpV then
    let targetPte := getPte s target v.physicalAddress
    if (access targetPte).execute = false then (false, c)
    else (true, { c with eptPointer := target.eptpV, callbacks := c.callbacks ++ [.enter] })
  else if pageFrameNumber c.eptPointer = pageFrameNumber target.eptpV then
    (true, { c with eptPointer := vice.eptpV, callbacks := c.callbacks ++ [.exit] })
  else (false, c)

/-- ALhvKill does not return; what the caller does after it is not run. -/
def vmxHandlerEptViolation (is2 : Bool) (c : Core) : Bool × Core :=
  if is2 = false then (false, c) else (true, { c with killed := true })

/-- The handlers of VMX_EXIT_REASON_EPT_VIOLATION. -/
inductive ViolationHandler where
  | monitor
  | eptViolation
  deriving DecidableEq

def ViolationHandler.call (is2 : Bool) : ViolationHandler → Core → Bool × Core
  | .monitor => monitorEptViolationHandler target vice s v
  | .eptViolation => vmxHandlerEptViolation is2

/-- ALvmxVmexitInit adds the default handler, ALvmxMNTinit the one of the monitor. -/
def violationHandlers : Option (HandlerCls ViolationHandler) :=
  (HandlerCls.init.run [.add .eptViolation false, .add .monitor false]).map Prod.snd

/-- call_all: a violation that nobody handles kills the machine. -/
def callAll (h : HandlerCls ViolationHandler) (c : Core) : Option Core := do
  let (hd, c) ← h.callHandlers (ViolationHandler.call target vice s v false) c
  if hd then return c
  let (hd, c) ← h.callHandlers (ViolationHandler.call target vice s v true) c
  if hd then return c
  return { c with killed := true }

/-- The exit of a violation. -/
def violationExit (c : Core) : Option Core :=
  violationHandlers.bind fun h => callAll target vice s v h c

/-- The EPT in force on a core allows execution of the page of the address. -/
def allowsExecute (c : Core) : Bool :=
  ((translation s.mem (pageFrameNumber c.eptPointer) v.physicalAddress).map
    fun t => t.2.execute).getD false

end Handlers

/-- The machine and its cores. -/
structure Cores where
  machine : Machine
  core : Nat → Core

inductive CoreEvent where
  | edit (e : Event)
  | violation (i : Nat) (v : Violation)

/-- A core runs into a violation of execution only at a page below 512GB that the EPT in force
forbids to execute. -/
inductive CoreStep (P : Platform) (fuel : Nat) (target vice : EptCls) :
    Cores → CoreEvent → Cores → Prop
  | edit {s s' : Machine} {core : Nat → Core} {e : Event} (step : Step P fuel target vice s e s') :
      CoreStep P fuel target vice ⟨s, core⟩ (.edit e) ⟨s', core⟩
  | violation {s : Machine} {core : Nat → Core} {i : Nat} {v : Violation} {c : Core}
      (execute : v.executeAccess = true) (low : Below512G v.physicalAddress)
      (forbidden : allowsExecute s v (core i) = false)
      (exit : violationExit target vice s v (core i) = some c) :
      CoreStep P fuel target vice ⟨s, core⟩ (.violation i v) ⟨s, Function.update core i c⟩

/-- enter, exit, enter, ... -/
def alternating (n : Nat) : List Callback :=
  (List.range n).map fun i => if i % 2 = 0 then .enter else .exit

theorem alternating_succ (n : Nat) :
    alternating (n + 1) = alternating n ++ [if n % 2 = 0 then .enter else .exit] := by
  rw [alternating, List.range_succ, List.map_append]
  rfl

/-- After an even number of callbacks the vice EPT is in force, after an odd number the target
EPT. -/
structure Core.Sound (target vice : EptCls) (c : Core) (n : Nat) : Prop where
  callbacks : c.callbacks = alternating n
  pointer : c.eptPointer = if n % 2 = 0 then vice.eptpV else target.eptpV
  alive : c.killed = false

section Violations
variable {P : Platform} {fuel : Nat} {target vice : EptCls} {s : Machine} {v : Violation}
  {c : Core} {pages : List Frame} {k n : Nat}

theorem violationHandlers_order : ∃ h, violationHandlers = some h ∧
    h.Represents [.monitor, .eptViolation] := by
  have front : ∀ {h : HandlerCls ViolationHandler} {f}, h.CleanStep (.add f false) := trivial
  obtain ⟨h₁, first, r₁⟩ : ∃ h₁, HandlerCls.init.step (.add .eptViolation false) = some (true, h₁) ∧
      h₁.Represents [ViolationHandler.eptViolation] :=
    HandlerCls.step_represents HandlerCls.init_represents List.nodup_nil front
  obtain ⟨h₂, second, r₂⟩ : ∃ h₂, h₁.step (.add .monitor false) = some (true, h₂) ∧
      h₂.Represents [ViolationHandler.monitor, .eptViolation] :=
    HandlerCls.step_represents r₁ (List.nodup_singleton _) front
  refine ⟨h₂, ?_, r₂⟩
  rw [violationHandlers, HandlerCls.run, first]
  simp only [HandlerCls.run, second]
  rfl

/-- What the handler of the monitor handles, nobody else sees. -/
theorem violationExit_eq {c' : Core}
    (handled : monitorEptViolationHandler target vice s v c = (true, c')) :
    violationExit target vice s v c = some c' := by
  obtain ⟨h, registered, order⟩ := violationHandlers_order
  rw [violationExit, registered, Option.bind_some, callAll, order.calls]
  simp only [Handler.callList, ViolationHandler.call, handled]
  rfl

/-- The EPT pointers of the two objects are told apart by their top tables. -/
structure Pointers (target vice : EptCls) : Prop where
  target : pageFrameNumber target.eptpV = target.eptPml4
  vice : pageFrameNumber vice.eptpV = vice.eptPml4

theorem Started.pointers (start : Started P fuel target vice s) : Pointers target vice := by
  obtain ⟨cold, k, inited, made, before, coreCount, callback, added, -, -, hvice, -, -, hmnt⟩ :=
    start.steps
  unfold alVmxMntInit at hmnt
  obtain ⟨infos, -, hmnt⟩ := Outcome.of_bind hmnt
  obtain ⟨⟨x, t⟩, made, hmnt⟩ := Outcome.of_bind hmnt
  injection hmnt with results
  obtain ⟨-, rfl, rfl⟩ := Prod.mk.inj results |>.imp_right Prod.mk.inj
  exact ⟨newView_pointer made, newClone_pointer hvice⟩

theorem Monitored.allowsExecute_vice (h : Monitored P target vice s pages k)
    (pointers : Pointers target vice) (low : Below512G v.physicalAddress)
    (pointer : c.eptPointer = vice.eptpV) :
    allowsExecute s v c = !decide (pageOf v.physicalAddress ∈ pages) := by
  obtain ⟨role, p⟩ := h
  rw [allowsExecute, pointer, pointers.vice, p.mapsY.leaf _ low]
  rfl

theorem Monitored.allowsExecute_target (h : Monitored P target vice s pages k)
    (pointers : Pointers target vice) (low : Below512G v.physicalAddress)
    (pointer : c.eptPointer = target.eptpV) :
    allowsExecute s v c = decide (pageOf v.physicalAddress ∈ pages) := by
  obtain ⟨role, p⟩ := h
  rw [allowsExecute, pointer, pointers.target, p.mapsX.leaf _ low]
  rfl

/-- The violation is handled and the other EPT allows the execution. -/
theorem Monitored.violation (h : Monitored P target vice s pages k) (pointers : Pointers target vice)
    (sound : c.Sound target vice n) (execute : v.executeAccess = true)
    (low : Below512G v.physicalAddress) (forbidden : allowsExecute s v c = false) :
    ∃ c', monitorEptViolationHandler target vice s v c = (true, c') ∧
      c'.Sound target vice (n + 1) ∧ allowsExecute s v c' = true := by
  have notExecute : ¬ v.executeAccess = false := by simp [execute]
  by_cases even : n % 2 = 0
  · have pointer : c.eptPointer = vice.eptpV := by rw [sound.pointer, if_pos even]
    rw [h.allowsExecute_vice pointers low pointer, Bool.not_eq_false'] at forbidden
    have passed := of_decide_eq_true forbidden
    have allowed : (access (getPte s target v.physicalAddress)).execute = true := by
      obtain ⟨role, p⟩ := h
      obtain ⟨g, -, pte, entry, -⟩ :=
        p.mapsX.getPte_own p.among low passed
      rw [pte, entry]
      exact forbidden
    refine ⟨{ c with eptPointer := target.eptpV, callbacks := c.callbacks ++ [.enter] }, ?_,
      ⟨?_, ?_, sound.alive⟩, ?_⟩
    · rw [monitorEptViolationHandler, if_neg notExecute, if_pos (congrArg pageFrameNumber pointer)]
      simp [allowed]
    · rw [alternating_succ, if_pos even, sound.callbacks]
    · rw [if_neg (by omega)]
    · rw [h.allowsExecute_target pointers low rfl]
      exact forbidden
  · have pointer : c.eptPointer = target.eptpV := by rw [sound.pointer, if_neg even]
    rw [h.allowsExecute_target pointers low pointer] at forbidden
    have apart : pageFrameNumber target.eptpV ≠ pageFrameNumber vice.eptpV := by
      obtain ⟨role, p⟩ := h
      rw [pointers.target, pointers.vice]
      exact (p.mapsX.distinct vice.eptPml4 (by simp)).symm
    refine ⟨{ c with eptPointer := vice.eptpV, callbacks := c.callbacks ++ [.exit] }, ?_,
      ⟨?_, ?_, sound.alive⟩, ?_⟩
    · rw [monitorEptViolationHandler, if_neg notExecute, pointer, if_neg apart, if_pos rfl]
    · rw [alternating_succ, if_neg even, sound.callbacks]
    · rw [if_pos (by omega)]
    · rw [h.allowsExecute_vice pointers low rfl, forbidden]
      rfl

end Violations

/-- What a run keeps of the machine and every core. -/
structure Cores.Sound (P : Platform) (target vice : EptCls) (sys : Cores) : Prop where
  monitored : ∃ pages k, Monitored P target vice sys.machine pages k
  core : ∀ i, ∃ n, (sys.core i).Sound target vice n

/-- All cores run with the vice EPT when ALvmxMNTinit returns. -/
structure Cores.Started (P : Platform) (fuel : Nat) (target vice : EptCls) (sys : Cores) : Prop where
  machine : Monitor.Started P fuel target vice sys.machine
  core : ∀ i, sys.core i = ⟨vice.eptpV, [], false⟩

section Runs
variable {P : Platform} {fuel : Nat} {target vice : EptCls} {sys₀ sys sys' : Cores}
  {e : CoreEvent} {es : List CoreEvent}

theorem Cores.Started.sound (start : sys₀.Started P fuel target vice) (enough : 4 ≤ fuel) :
    sys₀.Sound P target vice := by
  refine ⟨?_, fun i => ⟨0, ?_⟩⟩
  · exact ⟨[], start.machine.monitored enough⟩
  · rw [start.core i]
    exact ⟨rfl, rfl, rfl⟩

theorem Cores.Sound.step (sound : sys.Sound P target vice) (pointers : Pointers target vice)
    (enough : 6 ≤ fuel) (step : CoreStep P fuel target vice sys e sys') :
    sys'.Sound P target vice := by
  obtain ⟨pages, k, h⟩ := sound.monitored
  cases step with
  | @edit s s' core e step =>
      obtain ⟨k', h', -⟩ := h.step enough step
      exact ⟨⟨_, k', h'⟩, sound.core⟩
  | @violation s core i v c execute low forbidden exit =>
      refine ⟨⟨pages, k, h⟩, fun j => ?_⟩
      by_cases here : j = i
      · obtain ⟨n, ci⟩ := sound.core i
        obtain ⟨c', handled, sound', -⟩ := h.violation pointers ci execute low forbidden
        rw [violationExit_eq handled] at exit
        refine ⟨n + 1, ?_⟩
        change (Function.update core i c j).Sound target vice (n + 1)
        rw [here, Function.update_self, ← Option.some.inj exit]
        exact sound'
      · obtain ⟨n, cj⟩ := sound.core j
        refine ⟨n, ?_⟩
        change (Function.update core i c j).Sound target vice n
        rw [Function.update_of_ne here]
        exact cj

/-- In every state of every run each core uses one of the two EPTs and has alternated between
them; a violation that can happen there is handled by the monitor, and the page can be executed
afterwards. -/
theorem monitor_violations (start : sys₀.Started P fuel target vice) (enough : 6 ≤ fuel)
    (run : Run (CoreStep P fuel target vice) sys₀ es sys) (i : Nat) :
    ((sys.core i).eptPointer = vice.eptpV ∨ (sys.core i).eptPointer = target.eptpV) ∧
    (∃ n, (sys.core i).callbacks = alternating n) ∧ (sys.core i).killed = false ∧
    ∀ v : Violation, v.executeAccess = true → Below512G v.physicalAddress →
      allowsExecute sys.machine v (sys.core i) = false →
      ∃ c, monitorEptViolationHandler target vice sys.machine v (sys.core i) = (true, c) ∧
        allowsExecute sys.machine v c = true ∧
        violationExit target vice sys.machine v (sys.core i) = some c ∧ c.killed = false := by
  have pointers := start.machine.pointers
  have sound := run.invariant (fun inv step => inv.step pointers enough step)
    (start.sound (by omega))
  obtain ⟨pages, k, h⟩ := sound.monitored
  obtain ⟨n, ci⟩ := sound.core i
  refine ⟨?_, ⟨n, ci.callbacks⟩, ci.alive, fun v execute low forbidden => ?_⟩
  · rw [ci.pointer]
    by_cases even : n % 2 = 0
    · exact .inl (if_pos even)
    · exact .inr (if_neg even)
  · obtain ⟨c, handled, sound', allowed⟩ := h.violation pointers ci execute low forbidden
    exact ⟨c, handled, allowed, violationExit_eq handled, sound'.alive⟩

end Runs

theorem cores_one_page : ∃ target vice sys₀ sys k, Cores.Started coldPlatform 6 target vice sys₀ ∧
    Run (CoreStep coldPlatform 6 target vice) sys₀ [.edit (.setTarget ⟨0x5000, 0x1000, id⟩)] sys ∧
    Monitored coldPlatform target vice sys.machine [5] k ∧
    ∀ i, sys.core i = ⟨vice.eptpV, [], false⟩ := by
  obtain ⟨target, vice, s₀, s, k, start, step, h⟩ := started_one_page
  exact ⟨target, vice, ⟨s₀, fun _ => ⟨vice.eptpV, [], false⟩⟩, ⟨s, fun _ => ⟨vice.eptpV, [], false⟩⟩,
    k, ⟨start, fun _ => rfl⟩, .cons (.edit step) (.nil _), h, fun _ => rfl⟩

theorem monitor_violations_enter : ∃ target vice sys₀ sys,
    Run (CoreStep coldPlatform 6 target vice) sys₀
      [.edit (.setTarget ⟨0x5000, 0x1000, id⟩), .violation 0 ⟨4, 0x5123⟩] sys ∧
    (sys.core 0).killed = false ∧ ∃ n, (sys.core 0).callbacks = alternating n := by
  obtain ⟨target, vice, sys₀, ⟨s, core⟩, k, start, passed, h, vices⟩ := cores_one_page
  have low : Below512G 0x5123 := (by decide : (0x5123 : BitVec 64).toNat < 2^39)
  have forbidden : allowsExecute s ⟨4, 0x5123⟩ (core 0) = false := by
    rw [h.allowsExecute_vice start.machine.pointers low (congrArg Core.eptPointer (vices 0))]
    decide
  obtain ⟨c, -, -, exit, -⟩ := (monitor_violations start (Nat.le_refl 6) passed 0).2.2.2
    ⟨4, 0x5123⟩ (by decide) low forbidden
  have hit : CoreStep coldPlatform 6 target vice ⟨s, core⟩ (.violation 0 ⟨4, 0x5123⟩)
      ⟨s, Function.update core 0 c⟩ := .violation (by decide) low forbidden exit
  have run := passed.snoc hit
  have reached := monitor_violations start (Nat.le_refl 6) run 0
  exact ⟨target, vice, _, _, run, reached.2.2.1, reached.2.1⟩

end LMalz.Monitor
