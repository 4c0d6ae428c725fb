import LMalz.Host.MonitoredCalls

/- The runs of a monitored operation, with and without NMIs. -/
namespace LMalz.Host
open Vmx (ExceptionInfo Fault safeHandler)
open Transition (Run)

section Invariants
variable (op : Operation)

/-- The info is that of the exceptions raised so far, of which there is one at most. -/
def Told (info : ExceptionInfo) (raised : List Fault) : Prop :=
  raised = [] ∧ info.find = false ∨
    ∃ f, raised = [f] ∧ info.find = true ∧ info.vector = f.vector ∧ info.errorCode = f.error

/-- What safe_handler has written by now. -/
def SafeHandlerAt.Written (info : ExceptionInfo) (f : Fault) : SafeHandlerAt → Prop
  | .test | .find => True
  | .vector => info.find = true
  | .errorCode => info.find = true ∧ info.vector = f.vector
  | .rewind => info.find = true ∧ info.vector = f.vector ∧ info.errorCode = f.error

/-- What holds at each point of a run without an NMI. -/
def Config.Sound (cfg : Config) : Prop :=
  let info := cfg.core.info
  match cfg.control with
  | .setMonitor => cfg.raised = []
  | .clearFind => info.monitor = true ∧ cfg.raised = []
  | .calls pending => info.monitor = true ∧ Told info cfg.raised ∧ (info.find = true → pending = []) ∧
      (op.checks = false → pending.length ≤ 1)
  | .leaf _ pending => info.monitor = true ∧ info.find = false ∧ cfg.raised = [] ∧
      (op.checks = false → pending = [])
  | .handler stage f pending => info.monitor = true ∧ cfg.raised = [f] ∧ stage.Written info f ∧
      (op.checks = false → pending = [])
  | .check _ => op.checks = true ∧ info.monitor = true ∧ Told info cfg.raised
  | .fail => info.monitor = true ∧ Told info cfg.raised
  | .done _ => Told info cfg.raised
  | .killed | .astray => False

end Invariants

section Sound
variable {access : Access} {host : Vmx.Host} {op : Operation} {cfg : Config}

theorem calls_length (unchecked : op.checks = false) : op.calls.length ≤ 1 := by
  cases op with
  | copy => cases unchecked
  | read | rdmsr | wrmsr | xsetbv => exact Nat.le_refl 1

theorem sound_afterCall {core : HostCore} {raised : List Fault} {pending : List LeafCall}
    (monitored : core.info.monitor = true) (told : Told core.info raised)
    (last : op.checks = false → pending = []) : Config.Sound op ⟨op.afterCall pending, core, raised⟩ := by
  unfold Operation.afterCall
  cases checks : op.checks with
  | true => exact ⟨checks, monitored, told⟩
  | false =>
      have none := last checks
      exact ⟨monitored, told, fun _ => none, fun _ => by rw [none]; exact Nat.zero_le 1⟩

/-- An instruction touches neither the info nor the NMIs. -/
structure HostCore.Kept (c c' : HostCore) : Prop where
  info : c'.info = c.info
  received : c'.received = c.received
  delivered : c'.delivered = c.delivered
  queuedNmis : c'.queuedNmis = c.queuedNmis

theorem exec_kept {i : Instruction} {c c' : HostCore} (run : i.exec access host c = .ok c') :
    c.Kept c' := by
  cases i with
  | load n p | store n =>
      simp only [Instruction.exec] at run
      split at run
      · cases run
        exact ⟨rfl, rfl, rfl, rfl⟩
      · cases run
  | andRcx | movEaxEdx | shrRdx | shlRdx | orRaxRdx =>
      cases run
      exact ⟨rfl, rfl, rfl, rfl⟩
  | rdmsr =>
      simp only [Instruction.exec] at run
      cases read : host.rdmsr c.msrs (c.rcx.setWidth 32) with
      | error f =>
          rw [read] at run
          cases run
      | ok v =>
          rw [read] at run
          cases run
          exact ⟨rfl, rfl, rfl, rfl⟩
  | wrmsr =>
      simp only [Instruction.exec] at run
      cases written : host.wrmsr c.msrs (c.rcx.setWidth 32) c.edxEax with
      | error f =>
          rw [written] at run
          cases run
      | ok msrs =>
          rw [written] at run
          cases run
          exact ⟨rfl, rfl, rfl, rfl⟩
  | xsetbv =>
      simp only [Instruction.exec] at run
      split at run
      · cases run
        exact ⟨rfl, rfl, rfl, rfl⟩
      · cases run

theorem sound_next (sound : cfg.Sound op) : (cfg.next access host op).Sound op := by
  obtain ⟨control, core, raised⟩ := cfg
  cases control with
  | setMonitor => exact ⟨rfl, sound⟩
  | clearFind =>
      obtain ⟨monitored, none⟩ := sound
      exact ⟨monitored, .inl ⟨none, rfl⟩, fun found => absurd found Bool.false_ne_true, calls_length⟩
  | calls pending =>
      obtain ⟨monitored, told, stop, short⟩ := sound
      cases pending with
      | nil => exact told
      | cons call pending =>
          rcases told with ⟨none, clear⟩ | ⟨f, -, found, -⟩
          · refine ⟨monitored, clear, none, fun unchecked => ?_⟩
            have one := short unchecked
            exact List.length_eq_zero_iff.mp (by simpa using one)
          · cases stop found
  | leaf rest pending =>
      obtain ⟨monitored, clear, none, last⟩ := sound
      cases rest with
      | nil => exact sound_afterCall monitored (.inl ⟨none, clear⟩) last
      | cons i rest =>
          unfold Config.next
          dsimp only
          split
          · rename_i core' run
            refine ⟨?_, ?_, none, last⟩
            · rw [(exec_kept run).info]
              exact monitored
            · rw [(exec_kept run).info]
              exact clear
          · rename_i f run
            change raised = [] at none
            subst none
            exact ⟨monitored, rfl, trivial, last⟩
  | handler stage f pending =>
      obtain ⟨monitored, raised, written, last⟩ := sound
      cases stage with
      | test =>
          change Config.Sound op (if core.info.monitor then _ else _)
          rw [if_pos monitored]
          exact ⟨monitored, raised, trivial, last⟩
      | find => exact ⟨monitored, raised, rfl, last⟩
      | vector => exact ⟨monitored, raised, ⟨written, rfl⟩, last⟩
      | errorCode => exact ⟨monitored, raised, ⟨written.1, written.2, rfl⟩, last⟩
      | rewind => exact sound_afterCall monitored (.inr ⟨f, raised, written⟩) last
  | check pending =>
      obtain ⟨checks, monitored, told⟩ := sound
      unfold Config.next
      dsimp only
      split
      · exact ⟨monitored, told⟩
      · rename_i clear
        refine ⟨monitored, told, fun found => absurd found clear, fun unchecked => ?_⟩
        rw [checks] at unchecked
        cases unchecked
  | fail => exact sound.2
  | done result => exact sound
  | killed => exact sound
  | astray => exact sound

theorem result_next (sound : cfg.Sound op) :
    (cfg.next access host op).result access host op = cfg.result access host op := by
  obtain ⟨control, core, raised⟩ := cfg
  have behind (pending : List LeafCall) (c : HostCore) :
      Config.result access host op ⟨op.afterCall pending, c, raised⟩ =
        afterResult access host op pending c := by
    unfold Operation.afterCall
    cases checks : op.checks with
    | true => rfl
    | false => simp [Config.result, afterResult, checks]
  cases control with
  | setMonitor => rfl
  | clearFind =>
      obtain ⟨monitored, -⟩ := sound
      change callsResult access host op op.calls (core.setInfo { core.info with find := false }) =
        callsResult access host op op.calls (core.setInfo { core.info with monitor := true, find := false })
      rw [← show core.info.monitor = true from monitored]
  | calls pending =>
      cases pending with
      | nil => rfl
      | cons call pending => rfl
  | leaf rest pending =>
      obtain ⟨monitored, -⟩ := sound
      change core.info.monitor = true at monitored
      cases rest with
      | nil => exact behind pending core
      | cons i rest =>
          unfold Config.next
          dsimp only
          split
          · rename_i core' run
            simp only [Config.result, leafResult, run]
          · rename_i f run
            simp only [Config.result, leafResult, run, safeHandler, monitored]
            rfl
  | handler stage f pending =>
      obtain ⟨monitored, raised, written, last⟩ := sound
      cases stage with
      | test =>
          change Config.result access host op (if core.info.monitor then _ else _) = _
          rw [if_pos monitored]
          rfl
      | find => rfl
      | vector => rfl
      | errorCode => rfl
      | rewind =>
          obtain ⟨found, vector, error⟩ := written
          change core.info.find = true at found
          change core.info.vector = f.vector at vector
          change core.info.errorCode = f.error at error
          have same : core.setInfo
              { core.info with find := true, vector := f.vector, errorCode := f.error } = core := by
            rw [← found, ← vector, ← error]
            rfl
          refine (behind pending core).trans ?_
          simp only [Config.result, same]
  | check pending =>
      obtain ⟨checks, -⟩ := sound
      unfold Config.next
      dsimp only
      split
      · rename_i found
        simp [Config.result, afterResult, checks, found]
      · rename_i clear
        simp [Config.result, afterResult, checks, clear]
  | fail => rfl
  | done result => rfl
  | killed => rfl
  | astray => rfl

end Sound

/-- The info speaks of an NMI, and no instruction of the operation has raised anything. -/
structure Config.Misreported (cfg : Config) : Prop where
  find : cfg.core.info.find = true
  vector : cfg.core.info.vector = Vmx.nmi
  errorCode : cfg.core.info.errorCode = 0
  raised : cfg.raised = []

/-- What holds behind an NMI. -/
def Config.Disturbed (cfg : Config) : Prop :=
  match cfg.control with
  | .calls pending => pending = [] ∧ cfg.core.info.monitor = true ∧ cfg.Misreported
  | .check _ | .fail => cfg.core.info.monitor = true ∧ cfg.Misreported
  | .done _ => cfg.Misreported
  | .killed | .astray => True
  | _ => False

section Disturbed
variable {access : Access} {host : Vmx.Host} {op : Operation} {cfg cfg' : Config} {e : Event}

theorem interrupted_monitored (monitored : cfg.core.info.monitor = true) : interrupted op cfg =
    ⟨op.rewound cfg.control, { cfg.core with
      received := cfg.core.received + 1
      info := { cfg.core.info with find := true, vector := Vmx.nmi, errorCode := 0 } }, cfg.raised⟩ := by
  simp [interrupted, safeHandler, monitored, nmiFault, HostCore.setInfo]

theorem interrupted_unmonitored (monitored : cfg.core.info.monitor = false) :
    (interrupted op cfg).control = .killed := by
  simp [interrupted, safeHandler, monitored]

/-- Out of the leaves nobody knows where the NMI leads. -/
theorem disturbed_astray (outside : ∀ rest pending, cfg.control ≠ .leaf rest pending) :
    (interrupted op cfg).Disturbed := by
  cases monitored : cfg.core.info.monitor with
  | false =>
      unfold Config.Disturbed
      rw [interrupted_unmonitored monitored]
      trivial
  | true =>
      have control : (interrupted op cfg).control = .astray := by
        rw [interrupted_monitored monitored]
        unfold Operation.rewound
        split
        · rename_i inside
          exact absurd inside (outside _ _)
        · rfl
      unfold Config.Disturbed
      rw [control]
      trivial

theorem disturbed_interrupted (sound : cfg.Sound op) : (interrupted op cfg).Disturbed := by
  obtain ⟨control, core, raised⟩ := cfg
  cases control with
  | leaf rest pending =>
      obtain ⟨monitored, clear, none, last⟩ := sound
      rw [interrupted_monitored monitored]
      unfold Operation.rewound Operation.afterCall
      cases checks : op.checks with
      | true => exact ⟨monitored, rfl, rfl, rfl, none⟩
      | false => exact ⟨last checks, monitored, rfl, rfl, rfl, none⟩
  | _ => exact disturbed_astray fun _ _ inside => by cases inside

theorem disturbed_step (step : Step access host op cfg e cfg') (disturbed : cfg.Disturbed) :
    cfg'.Disturbed := by
  obtain ⟨control, core, raised⟩ := cfg
  cases step with
  | exec running =>
      cases control with
      | calls pending =>
          obtain ⟨rfl, monitored, reported⟩ := disturbed
          exact ⟨reported.find, reported.vector, reported.errorCode, reported.raised⟩
      | check pending =>
          obtain ⟨monitored, reported⟩ := disturbed
          unfold Config.next
          dsimp only
          rw [if_pos reported.find]
          exact ⟨monitored, reported.find, reported.vector, reported.errorCode, reported.raised⟩
      | fail =>
          obtain ⟨monitored, reported⟩ := disturbed
          exact ⟨reported.find, reported.vector, reported.errorCode, reported.raised⟩
      | done result => exact running.elim
      | killed => exact running.elim
      | astray => exact running.elim
      | setMonitor => exact disturbed.elim
      | clearFind => exact disturbed.elim
      | leaf rest pending => exact disturbed.elim
      | handler stage f pending => exact disturbed.elim
  | nmi running =>
      apply disturbed_astray
      intro rest pending inside
      change control = _ at inside
      subst inside
      exact disturbed

end Disturbed

/-- A bound on the steps that are left, with the way through safe_handler for each call. -/
def callsWork : List LeafCall → Nat
  | [] => 1
  | call :: pending => call.leaf.length + 9 + callsWork pending

def SafeHandlerAt.work : SafeHandlerAt → Nat
  | .test => 5
  | .find => 4
  | .vector => 3
  | .errorCode => 2
  | .rewind => 1

def Control.work (op : Operation) : Control → Nat
  | .setMonitor => callsWork op.calls + 2
  | .clearFind => callsWork op.calls + 1
  | .calls pending => callsWork pending
  | .leaf rest pending => rest.length + 8 + callsWork pending
  | .handler stage _ pending => stage.work + 1 + callsWork pending
  | .check pending => callsWork pending + 1
  | .fail => 1
  | .done _ | .killed | .astray => 0

section Work
variable {access : Access} {host : Vmx.Host} {op : Operation} {cfg cfg' : Config} {e : Event}

theorem callsWork_pos (pending : List LeafCall) : 0 < callsWork pending := by
  cases pending with
  | nil => exact Nat.one_pos
  | cons call pending =>
      rw [callsWork]
      omega

theorem work_afterCall (op : Operation) (pending : List LeafCall) :
    (op.afterCall pending).work op ≤ callsWork pending + 1 := by
  unfold Operation.afterCall
  split
  · exact Nat.le_refl _
  · exact Nat.le_succ _

theorem work_next (access : Access) (host : Vmx.Host) (op : Operation) (running : cfg.running) :
    (cfg.next access host op).control.work op < cfg.control.work op := by
  obtain ⟨control, core, raised⟩ := cfg
  cases control with
  | setMonitor => exact Nat.lt_succ_self _
  | clearFind => exact Nat.lt_succ_self _
  | calls pending =>
      cases pending with
      | nil => exact Nat.one_pos
      | cons call pending =>
          simp only [Config.next, Control.work, callsWork]
          omega
  | leaf rest pending =>
      cases rest with
      | nil =>
          have after := work_afterCall op pending
          change (op.afterCall pending).work op < 0 + 8 + callsWork pending
          omega
      | cons i rest =>
          unfold Config.next
          dsimp only
          split <;> simp only [Control.work, SafeHandlerAt.work, List.length_cons] <;> omega
  | handler stage f pending =>
      have after := work_afterCall op pending
      cases stage with
      | test =>
          unfold Config.next
          dsimp only
          split <;> simp only [Control.work, SafeHandlerAt.work] <;> omega
      | find | vector | errorCode =>
          simp only [Config.next, Control.work, SafeHandlerAt.work]
          omega
      | rewind =>
          change (op.afterCall pending).work op < 1 + 1 + callsWork pending
          omega
  | check pending =>
      have some := callsWork_pos pending
      unfold Config.next
      dsimp only
      split <;> simp only [Control.work] <;> omega
  | fail => exact Nat.one_pos
  | done result => exact running.elim
  | killed => exact running.elim
  | astray => exact running.elim

theorem work_interrupted (op : Operation) (running : cfg.running) :
    (interrupted op cfg).control.work op < cfg.control.work op := by
  obtain ⟨control, core, raised⟩ := cfg
  have some : 0 < control.work op := by
    cases control with
    | calls pending => exact callsWork_pos pending
    | done result => exact running.elim
    | killed => exact running.elim
    | astray => exact running.elim
    | _ =>
        simp only [Control.work]
        omega
  have behind : (op.rewound control).work op < control.work op := by
    cases control with
    | leaf rest pending =>
        have after := work_afterCall op pending
        change (op.afterCall pending).work op < rest.length + 8 + callsWork pending
        omega
    | _ => exact some
  unfold interrupted
  dsimp only
  split
  · exact behind
  · exact some

/-- With any NMIs, an operation comes to an end. -/
theorem run_bounded {es : List Event} (run : Run (Step access host op) cfg es cfg') :
    es.length + cfg'.control.work op ≤ cfg.control.work op := by
  induction run with
  | nil => exact Nat.le_of_eq (Nat.zero_add _)
  | cons first rest ih =>
      rw [List.length_cons]
      cases first with
      | exec running =>
          have less := work_next access host op running
          omega
      | nmi running =>
          have less := work_interrupted op running
          omega

theorem run_completes (cfg : Config) :
    ∃ es cfg', Run (Step access host op) cfg es cfg' ∧ .nmi ∉ es ∧ cfg'.ended := by
  induction left : cfg.control.work op using Nat.strong_induction_on generalizing cfg with
  | _ n ih =>
      by_cases running : cfg.running
      · have less := work_next access host op running
        obtain ⟨es, cfg', run, quiet, ended⟩ := ih _ (left ▸ less) (cfg.next access host op) rfl
        refine ⟨.exec :: es, cfg', .cons (.exec running) run, ?_, ended⟩
        intro taken
        rcases List.mem_cons.mp taken with same | later
        · cases same
        · exact quiet later
      · exact ⟨[], cfg, .nil cfg, List.not_mem_nil, running⟩

end Work

/-- What the caller sees of an operation, its info aside. -/
structure Effect where
  result : Bool
  value : BitVec 64
  memory : VirtualMemory
  msrs : Mtrr.Msrs
  xcr0 : BitVec 64

def HostCore.effect (c : HostCore) (result : Bool) : Effect := ⟨result, c.rax, c.memory, c.msrs, c.xcr0⟩

section Runs
variable (access : Access) (host : Vmx.Host) (op : Operation)

/-- The operation returned with the effect it has without NMIs, the info speaks of its own exception
only, and no NMI is lost. -/
structure Reports (start : HostCore) (cfg : Config) : Prop where
  effect : ∃ result, cfg.control = .done result ∧ cfg.core.effect result =
    (undisturbed access host op start).2.effect (undisturbed access host op start).1
  find : cfg.core.info.find = true ↔ cfg.raised ≠ []
  exception : ∀ f ∈ cfg.raised, cfg.core.info.vector = f.vector ∧ cfg.core.info.errorCode = f.error
  nmis : cfg.core.received = cfg.core.delivered + cfg.core.queuedNmis.toNat

/-- A run without an NMI, by any point of it. -/
structure Config.Unaffected (start : HostCore) (cfg : Config) : Prop where
  sound : cfg.Sound op
  result : cfg.result access host op = undisturbed access host op start
  received : cfg.core.received = start.received
  delivered : cfg.core.delivered = start.delivered
  queuedNmis : cfg.core.queuedNmis = start.queuedNmis

variable {access host op}
variable {start : HostCore} {cfg cfg' : Config} {es : List Event}

theorem next_nmis (access : Access) (host : Vmx.Host) (op : Operation) (cfg : Config) :
    let cfg' := cfg.next access host op
    cfg'.core.received = cfg.core.received ∧ cfg'.core.delivered = cfg.core.delivered ∧
      cfg'.core.queuedNmis = cfg.core.queuedNmis := by
  obtain ⟨control, core, raised⟩ := cfg
  have same : core.received = core.received ∧ core.delivered = core.delivered ∧
      core.queuedNmis = core.queuedNmis := ⟨rfl, rfl, rfl⟩
  cases control with
  | leaf rest pending =>
      cases rest with
      | nil => exact same
      | cons i rest =>
          unfold Config.next
          dsimp only
          split
          · rename_i core' run
            have kept := exec_kept run
            exact ⟨kept.received, kept.delivered, kept.queuedNmis⟩
          · exact same
  | handler stage f pending =>
      cases stage with
      | test =>
          unfold Config.next
          dsimp only
          split <;> exact same
      | _ => exact same
  | calls pending => cases pending <;> exact same
  | _ => exact same

theorem unaffected_run (run : Run (Step access host op) (begin start) es cfg) (quiet : .nmi ∉ es) :
    cfg.Unaffected access host op start := by
  apply run.invariant_where (p := (· = Event.exec))
  · intro e taken
    cases e with
    | exec => rfl
    | nmi => exact absurd taken quiet
  · rintro cfg e cfg' rfl h step
    cases step with
    | exec running =>
        obtain ⟨received, delivered, queuedNmis⟩ := next_nmis access host op cfg
        exact ⟨sound_next h.sound, (result_next h.sound).trans h.result, received.trans h.received,
          delivered.trans h.delivered, queuedNmis.trans h.queuedNmis⟩
  · exact ⟨rfl, rfl, rfl, rfl, rfl⟩

/-- One NMI is enough, at whatever instruction it comes. -/
theorem disturbed_run (run : Run (Step access host op) cfg es cfg') (sound : cfg.Sound op)
    (arrived : .nmi ∈ es) : cfg'.Disturbed := by
  induction run with
  | nil => cases arrived
  | cons first rest ih =>
      cases first with
      | nmi running =>
          exact rest.invariant (fun disturbed step => disturbed_step step disturbed)
            (disturbed_interrupted sound)
      | exec running =>
          apply ih (sound_next sound)
          rcases List.mem_cons.mp arrived with same | later
          · cases same
          · exact later

/-- A monitored operation reports its own exceptions and loses no NMI if and only if none comes. -/
theorem monitored_reports_iff (balanced : start.received = start.delivered + start.queuedNmis.toNat)
    (run : Run (Step access host op) (begin start) es cfg) (ended : cfg.ended) :
    Reports access host op start cfg ↔ .nmi ∉ es := by
  constructor
  · intro reports arrived
    have disturbed := disturbed_run run rfl arrived
    obtain ⟨result, done, -⟩ := reports.effect
    unfold Config.Disturbed at disturbed
    rw [done] at disturbed
    exact reports.find.mp disturbed.find disturbed.raised
  · intro quiet
    obtain ⟨sound, result, received, delivered, queuedNmis⟩ := unaffected_run run quiet
    obtain ⟨control, core, raised⟩ := cfg
    cases control with
    | done value =>
        have whole : (value, core) = undisturbed access host op start := result
        refine ⟨⟨value, rfl, by rw [← whole]⟩, ?_, ?_, ?_⟩
        · rcases sound with ⟨none, clear⟩ | ⟨f, one, found, -⟩
          · exact ⟨fun found => absurd (clear.symm.trans found) Bool.false_ne_true, fun some => absurd none some⟩
          · exact ⟨fun _ => by rw [one]; exact List.cons_ne_nil f [], fun _ => found⟩
        · intro f raised
          rcases sound with ⟨none, clear⟩ | ⟨f', one, found, vector, error⟩
          · rw [none] at raised
            cases raised
          · rw [one] at raised
            obtain rfl := List.mem_singleton.mp raised
            exact ⟨vector, error⟩
        · rw [received, delivered, queuedNmis, balanced]
    | killed => exact sound.elim
    | astray => exact sound.elim
    | _ => exact absurd trivial ended

end Runs

/-- A core that has seen no NMI. -/
def quietCore : HostCore where
  info := ⟨false, false, 0, 0⟩
  rax := 0
  rcx := 0
  rdx := 0
  memory := fun _ => 0
  msrs := fun _ => 0
  xcr0 := 1
  received := 0
  delivered := 0
  queuedNmis := 0

/-- Every address may be read and written. -/
def allAccess : Access where
  readable := fun _ => true
  writable := fun _ => true
  loadFault := fun _ _ => nmiFault
  storeFault := fun _ _ => nmiFault

theorem monitored_reports_rdmsr : ∃ cfg,
    Run (Step allAccess Vmx.coldHost (.rdmsr 0x1B 0)) (begin quietCore) (List.replicate 8 .exec) cfg ∧
      (Reports allAccess Vmx.coldHost (.rdmsr 0x1B 0) quietCore cfg ↔
        Event.nmi ∉ List.replicate 8 Event.exec) := by
  have run : Run (Step allAccess Vmx.coldHost (.rdmsr 0x1B 0)) (begin quietCore) (List.replicate 8 .exec) _ :=
    .cons (.exec trivial) (.cons (.exec trivial) (.cons (.exec trivial) (.cons (.exec trivial)
      (.cons (.exec trivial) (.cons (.exec trivial) (.cons (.exec trivial) (.cons (.exec trivial)
        (.nil _))))))))
  exact ⟨_, run, monitored_reports_iff rfl run id⟩

/-- RDMSR succeeds, but an NMI in front of it is reported as its exception. -/
theorem rdmsr_reports_nmi : ∃ cfg,
    Run (Step allAccess Vmx.coldHost (.rdmsr 0x1B 0)) (begin quietCore) [.exec, .exec, .exec, .nmi, .exec] cfg ∧
      cfg.ended ∧ ¬ Reports allAccess Vmx.coldHost (.rdmsr 0x1B 0) quietCore cfg := by
  have run : Run (Step allAccess Vmx.coldHost (.rdmsr 0x1B 0)) (begin quietCore)
      [.exec, .exec, .exec, .nmi, .exec] _ :=
    .cons (.exec trivial) (.cons (.exec trivial) (.cons (.exec trivial) (.cons (.nmi trivial)
      (.cons (.exec trivial) (.nil _)))))
  exact ⟨_, run, id, fun reports => reports.find.mp rfl rfl⟩

end LMalz.Host
