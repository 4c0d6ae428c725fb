import LMalz.Vmx.Emulation
import LMalz.Lib.Transition

/- NMIs that arrive in guest mode: counted when they exit, injected through the NMI window. -/
namespace LMalz.Vmx
open Ept (Outcome flag setFlag flag_setFlag flag_setFlag_apart)
open Transition

/-- An exit because of an NMI, because of an open NMI window, or because of something else. -/
inductive Exit where
  | nmi
  | window
  | other
  deriving DecidableEq

def World.nmiExit (w : World) : Prop :=
  basicExitReason w = VMX_EXIT_REASON_EXCEPTION_OR_NMI ∧
    interruptVector (w.vmread .vmexitInterruptionInformation) = nmi.setWidth 8 ∧
    interruptionType (w.vmread .vmexitInterruptionInformation) = nonMaskableInterrupt

def World.windowExit (w : World) : Prop := basicExitReason w = VMX_EXIT_REASON_NMI_WINDOW

/-- Between two exits the guest, the other cores and the processor change anything but the controls
of the core and its queue. -/
structure GuestRan (w v : World) : Prop where
  controls : v.vmread .ctrlProcessorBasedVmExecutionControls =
    w.vmread .ctrlProcessorBasedVmExecutionControls
  queued : v.vcpu.queuedNmis = w.vcpu.queuedNmis

/-- The guest runs up to an exit, which is handled. -/
inductive ExitStep (host : Host) (hs : VmexitHandlers) : World → Exit → World → Prop
  | nmi {w v w' : World} : GuestRan w v → v.nmiExit → alVmxExitHandler host hs v = some (.ok w') →
      ExitStep host hs w .nmi w'
  | window {w v w' : World} : GuestRan w v → v.windowExit → nmiWindowExiting v = true →
      alVmxExitHandler host hs v = some (.ok w') → ExitStep host hs w .window w'
  | other {w v w' : World} : GuestRan w v → ¬ v.nmiExit → ¬ v.windowExit →
      alVmxExitHandler host hs v = some (.ok w') → ExitStep host hs w .other w'

def nmiExits (es : List Exit) : Nat := es.count .nmi
/-- An exit because of the window is one injected NMI. -/
def windowExits (es : List Exit) : Nat := es.count .window

theorem nmiExits_snoc (es : List Exit) (e : Exit) :
    nmiExits (es ++ [e]) = nmiExits es + if e = .nmi then 1 else 0 := by
  cases e <;> simp [nmiExits]

theorem windowExits_snoc (es : List Exit) (e : Exit) :
    windowExits (es ++ [e]) = windowExits es + if e = .window then 1 else 0 := by
  cases e <;> simp [windowExits]

/-- The queue and the NMI-window exiting of two states agree. -/
structure SameNmis (w w' : World) : Prop where
  queued : w'.vcpu.queuedNmis = w.vcpu.queuedNmis
  window : nmiWindowExiting w' = nmiWindowExiting w

theorem GuestRan.same {w v : World} (h : GuestRan w v) : SameNmis w v :=
  ⟨h.queued, by rw [nmiWindowExiting, h.controls, nmiWindowExiting]⟩

theorem SameNmis.vmwrite {w v : World} (h : SameNmis w v) {f : Vmcs} {x : BitVec 64}
    (ne : .ctrlProcessorBasedVmExecutionControls ≠ f) : SameNmis w (v.vmwrite f x) := by
  refine ⟨h.queued, ?_⟩
  rw [nmiWindowExiting, World.vmread_vmwrite_of_ne _ _ _ _ ne]
  exact h.window

theorem SameNmis.withCore {w v : World} (h : SameNmis w v) (core : Monitor.Core) :
    SameNmis w (withCore v core) := by
  have moved : SameNmis w (v.vmwrite .ctrlEptPointer core.eptPointer) := h.vmwrite (by decide)
  exact ⟨moved.queued, moved.window⟩

theorem SameNmis.incrementRip {w v : World} (h : SameNmis w v) : SameNmis w (incrementRip v) := by
  obtain ⟨u, -, fields, queued, run⟩ := incrementRip_eq (w := v) (v := v) rfl rfl rfl
  have moved : SameNmis w u := by
    refine ⟨queued.trans h.queued, ?_⟩
    rw [nmiWindowExiting, World.vmread, fields, Function.update_of_ne (by decide)]
    exact h.window
  rw [run]
  split
  · exact moved.vmwrite (by decide)
  · exact moved

theorem SameNmis.inject {w v w' : World} {vector error : BitVec 32}
    (run : inject vector error v = .ok (true, w')) (h : SameNmis w v) : SameNmis w w' := by
  simp only [Vmx.inject, Outcome.ok.injEq, Prod.mk.injEq, true_and] at run
  subst run
  unfold injectHwException
  dsimp only
  split_ifs
  · exact h.vmwrite (by decide)
  · exact (h.vmwrite (by decide)).vmwrite (by decide)
  · exact h
  · exact (h.vmwrite (by decide)).vmwrite (by decide)

section Handlers
variable {host : Host} {monitor is2 : Bool} {hs : VmexitHandlers} {w w' : World}

/-- Only two handlers touch the queue or the NMI window. -/
theorem ExitHandler.same_nmis {f : ExitHandler} (notNmi : f ≠ .exceptionNmi)
    (notWindow : f ≠ .nmiWindow) (run : f.call host is2 w = .ok (true, w')) : SameNmis w w' := by
  have here : SameNmis w w := ⟨rfl, rfl⟩
  cases f with
  | exceptionNmi => exact absurd rfl notNmi
  | nmiWindow => exact absurd rfl notWindow
  | tripleFault => cases run
  | cpuid =>
      simp only [ExitHandler.call, vmxHandlerCpuid] at run
      split at run
      · cases run
        exact SameNmis.incrementRip ⟨rfl, rfl⟩
      · cases run
        exact SameNmis.incrementRip ⟨rfl, rfl⟩
  | getsec => exact here.inject run
  | invd => exact here.inject run
  | xsetbv =>
      obtain ⟨info, ⟨vector, -, ends⟩ | ends⟩ := vmxHandlerXsetbv_cases host w
      · exact SameNmis.inject (w := w) (ends.symm.trans run) ⟨rfl, rfl⟩
      · cases ends.symm.trans run
        exact SameNmis.incrementRip ⟨rfl, rfl⟩
  | msrRead =>
      cases read : host.rdmsr w.machine.msrs w.vcpu.reg.ecx with
      | error fault =>
          rw [ExitHandler.call, vmxHandlerMsrRead_fault read] at run
          exact SameNmis.inject (w := w) run ⟨rfl, rfl⟩
      | ok v =>
          rw [ExitHandler.call, vmxHandlerMsrRead_ok read] at run
          cases run
          exact SameNmis.incrementRip ⟨rfl, rfl⟩
  | msrWrite =>
      cases written : host.wrmsr w.machine.msrs w.vcpu.reg.ecx (msrValue w) with
      | error fault =>
          rw [ExitHandler.call, vmxHandlerMsrWrite_fault written] at run
          exact SameNmis.inject (w := w) run ⟨rfl, rfl⟩
      | ok msrs =>
          rw [ExitHandler.call, vmxHandlerMsrWrite_ok written] at run
          split at run
          · cases run
          · cases run
            exact SameNmis.incrementRip ⟨rfl, rfl⟩
  | monitorTrapFlag =>
      simp only [ExitHandler.call, vmxHandlerMonitorTrapFlag] at run
      split at run
      · cases run
      · cases run
        refine ⟨rfl, ?_⟩
        rw [nmiWindowExiting, disableMonitorTrapFlag, World.vmread_vmwrite_self,
          flag_setFlag_apart _ false (by omega), nmiWindowExiting]
  | eptViolation =>
      simp only [ExitHandler.call, vmxHandlerEptViolation] at run
      split at run <;> cases run
  | vmon =>
      simp only [ExitHandler.call, vmxHandlerVmon] at run
      split at run
      · exact here.inject run
      · exact here.inject run
  | vmcall =>
      simp only [ExitHandler.call, vmxHandlerVmcall] at run
      split at run
      · cases run
      · exact here.inject run
  | vmxInstruction => exact here.inject run
  | monitorEptViolation =>
      simp only [ExitHandler.call, monitorEptViolationHandler, Outcome.ok.injEq, Prod.mk.injEq] at run
      rw [← run.2]
      exact here.withCore _
  | monitorVmcall =>
      simp only [ExitHandler.call, monitorHandlerVmcall] at run
      split_ifs at run
      · cases run
        exact here.incrementRip
      · obtain ⟨machine, -, last⟩ := Outcome.of_bind run
        cases last
        exact SameNmis.incrementRip ⟨rfl, rfl⟩
      · cases run
  | monitorMtf =>
      simp only [ExitHandler.call, monitorMtfHandler] at run
      split at run
      · cases run
        exact ⟨rfl, rfl⟩
      · cases run

theorem exit_taken (inst : installed monitor = some hs)
    (resumes : alVmxExitHandler host hs w = some (.ok w')) :
    ∃ is2, ∃ f ∈ registered (additions monitor) (basicExitReason w),
      f.call host is2 w = .ok (true, w') := by
  by_cases outside : vmexitHandlersCount ≤ basicExitReason w
  · rw [alVmxExitHandler, if_pos outside] at resumes
    cases resumes
  rw [alVmxExitHandler, if_neg outside] at resumes
  rcases callAll_cases host w (installed_represents inst (basicExitReason w)) with
    killed | ⟨is2, f, takes, result⟩
  · rw [killed] at resumes
    cases resumes
  · refine ⟨is2, f, takes.mem, ?_⟩
    rw [result] at resumes
    cases run : f.call host is2 w with
    | outOfFuel =>
        rw [run] at resumes
        cases resumes
    | killed =>
        rw [run] at resumes
        cases resumes
    | ok r =>
        obtain ⟨handled, v⟩ := r
        rw [run] at resumes
        cases resumes
        cases handled with
        | false => exact absurd run (takes.takes _)
        | true => rfl

theorem step_nmi (inst : installed monitor = some hs) (step : ExitStep host hs w .nmi w') :
    w'.vcpu.queuedNmis = w.vcpu.queuedNmis + 1 ∧ nmiWindowExiting w' = true := by
  cases step with
  | nmi ran isNmi resumes =>
      obtain ⟨is2, f, mem, run⟩ := exit_taken inst resumes
      rw [isNmi.1] at mem
      obtain rfl : f = .exceptionNmi :=
        (by decide : ∀ m, ∀ f ∈ registered (additions m) VMX_EXIT_REASON_EXCEPTION_OR_NMI,
          f = .exceptionNmi) monitor f mem
      simp only [ExitHandler.call, vmxHandlerExceptionNmi, if_pos isNmi.2] at run
      cases run
      refine ⟨?_, ?_⟩
      · change _ + 1 = _
        rw [ran.queued]
      · rw [nmiWindowExiting, setNmiWindowExiting, World.vmread_vmwrite_self,
          flag_setFlag _ 22 true (by omega)]

/-- The event that vmx_inject_nmi leaves for the VM entry. -/
def injectsNmi (w : World) : Prop :=
  w.vmread .ctrlVmentryInterruptionInformationField = interruptInfo nmi nonMaskableInterrupt false

/-- Whether the last NMI was injected decides about the window. -/
theorem vmxHandlerNmiWindow_spec {v : World} (run : vmxHandlerNmiWindow v = .ok (true, w')) :
    w'.vcpu.queuedNmis = v.vcpu.queuedNmis - 1 ∧
      nmiWindowExiting w' = decide (0 < w'.vcpu.queuedNmis) ∧ injectsNmi w' := by
  obtain ⟨u, hu⟩ : ∃ u, u = vmxInjectNmi
      { v with vcpu := { v.vcpu with queuedNmis := v.vcpu.queuedNmis - 1 } } := ⟨_, rfl⟩
  have queued : u.vcpu.queuedNmis = v.vcpu.queuedNmis - 1 := by rw [hu]; rfl
  have event : injectsNmi u := by
    rw [hu, injectsNmi, vmxInjectNmi, World.vmread_vmwrite_self]
  have unfolded : vmxHandlerNmiWindow v = .ok (true,
      let w := if u.vcpu.queuedNmis = 0 then setNmiWindowExiting u false else u
      if 0 < w.vcpu.queuedNmis then setNmiWindowExiting w true else w) := by
    rw [hu]
    rfl
  have set (b : Bool) : nmiWindowExiting (setNmiWindowExiting u b) = b ∧
      injectsNmi (setNmiWindowExiting u b) := by
    refine ⟨?_, ?_⟩
    · rw [nmiWindowExiting, setNmiWindowExiting, World.vmread_vmwrite_self, flag_setFlag _ 22 b (by omega)]
    · rw [injectsNmi, setNmiWindowExiting, World.vmread_vmwrite_of_ne _ _ _ _ (by decide)]
      exact event
  rw [unfolded] at run
  rw [← queued]
  by_cases last : u.vcpu.queuedNmis = 0
  · have empty : ¬ 0 < (setNmiWindowExiting u false).vcpu.queuedNmis := by
      change ¬ 0 < u.vcpu.queuedNmis
      rw [last]
      exact BitVec.lt_irrefl 0
    simp only [if_pos last, if_neg empty] at run
    cases run
    exact ⟨rfl, by rw [(set false).1, decide_eq_false empty], (set false).2⟩
  · have more : 0 < u.vcpu.queuedNmis := (BitVec.pos_iff_ne_zero _).mpr last
    simp only [if_neg last, if_pos more] at run
    cases run
    exact ⟨rfl, (set true).1.trans (decide_eq_true more).symm, (set true).2⟩

theorem step_window (inst : installed monitor = some hs) (step : ExitStep host hs w .window w') :
    nmiWindowExiting w = true ∧ w'.vcpu.queuedNmis = w.vcpu.queuedNmis - 1 ∧
      nmiWindowExiting w' = decide (0 < w'.vcpu.queuedNmis) ∧ injectsNmi w' := by
  cases step with
  | window ran isWindow opened resumes =>
      obtain ⟨is2, f, mem, run⟩ := exit_taken inst resumes
      rw [isWindow] at mem
      obtain rfl : f = .nmiWindow :=
        (by decide : ∀ m, ∀ f ∈ registered (additions m) VMX_EXIT_REASON_NMI_WINDOW,
          f = .nmiWindow) monitor f mem
      refine ⟨ran.same.window ▸ opened, ?_⟩
      rw [← ran.queued]
      exact vmxHandlerNmiWindow_spec run

theorem step_other (inst : installed monitor = some hs) (step : ExitStep host hs w .other w') :
    SameNmis w w' := by
  cases step with
  | @other v _ ran notNmi notWindow resumes =>
      obtain ⟨is2, f, mem, run⟩ := exit_taken inst resumes
      have reason : ∀ m, ∀ a ∈ additions m, (a.2 = .exceptionNmi → a.1 = VMX_EXIT_REASON_EXCEPTION_OR_NMI) ∧
          (a.2 = .nmiWindow → a.1 = VMX_EXIT_REASON_NMI_WINDOW) := by decide
      obtain ⟨a, ⟨added, here⟩, rfl⟩ := mem_registered.mp mem
      have kept : SameNmis v w' := by
        refine ExitHandler.same_nmis (fun same => ?_) (fun same => ?_) run
        · have isReason := here.symm.trans ((reason monitor a added).1 same)
          rw [same] at run
          simp only [ExitHandler.call, vmxHandlerExceptionNmi] at run
          split at run
          · next isNmi => exact notNmi ⟨isReason, isNmi⟩
          · cases run
        · exact notWindow (here.symm.trans ((reason monitor a added).2 same))
      exact ⟨kept.queued.trans ran.queued, kept.window.trans ran.same.window⟩

/-- The queue holds the NMIs that exited and were not injected yet, and the window is open while
there are any. -/
structure Accounted (es : List Exit) (w : World) : Prop where
  injected : windowExits es ≤ nmiExits es
  queued : w.vcpu.queuedNmis.toNat = nmiExits es - windowExits es
  window : nmiWindowExiting w = true ↔ windowExits es < nmiExits es

/-- Fewer than 2^64 NMIs wait after each exit of the run. -/
def Countable (es : List Exit) : Prop :=
  ∀ part, part <+: es → nmiExits part < 2^64 + windowExits part

theorem Accounted.step {es : List Exit} {e : Exit} (inst : installed monitor = some hs)
    (h : Accounted es w) (step : ExitStep host hs w e w')
    (fits : nmiExits (es ++ [e]) < 2^64 + windowExits (es ++ [e])) : Accounted (es ++ [e]) w' := by
  have below := h.injected
  have queued := h.queued
  have count := nmiExits_snoc es e
  have count' := windowExits_snoc es e
  cases e with
  | nmi =>
      obtain ⟨more, opened⟩ := step_nmi inst step
      change _ = _ + 1 at count
      change _ = _ + 0 at count'
      refine ⟨by omega, ?_, iff_of_true opened (by omega)⟩
      rw [more, BitVec.toNat_add, queued]
      change (_ + 1) % 2^64 = _
      omega
  | window =>
      obtain ⟨opened, fewer, window, -⟩ := step_window inst step
      have some := h.window.mp opened
      change _ = _ + 0 at count
      change _ = _ + 1 at count'
      have left : w'.vcpu.queuedNmis.toNat = nmiExits es - (windowExits es + 1) := by
        have bound := w.vcpu.queuedNmis.isLt
        rw [fewer, BitVec.toNat_sub]
        change (2^64 - 1 + _) % 2^64 = _
        omega
      refine ⟨by omega, by omega, ?_⟩
      rw [window, decide_eq_true_eq, BitVec.lt_def]
      change 0 < _ ↔ _
      omega
  | other =>
      have same := step_other inst step
      change _ = _ + 0 at count
      change _ = _ + 0 at count'
      refine ⟨by omega, by rw [same.queued]; omega, ?_⟩
      rw [same.window, h.window]
      omega

theorem Accounted.run {es before : List Exit} (inst : installed monitor = some hs)
    (run : Run (ExitStep host hs) w es w') (h : Accounted before w)
    (countable : Countable (before ++ es)) : Accounted (before ++ es) w' := by
  induction run generalizing before with
  | nil w => rwa [List.append_nil]
  | @cons w v w' e es first _ ih =>
      rw [← List.singleton_append, ← List.append_assoc] at countable ⊢
      exact ih (h.step inst first (countable _ (List.prefix_append _ _))) countable

end Handlers

/-- In every run in which fewer than 2^64 NMIs wait at a time, the queue is the number of NMI
exits minus the NMIs injected, the window is open exactly while the queue is not empty, and an
exit because of the window injects one NMI. -/
theorem nmis_accounted {monitor : Bool} {hs : VmexitHandlers} (inst : installed monitor = some hs)
    (host : Host) {w t : World} {es : List Exit} (empty : w.vcpu.queuedNmis = 0)
    (closed : nmiWindowExiting w = false) (run : Run (ExitStep host hs) w es t)
    (countable : Countable es) :
    Accounted es t ∧ ∀ t', ExitStep host hs t .window t' →
      injectsNmi t' ∧ t'.vcpu.queuedNmis.toNat + 1 = t.vcpu.queuedNmis.toNat := by
  have start : Accounted [] w := by
    refine ⟨Nat.le_refl 0, by rw [empty]; rfl, ?_⟩
    rw [closed]
    exact iff_of_false Bool.false_ne_true (Nat.lt_irrefl 0)
  have reached := Accounted.run inst run start countable
  refine ⟨reached, fun t' window => ?_⟩
  obtain ⟨opened, fewer, -, event⟩ := step_window inst window
  have queued := reached.queued
  have some := reached.window.mp opened
  have bound := t.vcpu.queuedNmis.isLt
  refine ⟨event, ?_⟩
  rw [fewer, BitVec.toNat_sub]
  change (2^64 - 1 + _) % 2^64 + 1 = _
  rw [List.nil_append] at queued some
  omega

section Flood
variable {host : Host} {monitor : Bool} {hs : VmexitHandlers} {w t : World}

theorem nmi_arrives (inst : installed monitor = some hs) (host : Host) (w : World) :
    ∃ w', ExitStep host hs w .nmi w' := by
  obtain ⟨v, hv⟩ : ∃ v, v = (w.vmwrite .exitReason 0).vmwrite .vmexitInterruptionInformation
      (interruptInfo nmi nonMaskableInterrupt false) := ⟨_, rfl⟩
  have ran : GuestRan w v := by
    refine ⟨?_, by rw [hv]; rfl⟩
    rw [hv, World.vmread_vmwrite_of_ne _ _ _ _ (by decide),
      World.vmread_vmwrite_of_ne _ _ _ _ (by decide)]
  have reason : basicExitReason v = VMX_EXIT_REASON_EXCEPTION_OR_NMI := by
    rw [basicExitReason, hv, World.vmread_vmwrite_of_ne _ _ _ _ (by decide),
      World.vmread_vmwrite_self]
    rfl
  have event : interruptVector (v.vmread .vmexitInterruptionInformation) = nmi.setWidth 8 ∧
      interruptionType (v.vmread .vmexitInterruptionInformation) = nonMaskableInterrupt := by
    rw [hv, World.vmread_vmwrite_self]
    exact ⟨interruptVector_info _ _ _, interruptionType_info _ _ _⟩
  have lone : ∀ m, registered (additions m) VMX_EXIT_REASON_EXCEPTION_OR_NMI = [.exceptionNmi] := by
    decide
  have inside : ¬ vmexitHandlersCount ≤ VMX_EXIT_REASON_EXCEPTION_OR_NMI := by decide
  have calls := (installed_represents inst VMX_EXIT_REASON_EXCEPTION_OR_NMI).calls
  rw [lone] at calls
  refine ⟨setNmiWindowExiting
    { v with vcpu := { v.vcpu with queuedNmis := v.vcpu.queuedNmis + 1 } } true,
    .nmi ran ⟨reason, event⟩ ?_⟩
  rw [alVmxExitHandler, reason, if_neg inside, callAll, calls]
  simp only [Handler.callList, inLoop, ExitHandler.call, vmxHandlerExceptionNmi, if_pos event]
  rfl

theorem nmis_arrive (inst : installed monitor = some hs) (host : Host) (n : Nat) (w : World) :
    ∃ t, Run (ExitStep host hs) w (List.replicate n .nmi) t := by
  induction n generalizing w with
  | zero => exact ⟨w, .nil w⟩
  | succ n ih =>
      obtain ⟨v, first⟩ := nmi_arrives inst host w
      obtain ⟨t, rest⟩ := ih v
      exact ⟨t, .cons first rest⟩

theorem queued_after (inst : installed monitor = some hs) (n : Nat)
    (run : Run (ExitStep host hs) w (List.replicate n .nmi) t) :
    t.vcpu.queuedNmis = w.vcpu.queuedNmis + BitVec.ofNat 64 n := by
  induction n generalizing w with
  | zero =>
      cases run
      simp
  | succ n ih =>
      cases run with
      | cons first rest =>
          rw [ih rest, (step_nmi inst first).1, BitVec.add_assoc, BitVec.add_comm 1,
            BitVec.ofNat_add]
          rfl

end Flood

/-- After 2^64 NMI exits the counter is 0 again. -/
theorem nmis_wrap : ∃ hs t, installed true = some hs ∧ (coldWorld 0).vcpu.queuedNmis = 0 ∧
    nmiWindowExiting (coldWorld 0) = false ∧
    Run (ExitStep coldHost hs) (coldWorld 0) (List.replicate (2^64) .nmi) t ∧
    ¬ Accounted (List.replicate (2^64) .nmi) t := by
  obtain ⟨hs, inst, -⟩ := installed_lists true
  obtain ⟨n, hn⟩ : ∃ n, n = 2^64 := ⟨_, rfl⟩
  rw [← hn]
  obtain ⟨t, run⟩ := nmis_arrive inst coldHost n (coldWorld 0)
  refine ⟨hs, t, inst, rfl, by decide, run, fun accounted => ?_⟩
  have queued := accounted.queued
  have zero : t.vcpu.queuedNmis.toNat = 0 := by
    rw [queued_after inst n run, BitVec.toNat_add, BitVec.toNat_ofNat, hn, Nat.mod_self]
    rfl
  rw [zero, nmiExits, windowExits, List.count_replicate, List.count_replicate] at queued
  simp only [beq_self_eq_true, if_true] at queued
  change 0 = n - 0 at queued
  omega

theorem nmis_accounted_two : ∃ hs t, installed true = some hs ∧
    Run (ExitStep coldHost hs) (coldWorld 0) [.nmi, .nmi] t ∧ Accounted [.nmi, .nmi] t := by
  obtain ⟨hs, inst, -⟩ := installed_lists true
  obtain ⟨t, run⟩ := nmis_arrive inst coldHost 2 (coldWorld 0)
  have countable : Countable [.nmi, .nmi] := by
    intro part sub
    have short := sub.length_le
    have bound : part.count .nmi ≤ part.length := List.count_le_length
    change part.count .nmi < _
    change part.length ≤ 2 at short
    omega
  exact ⟨hs, t, inst, run, (nmis_accounted inst coldHost rfl (by decide) run countable).1⟩

end LMalz.Vmx
