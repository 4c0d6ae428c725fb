import LMalz.Vmx.NmiWindow
import LMalz.Vmx.RegisterResults
import LMalz.Vmx.WorldSwitch

/- What the exit handlers write, said once for all of them. -/
namespace LMalz.Vmx
open Ept (Outcome Machine)

def Reg.gpr (r : Reg) : Register → BitVec 64
  | .rax => r.rax
  | .rcx => r.rcx
  | .rdx => r.rdx
  | .rbx => r.rbx
  | .rsp => r.rsp
  | .rbp => r.rbp
  | .rsi => r.rsi
  | .rdi => r.rdi
  | .r8 => r.r8
  | .r9 => r.r9
  | .r10 => r.r10
  | .r11 => r.r11
  | .r12 => r.r12
  | .r13 => r.r13
  | .r14 => r.r14
  | .r15 => r.r15
  | .xmmLow _ => 0
  | .xmmHigh _ => 0

/-- The general registers that a handler writes. -/
def ExitHandler.writes : ExitHandler → List Register
  | .cpuid => [.rax, .rbx, .rcx, .rdx]
  | .msrRead => [.rax, .rdx]
  | _ => []

/-- What a handler leaves of the registers of the guest. -/
structure Leaves (written : List Register) (r r' : Reg) : Prop where
  gpr : ∀ x, x ∉ written → r'.gpr x = r.gpr x
  rflags : r'.rflags = r.rflags

/-- What vmx_handler_exception_nmi leaves. -/
def nmiQueued (w : World) : World :=
  setNmiWindowExiting { w with vcpu := { w.vcpu with queuedNmis := w.vcpu.queuedNmis + 1 } } true

/-- What the handler of the monitor makes of an EPT violation. -/
def violationTaken (host : Host) (w : World) : Bool × Monitor.Core :=
  Monitor.monitorEptViolationHandler host.target host.vice w.machine (violationOf w) (coreOf w)

/-- What a handler that takes an exit does: it injects an exception, or completes an instruction, or
does the one thing it is there for. -/
inductive HandlerEffect (host : Host) (w : World) : ExitHandler → World → Prop where
  | injects (f : ExitHandler) (info : ExceptionInfo) (vector error : BitVec 32) :
      HandlerEffect host w f (injectHwException vector error (w.setInfo info)).2
  | completes {f : ExitHandler} {reg : Reg} (emulates : f.emulates = true)
      (leaves : Leaves f.writes w.vcpu.reg reg)
      (info : ExceptionInfo) (machine : Machine) :
      HandlerEffect host w f (incrementRip ⟨{ w.vcpu with reg := reg, info := info }, machine⟩)
  | nmi : HandlerEffect host w .exceptionNmi (nmiQueued w)
  | window {w' : World} (run : vmxHandlerNmiWindow w = .ok (true, w')) :
      HandlerEffect host w .nmiWindow w'
  | trapFlag : HandlerEffect host w .monitorTrapFlag (disableMonitorTrapFlag w)
  | violation (taken : (violationTaken host w).1 = true) :
      HandlerEffect host w .monitorEptViolation (withCore w (violationTaken host w).2)
  | mtf : HandlerEffect host w .monitorMtf { w with vcpu := { w.vcpu with
      mtfAdd := w.vcpu.reg.rip
      callbacks := w.vcpu.callbacks ++ [.mtf] } }

section Effects
variable {host : Host} {is2 : Bool} {w w' : World} {f : ExitHandler} {written : List Register}

theorem Leaves.refl (r : Reg) : Leaves written r r := ⟨fun _ _ => rfl, rfl⟩

theorem HandlerEffect.of_inject {vector error : BitVec 32} {info : ExceptionInfo}
    (run : inject vector error (w.setInfo info) = .ok (true, w')) : HandlerEffect host w f w' := by
  cases run
  exact .injects f info vector error

/-- A handler that takes an exit has one of these effects. -/
theorem ExitHandler.effect (run : f.call host is2 w = .ok (true, w')) :
    HandlerEffect host w f w' := by
  have plain {vector error : BitVec 32} (ends : inject vector error w = .ok (true, w')) :
    HandlerEffect host w f w' := by
    cases ends
    exact .injects f w.vcpu.info vector error
  cases f with
  | exceptionNmi =>
      simp only [ExitHandler.call, vmxHandlerExceptionNmi] at run
      split at run
      · cases run
        exact .nmi
      · cases run
  | nmiWindow => exact .window run
  | tripleFault => cases run
  | cpuid =>
      simp only [ExitHandler.call, vmxHandlerCpuid] at run
      split at run
      · cases run
        have leaves : Leaves [.rax, .rbx, .rcx, .rdx] w.vcpu.reg
          { w.vcpu.reg with rax := HV_IO_SUCCEED } := by
          refine ⟨fun x outside => ?_, rfl⟩
          cases x with
          | rax => exact absurd List.mem_cons_self outside
          | _ => rfl
        exact .completes (f := .cpuid) (w := w) rfl leaves _ _
      · cases run
        have leaves (a b c d : BitVec 64) : Leaves [.rax, .rbx, .rcx, .rdx] w.vcpu.reg
            { w.vcpu.reg with rax := a, rbx := b, rcx := c, rdx := d } := by
          refine ⟨fun x outside => ?_, rfl⟩
          cases x with
          | rax => exact absurd (by decide) outside
          | rbx => exact absurd (by decide) outside
          | rcx => exact absurd (by decide) outside
          | rdx => exact absurd (by decide) outside
          | _ => rfl
        exact .completes (f := .cpuid) (w := w) rfl (leaves _ _ _ _) _ _
  | getsec => exact plain run
  | invd => exact plain run
  | xsetbv =>
      obtain ⟨info, ⟨vector, -, ends⟩ | ends⟩ := vmxHandlerXsetbv_cases host w
      · exact .of_inject (ends.symm.trans run)
      · cases ends.symm.trans run
        exact .completes rfl (.refl _) info _
  | msrRead =>
      cases read : host.rdmsr w.machine.msrs w.vcpu.reg.ecx with
      | error fault =>
          rw [ExitHandler.call, vmxHandlerMsrRead_fault read] at run
          exact .of_inject run
      | ok v =>
          rw [ExitHandler.call, vmxHandlerMsrRead_ok read] at run
          cases run
          have leaves (a d : BitVec 64) :
            Leaves [.rax, .rdx] w.vcpu.reg { w.vcpu.reg with rax := a, rdx := d } := by
            refine ⟨fun x outside => ?_, rfl⟩
            cases x with
            | rax => exact absurd (by decide) outside
            | rdx => exact absurd (by decide) outside
            | _ => rfl
          exact .completes (f := .msrRead) (w := w) rfl (leaves _ _) _ _
  | msrWrite =>
      cases written : host.wrmsr w.machine.msrs w.vcpu.reg.ecx (msrValue w) with
      | error fault =>
          rw [ExitHandler.call, vmxHandlerMsrWrite_fault written] at run
          exact .of_inject run
      | ok msrs =>
          rw [ExitHandler.call, vmxHandlerMsrWrite_ok written] at run
          split at run
          · cases run
          · cases run
            exact .completes rfl (.refl _) _ _
  | monitorTrapFlag =>
      simp only [ExitHandler.call, vmxHandlerMonitorTrapFlag] at run
      split at run
      · cases run
      · cases run
        exact .trapFlag
  | eptViolation =>
      simp only [ExitHandler.call, vmxHandlerEptViolation] at run
      split at run <;> cases run
  | vmon =>
      simp only [ExitHandler.call, vmxHandlerVmon] at run
      split at run
      · exact plain run
      · exact plain run
  | vmcall =>
      simp only [ExitHandler.call, vmxHandlerVmcall] at run
      split at run
      · cases run
      · exact plain run
  | vmxInstruction => exact plain run
  | monitorEptViolation =>
      simp only [ExitHandler.call, monitorEptViolationHandler, Outcome.ok.injEq,
        Prod.mk.injEq] at run
      rw [← run.2]
      exact .violation run.1
  | monitorVmcall =>
      simp only [ExitHandler.call, monitorHandlerVmcall] at run
      split_ifs at run
      · cases run
        exact .completes rfl (.refl _) _ _
      · obtain ⟨machine, -, last⟩ := Outcome.of_bind run
        cases last
        exact .completes rfl (.refl _) _ machine
      · cases run
  | monitorMtf =>
      simp only [ExitHandler.call, monitorMtfHandler] at run
      split at run
      · cases run
        exact .mtf
      · cases run

/-- A core that differs from another in its registers and in fields of the VMCS alone. -/
structure Touches (fields : List Vmcs) (w w' : World) : Prop where
  vmcs : ∀ g, g ∉ fields → w'.vmread g = w.vmread g
  queuedNmis : w'.vcpu.queuedNmis = w.vcpu.queuedNmis
  mtfAdd : w'.vcpu.mtfAdd = w.vcpu.mtfAdd
  callbacks : w'.vcpu.callbacks = w.vcpu.callbacks
  machine : w'.machine = w.machine

variable {fields : List Vmcs}

theorem Touches.refl (w : World) : Touches fields w w := ⟨fun _ _ => rfl, rfl, rfl, rfl, rfl⟩

theorem Touches.vmwrite {v : World} (h : Touches fields w v) {g : Vmcs} (mem : g ∈ fields)
    (x : BitVec 64) :
    Touches fields w (v.vmwrite g x) where
  vmcs g' outside := by
    have ne : g' ≠ g := by
      intro same
      exact outside (same ▸ mem)
    rw [World.vmread_vmwrite_of_ne _ _ _ _ ne, h.vmcs g' outside]
  queuedNmis := h.queuedNmis
  mtfAdd := h.mtfAdd
  callbacks := h.callbacks
  machine := h.machine

theorem touches_injectHwException (vector error : BitVec 32) (w : World) :
    Touches [.ctrlVmentryInterruptionInformationField, .ctrlVmentryExceptionErrorCode] w
        (injectHwException vector error w).2 ∧ (injectHwException vector error w).2.vcpu.reg =
          w.vcpu.reg := by
  have here : Touches [.ctrlVmentryInterruptionInformationField, .ctrlVmentryExceptionErrorCode]
    w w := .refl w
  unfold injectHwException
  dsimp only
  split_ifs
  · exact ⟨here.vmwrite (by decide) _, rfl⟩
  · exact ⟨(here.vmwrite (by decide) _).vmwrite (by decide) _, rfl⟩
  · exact ⟨here, rfl⟩
  · exact ⟨(here.vmwrite (by decide) _).vmwrite (by decide) _, rfl⟩

theorem touches_incrementRip (w : World) :
    Touches [.guestInterruptibilityState, .guestPendingDebugExceptions] w (incrementRip w) := by
  have moved (r : Reg) : Touches [.guestInterruptibilityState, .guestPendingDebugExceptions] w
    (w.setReg r) :=
    ⟨fun _ _ => rfl, rfl, rfl, rfl, rfl⟩
  unfold incrementRip
  dsimp only
  split_ifs
  all_goals first
    | exact ((moved _).vmwrite (by decide) _).vmwrite (by decide) _
    | exact (moved _).vmwrite (by decide) _

theorem Leaves.incrementRip {v : World} (h : Leaves written w.vcpu.reg v.vcpu.reg) :
    Leaves written w.vcpu.reg (incrementRip v).vcpu.reg := by
  rw [reg_incrementRip]
  refine ⟨fun x outside => ?_, h.rflags⟩
  rw [← h.gpr x outside]
  cases x <;> rfl

theorem vmxHandlerNmiWindow_reg (run : vmxHandlerNmiWindow w = .ok (true, w')) : w'.vcpu.reg =
    w.vcpu.reg := by
  simp only [vmxHandlerNmiWindow, Outcome.ok.injEq, Prod.mk.injEq, true_and] at run
  rw [← run]
  split_ifs <;> rfl

/-- A handler writes its own registers, and rip only when it emulates an instruction. -/
theorem HandlerEffect.leaves (h : HandlerEffect host w f w') :
    Leaves f.writes w.vcpu.reg w'.vcpu.reg ∧ (f.emulates = false → w'.vcpu.reg = w.vcpu.reg) := by
  have same (h : w'.vcpu.reg = w.vcpu.reg) :
      Leaves f.writes w.vcpu.reg w'.vcpu.reg ∧ (f.emulates = false → w'.vcpu.reg = w.vcpu.reg) :=
    ⟨h ▸ .refl _, fun _ => h⟩
  cases h with
  | injects _ info vector error =>
      exact same (touches_injectHwException vector error (w.setInfo info)).2
  | completes emulates leaves info machine =>
      exact ⟨Leaves.incrementRip leaves, fun quiet => absurd emulates (by rw [quiet]; decide)⟩
  | nmi => exact same rfl
  | window run => exact same (vmxHandlerNmiWindow_reg run)
  | trapFlag => exact same rfl
  | violation taken => exact same rfl
  | mtf => exact same rfl

end Effects

end LMalz.Vmx
