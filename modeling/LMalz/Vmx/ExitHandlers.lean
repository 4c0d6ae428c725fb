import LMalz.Vmx.Core

/- The exit handlers of vmx_exitHandler.cpp and vmx_monitor.cpp, their lists, and ALvmxExitHandler. -/
namespace LMalz.Vmx
open Ept (Outcome flag access pageFrameNumber)
open Handler (HandlerCls)

/-- HV_IO_KEY and HV_IO_SUCCEED, 'orhv' and 'ORhv'; MNT_VMCALL_KEY, 'MNT'. -/
def HV_IO_KEY : BitVec 64 := 0x6F726876
def HV_IO_SUCCEED : BitVec 64 := 0x4F526876
def MNT_VMCALL_KEY : BitVec 32 := 0x4D4E54
def MNT_VMCALL_FUNCTION_INVEPT_ALL : BitVec 64 := 0
def MNT_VMCALL_FUNCTION_test : BitVec 64 := 1

def IA32_MTRR_FIX64K_00000 : BitVec 32 := 0x250
def IA32_MTRR_FIX16K_80000 : BitVec 32 := 0x258
def IA32_MTRR_FIX16K_A0000 : BitVec 32 := 0x259
def IA32_MTRR_FIX4K_C0000 : BitVec 32 := 0x268
def IA32_MTRR_FIX4K_F8000 : BitVec 32 := 0x26F

/-- The MSRs after which the handler looks at the memory types. -/
def isMtrr (msr : BitVec 32) : Bool :=
  msr = Mtrr.IA32_MTRR_DEF_TYPE ∨ msr = IA32_MTRR_FIX64K_00000 ∨ msr = IA32_MTRR_FIX16K_80000 ∨
    msr = IA32_MTRR_FIX16K_A0000 ∨ (IA32_MTRR_FIX4K_C0000 ≤ msr ∧ msr ≤ IA32_MTRR_FIX4K_F8000) ∨
    (Mtrr.IA32_MTRR_PHYSBASE0 ≤ msr ∧ msr ≤ Mtrr.IA32_MTRR_PHYSBASE0 + 511)

section BuiltIn
variable (host : Host) (w : World)

def vmxHandlerExceptionNmi : Outcome (Bool × World) :=
  let info := w.vmread .vmexitInterruptionInformation
  if interruptVector info = nmi.setWidth 8 ∧ interruptionType info = nonMaskableInterrupt then
    let w := { w with vcpu := { w.vcpu with queuedNmis := w.vcpu.queuedNmis + 1 } }
    .ok (true, setNmiWindowExiting w true)
  else .ok (false, w)

/-- The handler looks at the page tables of the guest and stops the machine. -/
def vmxHandlerTripleFault (_ : World) : Outcome (Bool × World) := .killed

def vmxInjectNmi (w : World) : World :=
  w.vmwrite .ctrlVmentryInterruptionInformationField (interruptInfo nmi nonMaskableInterrupt false)

def vmxHandlerNmiWindow : Outcome (Bool × World) :=
  let w := { w with vcpu := { w.vcpu with queuedNmis := w.vcpu.queuedNmis - 1 } }
  let w := vmxInjectNmi w
  let w := if w.vcpu.queuedNmis = 0 then setNmiWindowExiting w false else w
  let w := if 0 < w.vcpu.queuedNmis then setNmiWindowExiting w true else w
  .ok (true, w)

/-- The results of __cpuidex are `int`s. -/
def vmxHandlerCpuid : Outcome (Bool × World) :=
  let reg := w.vcpu.reg
  if reg.rax = HV_IO_KEY then
    .ok (true, incrementRip (w.setReg { reg with rax := HV_IO_SUCCEED }))
  else
    let regs := host.cpuid reg.eax reg.ecx
    .ok (true, incrementRip (w.setReg { reg with
      rax := regs.eax.signExtend 64
      rbx := regs.ebx.signExtend 64
      rcx := regs.ecx.signExtend 64
      rdx := regs.edx.signExtend 64 }))

/-- A handler that only injects an exception. -/
def inject (vector error : BitVec 32) (w : World) : Outcome (Bool × World) :=
  .ok (true, (injectHwException vector error w).2)

def vmxHandlerGetsec : Outcome (Bool × World) := inject generalProtection 0 w

def vmxHandlerInvd : Outcome (Bool × World) := inject generalProtection 0 w

/-- x87, sse, avx, bndreg, bndcsr, opmask, zmm_hi256 and zmm_hi16 are the bits 0 to 7 of XCR0. -/
def vmxHandlerXsetbv : Outcome (Bool × World) :=
  let reg := w.vcpu.reg
  let xcr0 := (reg.rdx <<< 32) ||| reg.eax.setWidth 64
  let cpuid0d := host.cpuid 0x0D 0
  let unsupported := ~~~((cpuid0d.edx.setWidth 64 <<< 32) ||| cpuid0d.eax.setWidth 64)
  if osXsave (readEffectiveGuestCr4 w) = false then inject invalidOpcode 0 w
  else if reg.ecx ≠ 0 then inject generalProtection 0 w
  else if xcr0 &&& unsupported ≠ 0 then inject generalProtection 0 w
  else if flag xcr0 0 = false then inject generalProtection 0 w
  else if flag xcr0 2 ∧ flag xcr0 1 = false then inject generalProtection 0 w
  else if flag xcr0 2 = false ∧ (flag xcr0 5 ∨ flag xcr0 6 ∨ flag xcr0 7) then
    inject generalProtection 0 w
  else if flag xcr0 3 ≠ flag xcr0 4 then inject generalProtection 0 w
  else if flag xcr0 5 ≠ flag xcr0 6 ∨ flag xcr0 6 ≠ flag xcr0 7 then inject generalProtection 0 w
  else
    let w := w.setInfo (safeCall w.vcpu.info (host.xsetbv reg.ecx xcr0))
    if w.vcpu.info.find then inject generalProtection 0 w
    else .ok (true, incrementRip w)

/-- The exception of an MSR access, and the value it returned otherwise. -/
def faultOf {α : Type} : Except Fault α → Option Fault
  | .ok _ => none
  | .error f => some f

def vmxHandlerMsrRead : Outcome (Bool × World) :=
  let result := host.rdmsr w.machine.msrs w.vcpu.reg.ecx
  let w := w.setInfo (safeCall w.vcpu.info (faultOf result))
  if w.vcpu.info.find then inject w.vcpu.info.vector w.vcpu.info.errorCode w
  else
    let v := result.toOption.getD 0
    .ok (true, incrementRip (w.setReg { w.vcpu.reg with rax := v &&& 0xFFFFFFFF, rdx := v >>> 32 }))

/-- The value of a WRMSR. -/
def msrValue : BitVec 64 := (w.vcpu.reg.rdx <<< 32) ||| w.vcpu.reg.eax.setWidth 64

/-- With caching on, a write to an MTRR kills the machine; with caching off the EPTs are only
flushed. -/
def vmxHandlerMsrWrite : Outcome (Bool × World) :=
  let msr := w.vcpu.reg.ecx
  let result := host.wrmsr w.machine.msrs msr (msrValue w)
  let w := w.setInfo (safeCall w.vcpu.info (faultOf result))
  if w.vcpu.info.find then inject w.vcpu.info.vector w.vcpu.info.errorCode w
  else
    let w := { w with machine := { w.machine with msrs := result.toOption.getD w.machine.msrs } }
    if isMtrr msr ∧ cacheDisable (readEffectiveGuestCr0 w) = false then .killed
    else .ok (true, incrementRip w)

theorem invalidOpcode_hooked : invalidOpcode ∈ hookedVectors := by decide
theorem generalProtection_hooked : generalProtection ∈ hookedVectors := by decide

/-- An exception for the guest, or the guest behind its instruction; only the info has changed before. -/
def World.InjectsOrMoves (r : Outcome (Bool × World)) : Prop :=
  ∃ info, (∃ vector ∈ hookedVectors, r = inject vector 0 (w.setInfo info)) ∨
    r = .ok (true, incrementRip (w.setInfo info))

theorem World.injects {vector : BitVec 32} (hooked : vector ∈ hookedVectors) :
    w.InjectsOrMoves (inject vector 0 w) := ⟨w.vcpu.info, .inl ⟨vector, hooked, rfl⟩⟩

/-- Each check of XSETBV that fails injects, and so does a fault of the instruction itself. -/
theorem vmxHandlerXsetbv_cases : w.InjectsOrMoves (vmxHandlerXsetbv host w) := by
  have refused := w.injects generalProtection_hooked
  unfold vmxHandlerXsetbv
  dsimp only
  refine iteInduction (fun _ => w.injects invalidOpcode_hooked) fun _ => ?_
  iterate 7 refine iteInduction (fun _ => refused) fun _ => ?_
  exact iteInduction (fun _ => ⟨_, .inl ⟨_, generalProtection_hooked, rfl⟩⟩) fun _ => ⟨_, .inr rfl⟩

section MsrAccess
variable {host w}

theorem vmxHandlerMsrRead_fault {f : Fault}
    (h : host.rdmsr w.machine.msrs w.vcpu.reg.ecx = .error f) : vmxHandlerMsrRead host w =
      inject f.vector f.error (w.setInfo (safeCall w.vcpu.info (some f))) := by
  simp only [vmxHandlerMsrRead, h, faultOf]
  rfl

theorem vmxHandlerMsrRead_ok {v : BitVec 64}
    (h : host.rdmsr w.machine.msrs w.vcpu.reg.ecx = .ok v) : vmxHandlerMsrRead host w =
      .ok (true, incrementRip ((w.setInfo (safeCall w.vcpu.info none)).setReg
        { w.vcpu.reg with rax := v &&& 0xFFFFFFFF, rdx := v >>> 32 })) := by
  simp only [vmxHandlerMsrRead, h, faultOf]
  rfl

theorem vmxHandlerMsrWrite_fault {f : Fault}
    (h : host.wrmsr w.machine.msrs w.vcpu.reg.ecx (msrValue w) = .error f) :
    vmxHandlerMsrWrite host w =
      inject f.vector f.error (w.setInfo (safeCall w.vcpu.info (some f))) := by
  simp only [vmxHandlerMsrWrite, h, faultOf]
  rfl

theorem vmxHandlerMsrWrite_ok {msrs : Mtrr.Msrs}
    (h : host.wrmsr w.machine.msrs w.vcpu.reg.ecx (msrValue w) = .ok msrs) :
    vmxHandlerMsrWrite host w =
      if isMtrr w.vcpu.reg.ecx ∧ cacheDisable (readEffectiveGuestCr0 w) = false then .killed
      else .ok (true, incrementRip { w.setInfo (safeCall w.vcpu.info none) with
        machine := { w.machine with msrs := msrs } }) := by
  simp only [vmxHandlerMsrWrite, h, faultOf]
  rfl

end MsrAccess

def handleVmxInstruction : Outcome (Bool × World) := inject invalidOpcode 0 w

def vmxHandlerVmon : Outcome (Bool × World) :=
  if vmxEnable (readEffectiveGuestCr4 w) = false then inject invalidOpcode 0 w
  else inject generalProtection 0 w

def vmxHandlerVmcall (is2 : Bool) : Outcome (Bool × World) :=
  if is2 = false then .ok (false, w) else inject invalidOpcode 0 w

def vmxHandlerMonitorTrapFlag (is2 : Bool) : Outcome (Bool × World) :=
  if is2 = false then .ok (false, w) else .ok (true, disableMonitorTrapFlag w)

def vmxHandlerEptViolation (is2 : Bool) : Outcome (Bool × World) :=
  if is2 = false then .ok (false, w) else .killed

end BuiltIn

section Monitor
variable (host : Host) (w : World)

def monitorMtfHandler : Outcome (Bool × World) :=
  if pageFrameNumber (w.vmread .ctrlEptPointer) = pageFrameNumber host.target.eptpV then
    .ok (true, { w with vcpu := { w.vcpu with
      mtfAdd := w.vcpu.reg.rip
      callbacks := w.vcpu.callbacks ++ [.mtf] } })
  else .ok (false, w)

/-- What the violation handler of the monitor sees of the core. -/
def coreOf : Monitor.Core := ⟨w.vmread .ctrlEptPointer, w.vcpu.callbacks, false⟩

def violationOf : Monitor.Violation :=
  ⟨w.vmread .exitQualification, w.vmread .guestPhysicalAddress⟩

/-- What the violation handler left of the core. -/
def withCore (core : Monitor.Core) : World :=
  let w := w.vmwrite .ctrlEptPointer core.eptPointer
  { w with vcpu := { w.vcpu with callbacks := core.callbacks } }

theorem withCore_coreOf : withCore w (coreOf w) = w := by
  have same : Function.update w.vcpu.vmcs .ctrlEptPointer (w.vcpu.vmcs .ctrlEptPointer) = w.vcpu.vmcs :=
    Function.update_eq_self _ _
  simp only [withCore, coreOf, World.vmwrite, World.vmread, same]

def monitorEptViolationHandler : Outcome (Bool × World) :=
  let (handled, core) := Monitor.monitorEptViolationHandler host.target host.vice w.machine
    (violationOf w) (coreOf w)
  .ok (handled, withCore w core)

def monitorHandlerVmcall : Outcome (Bool × World) :=
  if w.vcpu.reg.ecx = MNT_VMCALL_KEY then
    if w.vcpu.reg.rdx = MNT_VMCALL_FUNCTION_INVEPT_ALL then .ok (true, incrementRip w)
    else if w.vcpu.reg.rdx = MNT_VMCALL_FUNCTION_test then do
      let machine ← Monitor.alVmxMntSetTarget host.platform host.fuel host.target host.vice
        ⟨w.vcpu.reg.r8, w.vcpu.reg.r9, host.getPa⟩ w.machine
      return (true, incrementRip { w with machine := machine })
    else .killed
  else .ok (false, w)

end Monitor

/-- The handlers that ALvmxVmexitInit and ALvmxMNTinit add. -/
inductive ExitHandler where
  | exceptionNmi
  | tripleFault
  | nmiWindow
  | cpuid
  | getsec
  | invd
  | xsetbv
  | msrRead
  | msrWrite
  | monitorTrapFlag
  | eptViolation
  | vmon
  | vmcall
  | vmxInstruction
  | monitorEptViolation
  | monitorVmcall
  | monitorMtf
  deriving DecidableEq

def ExitHandler.call (host : Host) (is2 : Bool) : ExitHandler → World → Outcome (Bool × World)
  | .exceptionNmi => vmxHandlerExceptionNmi
  | .tripleFault => vmxHandlerTripleFault
  | .nmiWindow => vmxHandlerNmiWindow
  | .cpuid => vmxHandlerCpuid host
  | .getsec => vmxHandlerGetsec
  | .invd => vmxHandlerInvd
  | .xsetbv => vmxHandlerXsetbv host
  | .msrRead => vmxHandlerMsrRead host
  | .msrWrite => vmxHandlerMsrWrite host
  | .monitorTrapFlag => fun w => vmxHandlerMonitorTrapFlag w is2
  | .eptViolation => fun w => vmxHandlerEptViolation w is2
  | .vmon => vmxHandlerVmon
  | .vmcall => fun w => vmxHandlerVmcall w is2
  | .vmxInstruction => handleVmxInstruction
  | .monitorEptViolation => monitorEptViolationHandler host
  | .monitorVmcall => monitorHandlerVmcall host
  | .monitorMtf => monitorMtfHandler host

/-- The handler is one of the monitor. -/
def ExitHandler.ofMonitor : ExitHandler → Bool
  | .monitorEptViolation | .monitorVmcall | .monitorMtf => true
  | _ => false

section Reasons

def VMX_EXIT_REASON_EXCEPTION_OR_NMI : Nat := 0
def VMX_EXIT_REASON_TRIPLE_FAULT : Nat := 2
def VMX_EXIT_REASON_NMI_WINDOW : Nat := 8
def VMX_EXIT_REASON_EXECUTE_CPUID : Nat := 10
def VMX_EXIT_REASON_EXECUTE_GETSEC : Nat := 11
def VMX_EXIT_REASON_EXECUTE_INVD : Nat := 13
def VMX_EXIT_REASON_EXECUTE_VMCALL : Nat := 18
def VMX_EXIT_REASON_EXECUTE_VMCLEAR : Nat := 19
def VMX_EXIT_REASON_EXECUTE_VMLAUNCH : Nat := 20
def VMX_EXIT_REASON_EXECUTE_VMPTRLD : Nat := 21
def VMX_EXIT_REASON_EXECUTE_VMPTRST : Nat := 22
def VMX_EXIT_REASON_EXECUTE_VMREAD : Nat := 23
def VMX_EXIT_REASON_EXECUTE_VMRESUME : Nat := 24
def VMX_EXIT_REASON_EXECUTE_VMWRITE : Nat := 25
def VMX_EXIT_REASON_EXECUTE_VMXOFF : Nat := 26
def VMX_EXIT_REASON_EXECUTE_VMXON : Nat := 27
def VMX_EXIT_REASON_EXECUTE_RDMSR : Nat := 31
def VMX_EXIT_REASON_EXECUTE_WRMSR : Nat := 32
def VMX_EXIT_REASON_MONITOR_TRAP_FLAG : Nat := 37
def VMX_EXIT_REASON_EPT_VIOLATION : Nat := 48
def VMX_EXIT_REASON_EXECUTE_INVEPT : Nat := 50
def VMX_EXIT_REASON_EXECUTE_INVVPID : Nat := 53
def VMX_EXIT_REASON_EXECUTE_XSETBV : Nat := 55
def VMX_EXIT_REASON_EXECUTE_VMFUNC : Nat := 59

end Reasons

def vmexitHandlersCount : Nat := 65

/-- The calls of add_fun in ALvmxVmexitInit. -/
def vmexitInit : List (Nat × ExitHandler) :=
  [(VMX_EXIT_REASON_EXCEPTION_OR_NMI, .exceptionNmi),
    (VMX_EXIT_REASON_TRIPLE_FAULT, .tripleFault),
    (VMX_EXIT_REASON_NMI_WINDOW, .nmiWindow),
    (VMX_EXIT_REASON_EXECUTE_CPUID, .cpuid),
    (VMX_EXIT_REASON_EXECUTE_GETSEC, .getsec),
    (VMX_EXIT_REASON_EXECUTE_INVD, .invd),
    (VMX_EXIT_REASON_EXECUTE_XSETBV, .xsetbv),
    (VMX_EXIT_REASON_EXECUTE_RDMSR, .msrRead),
    (VMX_EXIT_REASON_EXECUTE_WRMSR, .msrWrite),
    (VMX_EXIT_REASON_MONITOR_TRAP_FLAG, .monitorTrapFlag),
    (VMX_EXIT_REASON_EPT_VIOLATION, .eptViolation),
    (VMX_EXIT_REASON_EXECUTE_VMXON, .vmon),
    (VMX_EXIT_REASON_EXECUTE_VMCALL, .vmcall),
    (VMX_EXIT_REASON_EXECUTE_INVEPT, .vmxInstruction),
    (VMX_EXIT_REASON_EXECUTE_INVVPID, .vmxInstruction),
    (VMX_EXIT_REASON_EXECUTE_VMCLEAR, .vmxInstruction),
    (VMX_EXIT_REASON_EXECUTE_VMLAUNCH, .vmxInstruction),
    (VMX_EXIT_REASON_EXECUTE_VMPTRLD, .vmxInstruction),
    (VMX_EXIT_REASON_EXECUTE_VMPTRST, .vmxInstruction),
    (VMX_EXIT_REASON_EXECUTE_VMREAD, .vmxInstruction),
    (VMX_EXIT_REASON_EXECUTE_VMRESUME, .vmxInstruction),
    (VMX_EXIT_REASON_EXECUTE_VMWRITE, .vmxInstruction),
    (VMX_EXIT_REASON_EXECUTE_VMXOFF, .vmxInstruction),
    (VMX_EXIT_REASON_EXECUTE_VMFUNC, .vmxInstruction)]

/-- The calls of add_fun in ALvmxMNTinit. -/
def mntInit : List (Nat × ExitHandler) :=
  [(VMX_EXIT_REASON_EPT_VIOLATION, .monitorEptViolation),
    (VMX_EXIT_REASON_EXECUTE_VMCALL, .monitorVmcall),
    (VMX_EXIT_REASON_MONITOR_TRAP_FLAG, .monitorMtf)]

/-- The array vmeixt_handlers. -/
abbrev VmexitHandlers := Nat → HandlerCls ExitHandler

/-- add_fun for each pair, at the front of the list of its exit reason. -/
def addFuns : List (Nat × ExitHandler) → VmexitHandlers → Option VmexitHandlers
  | [], hs => some hs
  | (reason, f) :: more, hs => do
      let (_, h) ← (hs reason).addHandler f false
      addFuns more (Function.update hs reason h)

/-- The lists after ALvmxVmexitInit, and with the monitor after ALvmxMNTinit. -/
def installed (monitor : Bool) : Option VmexitHandlers := do
  let hs ← addFuns vmexitInit fun _ => HandlerCls.init
  if monitor then addFuns mntInit hs else return hs

section Dispatch
variable (host : Host)

/-- A handler in the loop of call_handlers; one that does not return ends the loop. -/
def inLoop (is2 : Bool) (f : ExitHandler) : Outcome World → Bool × Outcome World
  | .ok w => match f.call host is2 w with
      | .ok (handled, w) => (handled, .ok w)
      | .killed => (true, .killed)
      | .outOfFuel => (true, .outOfFuel)
  | .killed => (true, .killed)
  | .outOfFuel => (true, .outOfFuel)

/-- call_all: two passes, then _default kills the machine. `none` is a list without end. -/
def callAll (h : HandlerCls ExitHandler) (w : World) : Option (Outcome World) := do
  let (handled, r) ← h.callHandlers (inLoop host false) (.ok w)
  if handled then return r
  let (handled, r) ← h.callHandlers (inLoop host true) r
  if handled then return r
  return .killed

def basicExitReason (w : World) : Nat :=
  (BitField.get (w.vmread .exitReason) 0 16 : BitVec 16).toNat

def alVmxExitHandler (hs : VmexitHandlers) (w : World) : Option (Outcome World) :=
  if vmexitHandlersCount ≤ basicExitReason w then some .killed
  else callAll host (hs (basicExitReason w)) w

end Dispatch

/-- A host whose MSRs hold what is written to them. -/
def coldHost : Host where
  platform := Ept.coldPlatform
  fuel := Ept.poolPages + 2
  target := .root 0 0
  vice := .root 0 0
  getPa := id
  cpuid _ _ := ⟨0, 0, 0, 0⟩
  rdmsr msrs a := .ok (msrs a)
  wrmsr msrs a v := .ok (Function.update msrs a v)
  xsetbv _ _ := none

/-- A core right after an exit for the given reason. -/
def coldWorld (reason : BitVec 64) : World where
  vcpu := {
    reg := ⟨0, 0, 0, 0, 0, 0, 0, 0, 0, 0, 0, 0, 0, 0, 0, 0, 0, 0⟩
    vmcs := Function.update (fun _ => 0) .exitReason reason
    queuedNmis := 0
    info := ⟨false, false, 0, 0⟩
    mtfAdd := 0
    callbacks := [] }
  machine := Ept.coldMachine

theorem coldWorld_sound (reason : BitVec 64) : (coldWorld reason).machine.PoolSound :=
  ⟨Int.le_refl 0, (by decide : (0 : Int) ≤ Pool.poolSize), Int.le_refl _⟩

end LMalz.Vmx
