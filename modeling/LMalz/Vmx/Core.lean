import LMalz.Monitor.Violation

/- A core in VMX operation: the registers of the guest, the VMCS, and vmx.inl. -/
namespace LMalz.Vmx
open Ept (Platform EptCls Machine Outcome flag setFlag)
open Monitor (Callback)

/-- The general registers, rip and rflags of OR_HV_VMX_REG. -/
structure Reg where
  rax : BitVec 64
  rcx : BitVec 64
  rdx : BitVec 64
  rbx : BitVec 64
  rsp : BitVec 64
  rbp : BitVec 64
  rsi : BitVec 64
  rdi : BitVec 64
  r8 : BitVec 64
  r9 : BitVec 64
  r10 : BitVec 64
  r11 : BitVec 64
  r12 : BitVec 64
  r13 : BitVec 64
  r14 : BitVec 64
  r15 : BitVec 64
  rip : BitVec 64
  rflags : BitVec 64
  deriving DecidableEq

def Reg.eax (r : Reg) : BitVec 32 := r.rax.setWidth 32
def Reg.ecx (r : Reg) : BitVec 32 := r.rcx.setWidth 32

/-- The fields of the VMCS that the exit handlers read or write. -/
inductive Vmcs where
  | exitReason
  | exitQualification
  | vmexitInterruptionInformation
  | vmexitInstructionLength
  | guestPhysicalAddress
  | ctrlVmentryInterruptionInformationField
  | ctrlVmentryExceptionErrorCode
  | ctrlProcessorBasedVmExecutionControls
  | ctrlEptPointer
  | ctrlCr0GuestHostMask
  | ctrlCr0ReadShadow
  | ctrlCr4GuestHostMask
  | ctrlCr4ReadShadow
  | guestCr0
  | guestCr4
  | guestCsAccessRights
  | guestInterruptibilityState
  | guestDebugctl
  | guestPendingDebugExceptions
  deriving DecidableEq

structure ExceptionInfo where
  monitor : Bool
  find : Bool
  vector : BitVec 32
  errorCode : BitVec 32
  deriving DecidableEq

/-- What a core has of its own: OR_HV_VMX_CORE, its VMCS, its OR_EXCEPTION_INFO, its MNT_INFO and
the calls of g_callback on it. -/
structure Vcpu where
  reg : Reg
  vmcs : Vmcs → BitVec 64
  queuedNmis : BitVec 64
  info : ExceptionInfo
  mtfAdd : BitVec 64
  callbacks : List Callback

/-- A core, and the tables and MSRs behind it. -/
structure World where
  vcpu : Vcpu
  machine : Machine

/-- The vectors whose gates ALhvIDT_prepare_host_idt replaces. -/
def hookedVectors : List (BitVec 32) :=
  [0, 1, 2, 3, 4, 5, 6, 7, 8, 10, 11, 12, 13, 14, 16, 17, 18, 19, 20, 21]

/-- An exception on the host that reaches safe_handler. -/
structure Fault where
  vector : BitVec 32
  error : BitVec 32
  hooked : vector ∈ hookedVectors

structure CpuidResult where
  eax : BitVec 32
  ebx : BitVec 32
  ecx : BitVec 32
  edx : BitVec 32

/-- The processor, and what the monitor was started with. The three privileged instructions fault
or succeed, with any MSRs afterwards. -/
structure Host where
  platform : Platform
  fuel : Nat
  target : EptCls
  vice : EptCls
  getPa : BitVec 64 → BitVec 64
  cpuid : BitVec 32 → BitVec 32 → CpuidResult
  rdmsr : Mtrr.Msrs → BitVec 32 → Except Fault (BitVec 64)
  wrmsr : Mtrr.Msrs → BitVec 32 → BitVec 64 → Except Fault Mtrr.Msrs
  xsetbv : BitVec 32 → BitVec 64 → Option Fault

namespace World

def vmread (w : World) (field : Vmcs) : BitVec 64 := w.vcpu.vmcs field

def vmwrite (w : World) (field : Vmcs) (value : BitVec 64) : World :=
  { w with vcpu := { w.vcpu with vmcs := Function.update w.vcpu.vmcs field value } }

def setReg (w : World) (reg : Reg) : World := { w with vcpu := { w.vcpu with reg := reg } }

def setInfo (w : World) (info : ExceptionInfo) : World :=
  { w with vcpu := { w.vcpu with info := info } }

section Fields
variable (w : World) (f g : Vmcs) (v : BitVec 64) (r : Reg) (i : ExceptionInfo)

@[simp] theorem vmread_vmwrite_self : (w.vmwrite f v).vmread f = v := Function.update_self _ _ _

theorem vmread_vmwrite_of_ne (ne : g ≠ f) : (w.vmwrite f v).vmread g = w.vmread g :=
  Function.update_of_ne ne _ _

@[simp] theorem reg_vmwrite : (w.vmwrite f v).vcpu.reg = w.vcpu.reg := rfl
@[simp] theorem queuedNmis_vmwrite : (w.vmwrite f v).vcpu.queuedNmis = w.vcpu.queuedNmis := rfl
@[simp] theorem machine_vmwrite : (w.vmwrite f v).machine = w.machine := rfl
@[simp] theorem vmread_setReg : (w.setReg r).vmread f = w.vmread f := rfl
@[simp] theorem reg_setReg : (w.setReg r).vcpu.reg = r := rfl
@[simp] theorem queuedNmis_setReg : (w.setReg r).vcpu.queuedNmis = w.vcpu.queuedNmis := rfl
@[simp] theorem machine_setReg : (w.setReg r).machine = w.machine := rfl
@[simp] theorem vmread_setInfo : (w.setInfo i).vmread f = w.vmread f := rfl
@[simp] theorem reg_setInfo : (w.setInfo i).vcpu.reg = w.vcpu.reg := rfl
@[simp] theorem queuedNmis_setInfo : (w.setInfo i).vcpu.queuedNmis = w.vcpu.queuedNmis := rfl
@[simp] theorem machine_setInfo : (w.setInfo i).machine = w.machine := rfl

end Fields

end World

/-- exception_vector and interruption_type. -/
def invalidOpcode : BitVec 32 := 6
def generalProtection : BitVec 32 := 13
def nmi : BitVec 32 := 2
def nonMaskableInterrupt : BitVec 3 := 2
def hardwareException : BitVec 3 := 3

/-- The fields of vmentry_interrupt_information, which are where vmexit_interrupt_information
has them. -/
def interruptVector (i : BitVec 64) : BitVec 8 := BitField.get i 0 8
def interruptionType (i : BitVec 64) : BitVec 3 := BitField.get i 8 3
def deliverErrorCode (i : BitVec 64) : Bool := flag i 11
def interruptValid (i : BitVec 64) : Bool := flag i 31

/-- The event that the VM entry delivers. -/
def interruptInfo (vector : BitVec 32) (type : BitVec 3) (deliver : Bool) : BitVec 64 :=
  setFlag (BitField.set (BitField.set (setFlag 0 11 deliver) 0 (vector.setWidth 8)) 8 type) 31 true

/-- read_effective_guest_cr0 and read_effective_guest_cr4: the bits of the mask come from the
shadow. -/
def readEffectiveGuestCr0 (w : World) : BitVec 64 :=
  let mask := w.vmread .ctrlCr0GuestHostMask
  (w.vmread .ctrlCr0ReadShadow &&& mask) ||| (w.vmread .guestCr0 &&& ~~~mask)

def readEffectiveGuestCr4 (w : World) : BitVec 64 :=
  let mask := w.vmread .ctrlCr4GuestHostMask
  (w.vmread .ctrlCr4ReadShadow &&& mask) ||| (w.vmread .guestCr4 &&& ~~~mask)

def cacheDisable (cr0 : BitVec 64) : Bool := flag cr0 30
def vmxEnable (cr4 : BitVec 64) : Bool := flag cr4 13
def osXsave (cr4 : BitVec 64) : Bool := flag cr4 18

/-- nmi_window_exiting and monitor_trap_flag of the processor-based controls. -/
def nmiWindowExiting (w : World) : Bool := flag (w.vmread .ctrlProcessorBasedVmExecutionControls) 22

def setNmiWindowExiting (w : World) (b : Bool) : World :=
  w.vmwrite .ctrlProcessorBasedVmExecutionControls
    (setFlag (w.vmread .ctrlProcessorBasedVmExecutionControls) 22 b)

def disableMonitorTrapFlag (w : World) : World :=
  w.vmwrite .ctrlProcessorBasedVmExecutionControls
    (setFlag (w.vmread .ctrlProcessorBasedVmExecutionControls) 27 false)

/-- inject_hw_exception: some vectors are refused, the error code of #DF and #AC is 0. -/
def injectHwException (vector : BitVec 32) (error : BitVec 32) (w : World) : Bool × World :=
  let deliver (b : Bool) (w : World) : Bool × World :=
    (true, w.vmwrite .ctrlVmentryInterruptionInformationField
      (interruptInfo vector hardwareException b))
  if vector ≤ 7 ∨ vector = 16 ∨ vector = 18 ∨ vector = 19 ∨ vector = 20 then deliver false w
  else if vector = 8 ∨ vector = 17 then
    deliver true (w.vmwrite .ctrlVmentryExceptionErrorCode 0)
  else if vector = 9 ∨ vector = 15 ∨ 22 ≤ vector then (false, w)
  else deliver true (w.vmwrite .ctrlVmentryExceptionErrorCode (error.setWidth 64))

/-- safe_handler; without `monitor` ALhvIdtHandler kills the machine. -/
def safeHandler (info : ExceptionInfo) (f : Fault) : Bool × ExceptionInfo :=
  if !info.monitor then (false, info)
  else (true, { info with find := true, vector := f.vector, errorCode := f.error })

/-- ALhvIDTsafeRdmsr, ALhvIDTsafeWrmsr and ALhvIDTsafeXsetbv around an instruction that faults or
not. -/
def safeCall (info : ExceptionInfo) (fault : Option Fault) : ExceptionInfo :=
  let info := { info with monitor := true, find := false }
  let info := match fault with
    | none => info
    | some f => (safeHandler info f).2
  { info with monitor := false }

def incrementRip (w : World) : World :=
  let oldRip := w.vcpu.reg.rip
  let newRip := oldRip + w.vmread .vmexitInstructionLength
  let newRip :=
    if oldRip < 0x100000000 ∧ 0x100000000 ≤ newRip then
      if flag (w.vmread .guestCsAccessRights) 13 = false then newRip &&& 0xFFFFFFFF else newRip
    else newRip
  let w := w.setReg { w.vcpu.reg with rip := newRip }
  let state := w.vmread .guestInterruptibilityState
  let w := w.vmwrite .guestInterruptibilityState (setFlag (setFlag state 1 false) 0 false)
  let btf := flag (w.vmread .guestDebugctl) 1
  if flag w.vcpu.reg.rflags 8 ∧ btf = false then
    w.vmwrite .guestPendingDebugExceptions
      (setFlag (w.vmread .guestPendingDebugExceptions) 14 true)
  else w

theorem machine_incrementRip (w : World) : (incrementRip w).machine = w.machine := by
  unfold incrementRip
  dsimp only
  split_ifs <;> rfl

end LMalz.Vmx
