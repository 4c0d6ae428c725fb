import LMalz.Vmx.HandlerEffects

/- Runs of a core through ALvmxHostEnter_asm are runs of the exit handlers, seen from the guest. -/
namespace LMalz.Vmx
open Asm (load)
open Ept (Outcome)
open Transition

/-- OR_HV_VMX_REG of a core, as ALvmxExitHandler reads and writes it. -/
def regAt (core : BitVec 64) (m : Asm.Memory) : Reg where
  rax := load m (core + 0x00)
  rcx := load m (core + 0x08)
  rdx := load m (core + 0x10)
  rbx := load m (core + 0x18)
  rsp := load m (core + RSP_0)
  rbp := load m (core + 0x28)
  rsi := load m (core + 0x30)
  rdi := load m (core + 0x38)
  r8 := load m (core + 0x40)
  r9 := load m (core + 0x48)
  r10 := load m (core + 0x50)
  r11 := load m (core + 0x58)
  r12 := load m (core + 0x60)
  r13 := load m (core + 0x68)
  r14 := load m (core + 0x70)
  r15 := load m (core + 0x78)
  rip := load m (core + RIP_0)
  rflags := load m (core + RFLAGS_0)

/-- The registers of a processor in the guest. -/
def guestReg (p : Processor) : Reg where
  rax := p.reg .rax
  rcx := p.reg .rcx
  rdx := p.reg .rdx
  rbx := p.reg .rbx
  rsp := p.reg .rsp
  rbp := p.reg .rbp
  rsi := p.reg .rsi
  rdi := p.reg .rdi
  r8 := p.reg .r8
  r9 := p.reg .r9
  r10 := p.reg .r10
  r11 := p.reg .r11
  r12 := p.reg .r12
  r13 := p.reg .r13
  r14 := p.reg .r14
  r15 := p.reg .r15
  rip := p.rip
  rflags := p.rflags

theorem Holds.regAt_eq {core : BitVec 64} {m : Asm.Memory} {p : Processor} (h : Holds core m p) :
    regAt core m = guestReg p := by
  have slot (s : Register × BitVec 64) (mem : s ∈ gprSlots) : load m (core + s.2) = p.reg s.1 :=
    h.slots s (List.mem_append_left _ mem)
  rw [regAt, guestReg, h.rsp, h.rip, h.rflags, slot (.rax, 0x00)
    (by decide), slot (.rcx, 0x08) (by decide),
    slot (.rdx, 0x10) (by decide), slot (.rbx, 0x18) (by decide), slot (.rbp, 0x28) (by decide),
    slot (.rsi, 0x30) (by decide), slot (.rdi, 0x38) (by decide), slot (.r8, 0x40) (by decide),
    slot (.r9, 0x48) (by decide), slot (.r10, 0x50) (by decide), slot (.r11, 0x58) (by decide),
    slot (.r12, 0x60) (by decide), slot (.r13, 0x68) (by decide), slot (.r14, 0x70) (by decide),
    slot (.r15, 0x78) (by decide)]

/-- ALvmxIsRoot on the core of `gALvmxVCPU`, if that is there. -/
def alVmxIsRoot (core : Option (BitVec 64)) (m : Asm.Memory) : Bool :=
  match core with
  | none => false
  | some core => load m (core + IS_ROOT) != 0

/-- The compiled ALvmxExitHandler from its call to its return: on OR_HV_VMX_REG and the rest of the
core it is alVmxExitHandler; nothing in C writes the xmm registers there or isRoot. -/
structure ExitCall (host : Host) (hs : VmexitHandlers) (core : BitVec 64) (v w' : World)
    (c t : Processor) :
    Prop where
  handles : alVmxExitHandler host hs (v.setReg (regAt core c.memory)) = some (.ok w')
  reg : regAt core t.memory = w'.vcpu.reg
  xmm : ∀ s ∈ xmmSlots, load t.memory (core + s.2) = load c.memory (core + s.2)
  isRoot : load t.memory (core + IS_ROOT) = load c.memory (core + IS_ROOT)
  stack : t.reg .rsp = c.reg .rsp
  vmxOperation : t.vmxOperation = c.vmxOperation

/-- A core between two exits: its processor, and what it has apart from its registers. -/
structure CoreState where
  processor : Processor
  world : World

/-- The core with the registers of the guest. -/
def CoreState.seen (s : CoreState) : World := s.world.setReg (guestReg s.processor)

def World.exits (v : World) : Exit → Prop
  | .nmi => v.nmiExit
  | .window => v.windowExit ∧ nmiWindowExiting v = true
  | .other => ¬ v.nmiExit ∧ ¬ v.windowExit

/-- The guest runs up to an exit, where it has any registers and memory `p`; ALvmxHostEnter_asm
takes it. -/
inductive SwitchStep (host : Host) (hs : VmexitHandlers) (core hostRip : BitVec 64) :
    CoreState → Exit → CoreState → Prop
  | mk {s : CoreState} {e : Exit} {p : Processor} {v w' : World} {handler : Processor → Processor} :
      p.vmxOperation = s.processor.vmxOperation → GuestRan s.world v → v.exits e →
      ExitCall host hs core v w' (called p core hostRip) (handler (called p core hostRip)) →
      SwitchStep host hs core hostRip s e
        ⟨(alVmxHostEnterAsm handler (p.vmExit core hostRip)).processor, w'⟩

section Switch
variable {host : Host} {hs : VmexitHandlers} {core hostRip : BitVec 64} {p q : Processor}
  {v w' : World}
  {handler : Processor → Processor}

theorem called_isRoot : load (called p core hostRip).memory (core + IS_ROOT) = 1 := by
  rw [called_memory]
  exact holds_saveGuest.2

theorem called_holds : Holds core (called p core hostRip).memory p := by
  rw [called_memory]
  exact holds_saveGuest.1

/-- What the guest gets back: the registers that ALvmxExitHandler left, and its own xmm registers.
-/
structure Resumed (core : BitVec 64) (p q : Processor) (reg : Reg) : Prop where
  reg : guestReg q = reg
  xmm : ∀ s ∈ xmmSlots, q.reg s.1 = p.reg s.1
  notRoot : alVmxIsRoot (some core) q.memory = false
  vmxOperation : q.vmxOperation = p.vmxOperation

theorem ExitCall.resumes (h : ExitCall host hs core v w' (called p core hostRip)
    (handler (called p core hostRip))) :
    ∃ q, alVmxHostEnterAsm handler (p.vmExit core hostRip) = .resumed q ∧
      Resumed core p q w'.vcpu.reg := by
  have returns : Returns core 1 (handler (called p core hostRip)) :=
    ⟨h.stack.trans called_rsp, h.isRoot.trans called_isRoot⟩
  obtain ⟨q, run, holds, memory, vmxOperation⟩ := alVmxHostEnterAsm_resumes returns
  refine ⟨q, run, holds.regAt_eq.symm.trans h.reg, fun s mem => ?_, ?_, ?_⟩
  · have slot : s ∈ regSlots := List.mem_append_right _ mem
    rw [← holds.slots s slot, h.xmm s mem, called_holds.slots s slot]
  · rw [alVmxIsRoot, memory, Asm.load_store_self]
    rfl
  · rw [vmxOperation, h.vmxOperation, called_vmxOperation]

theorem seen_of_guestReg (h : guestReg q = w'.vcpu.reg) : CoreState.seen ⟨q, w'⟩ = w' := by
  rw [CoreState.seen, h]
  rfl

/-- The core is in VMX operation, and ALvmxIsRoot says that it is not in root mode. -/
structure InGuest (core : BitVec 64) (p : Processor) : Prop where
  vmxOperation : p.vmxOperation = true
  notRoot : alVmxIsRoot (some core) p.memory = false

theorem SwitchStep.exitStep {s t : CoreState} {e : Exit}
    (step : SwitchStep host hs core hostRip s e t)
    (inside : s.processor.vmxOperation = true) :
    ExitStep host hs s.seen e t.seen ∧ InGuest core t.processor := by
  cases step with
  | @mk p v w' handler stays ran exits call =>
      obtain ⟨q, run, back⟩ := call.resumes
      have handles := call.handles
      rw [called_holds.regAt_eq] at handles
      have seen : GuestRan s.seen (v.setReg (guestReg p)) := ⟨ran.controls, ran.queued⟩
      rw [run, Switched.processor, seen_of_guestReg back.reg]
      refine ⟨?_, back.vmxOperation.trans (stays.trans inside), back.notRoot⟩
      cases e with
      | nmi => exact .nmi seen exits handles
      | window => exact .window seen exits.1 exits.2 handles
      | other => exact .other seen exits.1 exits.2 handles

/-- Every run of a core through ALvmxHostEnter_asm is, with the registers that the guest has, a run
of the exit handlers. No exit leads out of VMX operation, and in the guest ALvmxIsRoot is false. -/
theorem switches_refine {s t : CoreState} {es : List Exit}
    (run : Run (SwitchStep host hs core hostRip) s es t)
    (inside : InGuest core s.processor) :
    Run (ExitStep host hs) s.seen es t.seen ∧ InGuest core t.processor := by
  induction run with
  | nil s => exact ⟨.nil _, inside⟩
  | cons first rest ih =>
      obtain ⟨step, stays⟩ := first.exitStep inside.vmxOperation
      obtain ⟨steps, last⟩ := ih stays
      exact ⟨.cons step steps, last⟩

end Switch

section Frame

variable {host : Host} {hs : VmexitHandlers} {w w' : World}

/-- The general registers that an exit for a reason may change. -/
def writtenRegisters (reason : Nat) : List Register :=
  if reason = VMX_EXIT_REASON_EXECUTE_CPUID then [.rax, .rbx, .rcx, .rdx]
  else if reason = VMX_EXIT_REASON_EXECUTE_RDMSR then [.rax, .rdx]
  else []

theorem additions_writes : ∀ m, ∀ a ∈ additions m, a.2.writes ⊆ writtenRegisters a.1 ∧
    (a.1 ∉ emulatedReasons → a.2.emulates = false) := by decide

theorem exit_leaves {monitor : Bool} {hs : VmexitHandlers} (inst : installed monitor = some hs)
    (resumes : alVmxExitHandler host hs w = some (.ok w')) :
    Leaves (writtenRegisters (basicExitReason w)) w.vcpu.reg w'.vcpu.reg ∧
      (basicExitReason w ∉ emulatedReasons → w'.vcpu.reg = w.vcpu.reg) := by
  obtain ⟨is2, f, mem, run⟩ := exit_taken inst resumes
  obtain ⟨a, ⟨added, here⟩, rfl⟩ := mem_registered.mp mem
  obtain ⟨writes, quiet⟩ := additions_writes monitor a added
  obtain ⟨leaves, silent⟩ := (ExitHandler.effect run).leaves
  rw [here] at writes quiet
  exact ⟨⟨fun x outside => leaves.gpr x fun written => outside (writes written), leaves.rflags⟩,
    fun other => silent (quiet other)⟩

end Frame

section Transparent
variable {host : Host} {hs : VmexitHandlers} {core hostRip : BitVec 64} {p : Processor}
  {v w' : World}
  {handler : Processor → Processor}

theorem gpr_guestReg (q : Processor) {x : Register} (general : x ∉ xmmSlots.map Prod.fst) :
    (guestReg q).gpr x = q.reg x := by
  have half (i : Fin 16) (s) (h : s ∈ [(Register.xmmLow i, XMM_0 + BitVec.ofNat 64 (16 * i)),
      (.xmmHigh i, XMM_0 + BitVec.ofNat 64 (16 * i + 8))]) : s.1 ∈ xmmSlots.map Prod.fst :=
    List.mem_map_of_mem (List.mem_flatMap.mpr ⟨i, List.mem_finRange i, h⟩)
  cases x with
  | xmmLow i => exact absurd (half i _ List.mem_cons_self) general
  | xmmHigh i => exact absurd (half i _ (List.mem_cons_of_mem _ List.mem_cons_self)) general
  | _ => rfl

/-- An exit changes no register of the guest but rax, rbx, rcx and rdx for CPUID, and rax and rdx
for RDMSR. One that emulates no instruction leaves rip too: the guest does not see it. -/
theorem exit_keeps_registers {monitor : Bool} (inst : installed monitor = some hs)
    (call : ExitCall host hs core v w' (called p core hostRip) (handler (called p core hostRip))) :
    ∃ q, alVmxHostEnterAsm handler (p.vmExit core hostRip) = .resumed q ∧
      (∀ x, x ∉ writtenRegisters (basicExitReason v) → q.reg x = p.reg x) ∧ q.rflags = p.rflags ∧
      (basicExitReason v ∉ emulatedReasons → q.rip = p.rip) := by
  obtain ⟨q, run, back⟩ := call.resumes
  have handles := call.handles
  rw [called_holds.regAt_eq] at handles
  obtain ⟨leaves, silent⟩ := exit_leaves inst handles
  rw [← back.reg] at leaves silent
  refine ⟨q, run, fun x outside => ?_, leaves.rflags, fun other => congrArg Reg.rip (silent other)⟩
  by_cases general : x ∈ xmmSlots.map Prod.fst
  · obtain ⟨s, mem, rfl⟩ := List.mem_map.mp general
    exact back.xmm s mem
  · rw [← gpr_guestReg q general, ← gpr_guestReg p general]
    exact leaves.gpr x outside

end Transparent

section Nmi
variable {host : Host} {monitor : Bool} {hs : VmexitHandlers} {w : World}

theorem nmi_resumes (inst : installed monitor = some hs) (isNmi : w.nmiExit) :
    alVmxExitHandler host hs w = some (.ok (nmiQueued w)) := by
  have lone : ∀ m, registered (additions m) VMX_EXIT_REASON_EXCEPTION_OR_NMI =
    [.exceptionNmi] := by decide
  have calls := (installed_represents inst VMX_EXIT_REASON_EXCEPTION_OR_NMI).calls
  rw [lone] at calls
  rw [alVmxExitHandler, isNmi.1, if_neg (by decide), callAll, calls]
  simp only [Handler.callList, inLoop, ExitHandler.call, vmxHandlerExceptionNmi, if_pos isNmi.2]
  rfl

/-- A core right after an exit because of an NMI. -/
def nmiWorld : World :=
  (coldWorld 0).vmwrite .vmexitInterruptionInformation
    (interruptInfo nmi nonMaskableInterrupt false)

theorem nmiWorld_nmiExit : nmiWorld.nmiExit := by
  refine ⟨rfl, ?_⟩
  rw [nmiWorld, World.vmread_vmwrite_self]
  exact ⟨interruptVector_info _ _ _, interruptionType_info _ _ _⟩

/-- The handler of the NMI writes nothing into the area, so the code may leave the processor as it
is. -/
theorem nmiCall (inst : installed monitor = some hs) (core : BitVec 64) (c : Processor) :
    ExitCall coldHost hs core nmiWorld
      (nmiQueued (nmiWorld.setReg (regAt core c.memory))) c (id c) :=
  ⟨nmi_resumes inst nmiWorld_nmiExit, rfl, fun _ _ => rfl, rfl, rfl, rfl⟩

end Nmi

theorem switches_refine_nmi : ∃ hs t, installed true = some hs ∧
    Run (SwitchStep coldHost hs 0x100000 0) ⟨idleProcessor, coldWorld 0⟩ [.nmi] t ∧
    Run (ExitStep coldHost hs) (CoreState.seen ⟨idleProcessor, coldWorld 0⟩) [.nmi] t.seen ∧
      InGuest 0x100000 t.processor := by
  obtain ⟨hs, inst, -⟩ := installed_lists true
  have ran : GuestRan (coldWorld 0) nmiWorld := ⟨rfl, rfl⟩
  have exits : nmiWorld.exits .nmi := nmiWorld_nmiExit
  have step := SwitchStep.mk (s := ⟨idleProcessor, coldWorld 0⟩) rfl ran exits
    (nmiCall inst 0x100000 (called idleProcessor 0x100000 0))
  exact ⟨hs, _, inst, .cons step (.nil _), switches_refine (.cons step (.nil _)) ⟨rfl, by decide⟩⟩

theorem exit_keeps_registers_nmi : ∃ hs q, installed true = some hs ∧
    alVmxHostEnterAsm id (idleProcessor.vmExit 0x100000 0) = .resumed q ∧ q.rip =
      idleProcessor.rip := by
  obtain ⟨hs, inst, -⟩ := installed_lists true
  obtain ⟨q, run, -, -, rip⟩ := exit_keeps_registers inst
    (nmiCall inst 0x100000 (called idleProcessor 0x100000 0))
  exact ⟨hs, q, inst, run, rip (by decide)⟩

end LMalz.Vmx
