import LMalz.Vmx.Dispatch

/- Emulated instructions: an exit for one of them completes it or injects one exception. -/
namespace LMalz.Vmx
open Ept (Outcome flag setFlag poolPages flag_setFlag flag_setFlag_apart)

/-- The exceptions that push an error code. -/
def hasErrorCode (vector : BitVec 8) : Bool := vector ∈ [8, 10, 11, 12, 13, 14, 17, 21].map (BitVec.ofNat 8)

/-- The address of the next instruction; outside of long mode it wraps at 4GB. -/
def nextRip (w : World) : BitVec 64 :=
  let next := w.vcpu.reg.rip + w.vmread .vmexitInstructionLength
  if w.vcpu.reg.rip < 0x100000000 ∧ 0x100000000 ≤ next ∧
      flag (w.vmread .guestCsAccessRights) 13 = false then (next.setWidth 32).setWidth 64
  else next

def singleStepping (w : World) : Bool :=
  flag w.vcpu.reg.rflags 8 && !flag (w.vmread .guestDebugctl) 1

/-- The instruction that led from `w` to the exit has been carried out in `w'`. -/
structure Completed (w w' : World) : Prop where
  rip : w'.vcpu.reg.rip = nextRip w
  noSti : flag (w'.vmread .guestInterruptibilityState) 0 = false
  noMovSs : flag (w'.vmread .guestInterruptibilityState) 1 = false
  singleStep : w'.vmread .guestPendingDebugExceptions =
    if singleStepping w then setFlag (w.vmread .guestPendingDebugExceptions) 14 true
    else w.vmread .guestPendingDebugExceptions
  noEvent : interruptValid (w'.vmread .ctrlVmentryInterruptionInformationField) = false

/-- The VM entry delivers one hardware exception in place of the instruction. -/
structure Faulted (w w' : World) : Prop where
  event : interruptValid (w'.vmread .ctrlVmentryInterruptionInformationField) = true
  exception : interruptionType (w'.vmread .ctrlVmentryInterruptionInformationField) =
    hardwareException
  errorCode : deliverErrorCode (w'.vmread .ctrlVmentryInterruptionInformationField) =
    hasErrorCode (interruptVector (w'.vmread .ctrlVmentryInterruptionInformationField))
  reg : w'.vcpu.reg = w.vcpu.reg

section Fields
variable (vector : BitVec 32) (type : BitVec 3) (deliver : Bool)

@[simp] theorem interruptVector_info :
    interruptVector (interruptInfo vector type deliver) = vector.setWidth 8 := by
  simp (disch := omega) only [interruptVector, interruptInfo, setFlag, BitField.get_set_apart,
    BitField.get_set]

@[simp] theorem interruptionType_info :
    interruptionType (interruptInfo vector type deliver) = type := by
  simp (disch := omega) only [interruptionType, interruptInfo, setFlag, BitField.get_set_apart,
    BitField.get_set]

@[simp] theorem deliverErrorCode_info :
    deliverErrorCode (interruptInfo vector type deliver) = deliver := by
  simp (disch := omega) only [deliverErrorCode, interruptInfo, flag_setFlag_apart,
    Ept.flag_set_apart, flag_setFlag]

@[simp] theorem interruptValid_info :
    interruptValid (interruptInfo vector type deliver) = true := by
  simp (disch := omega) only [interruptValid, interruptInfo, flag_setFlag]

end Fields

/-- The branches of inject_hw_exception that a hooked vector can reach. -/
theorem hooked_cases {v : BitVec 32} (hooked : v ∈ hookedVectors) :
    ((v ≤ 7 ∨ v = 16 ∨ v = 18 ∨ v = 19 ∨ v = 20) ∧ hasErrorCode (v.setWidth 8) = false) ∨
    (¬ (v ≤ 7 ∨ v = 16 ∨ v = 18 ∨ v = 19 ∨ v = 20) ∧ hasErrorCode (v.setWidth 8) = true ∧
      ((v = 8 ∨ v = 17) ∨ ¬ (v = 8 ∨ v = 17) ∧ ¬ (v = 9 ∨ v = 15 ∨ 22 ≤ v))) := by
  simp only [hookedVectors, List.mem_cons, List.not_mem_nil, or_false] at hooked
  rcases hooked with rfl | rfl | rfl | rfl | rfl | rfl | rfl | rfl | rfl | rfl | rfl | rfl | rfl |
    rfl | rfl | rfl | rfl | rfl | rfl | rfl
  all_goals decide

theorem injectHwException_hooked {vector : BitVec 32} (hooked : vector ∈ hookedVectors)
    (error : BitVec 32) (w : World) : ∃ v : World, v.vcpu.reg = w.vcpu.reg ∧
      injectHwException vector error w =
        (true, v.vmwrite .ctrlVmentryInterruptionInformationField
          (interruptInfo vector hardwareException (hasErrorCode (vector.setWidth 8)))) := by
  rcases hooked_cases hooked with ⟨plain, code⟩ | ⟨coded, code, zero | ⟨given, allowed⟩⟩
  · refine ⟨w, rfl, ?_⟩
    simp only [injectHwException, if_pos plain, code]
  · refine ⟨w.vmwrite .ctrlVmentryExceptionErrorCode 0, rfl, ?_⟩
    simp only [injectHwException, if_neg coded, if_pos zero, code]
  · refine ⟨w.vmwrite .ctrlVmentryExceptionErrorCode (error.setWidth 64), rfl, ?_⟩
    simp only [injectHwException, if_neg coded, if_neg given, if_neg allowed, code]

theorem injectHwException_faults {vector : BitVec 32} (hooked : vector ∈ hookedVectors)
    (error : BitVec 32) {w v : World} (reg : v.vcpu.reg = w.vcpu.reg) :
    Faulted w (injectHwException vector error v).2 := by
  obtain ⟨u, same, injected⟩ := injectHwException_hooked hooked error v
  rw [injected]
  refine ⟨?_, ?_, ?_, same.trans reg⟩ <;> simp

theorem low_word (x : BitVec 64) : x &&& 0xFFFFFFFF = (x.setWidth 32).setWidth 64 := by
  apply BitVec.eq_of_toNat_eq
  have mask : (0xFFFFFFFF : BitVec 64).toNat = 2^32 - 1 := by decide
  rw [BitVec.toNat_and, mask, Nat.and_two_pow_sub_one_eq_mod, BitVec.toNat_setWidth,
    BitVec.toNat_setWidth]
  omega

/-- vmx_increment_rip, when the handler has not yet touched rip, rflags or the VMCS. -/
theorem incrementRip_eq {w v : World} (rip : v.vcpu.reg.rip = w.vcpu.reg.rip)
    (rflags : v.vcpu.reg.rflags = w.vcpu.reg.rflags) (vmcs : v.vcpu.vmcs = w.vcpu.vmcs) :
    ∃ u, u.vcpu.reg.rip = nextRip w ∧ u.vcpu.vmcs = Function.update w.vcpu.vmcs
        .guestInterruptibilityState
        (setFlag (setFlag (w.vmread .guestInterruptibilityState) 1 false) 0 false) ∧
      u.vcpu.queuedNmis = v.vcpu.queuedNmis ∧ incrementRip v = if singleStepping w then
        u.vmwrite .guestPendingDebugExceptions
          (setFlag (w.vmread .guestPendingDebugExceptions) 14 true) else u := by
  have read : ∀ f, v.vmread f = w.vmread f := fun f => congrFun vmcs f
  have next : (if v.vcpu.reg.rip < 0x100000000 ∧
        0x100000000 ≤ v.vcpu.reg.rip + v.vmread .vmexitInstructionLength then
      if flag (v.vmread .guestCsAccessRights) 13 = false then
        (v.vcpu.reg.rip + v.vmread .vmexitInstructionLength) &&& 0xFFFFFFFF
      else v.vcpu.reg.rip + v.vmread .vmexitInstructionLength
    else v.vcpu.reg.rip + v.vmread .vmexitInstructionLength) = nextRip w := by
    simp only [rip, read, low_word, nextRip]
    split_ifs <;> first | rfl | tauto
  refine ⟨(v.setReg { v.vcpu.reg with rip := nextRip w }).vmwrite .guestInterruptibilityState
    (setFlag (setFlag (v.vmread .guestInterruptibilityState) 1 false) 0 false), rfl, ?_, rfl, ?_⟩
  · rw [read, ← vmcs]
    rfl
  · have step : singleStepping w = singleStepping v := by
      simp only [singleStepping, rflags, read]
    rw [step]
    simp only [incrementRip, next, World.vmread_setReg, World.reg_setReg, World.reg_vmwrite,
      singleStepping, Bool.and_eq_true, Bool.not_eq_true']
    rw [World.vmread_vmwrite_of_ne _ _ .guestDebugctl _ (by decide),
      World.vmread_vmwrite_of_ne _ _ .guestPendingDebugExceptions _ (by decide),
      World.vmread_setReg, World.vmread_setReg, read .guestPendingDebugExceptions]

theorem incrementRip_completes {w v : World} (rip : v.vcpu.reg.rip = w.vcpu.reg.rip)
    (rflags : v.vcpu.reg.rflags = w.vcpu.reg.rflags) (vmcs : v.vcpu.vmcs = w.vcpu.vmcs)
    (clear : interruptValid (w.vmread .ctrlVmentryInterruptionInformationField) = false) :
    Completed w (incrementRip v) := by
  obtain ⟨u, moved, fields, -, run⟩ := incrementRip_eq rip rflags vmcs
  have blocking : u.vmread .guestInterruptibilityState =
      setFlag (setFlag (w.vmread .guestInterruptibilityState) 1 false) 0 false := by
    rw [World.vmread, fields, Function.update_self]
  have other : ∀ f, f ≠ .guestInterruptibilityState → u.vmread f = w.vmread f := by
    intro f ne
    rw [World.vmread, fields, Function.update_of_ne ne, World.vmread]
  have sti : flag (u.vmread .guestInterruptibilityState) 0 = false := by
    rw [blocking, flag_setFlag _ 0 false (by omega)]
  have movSs : flag (u.vmread .guestInterruptibilityState) 1 = false := by
    rw [blocking, flag_setFlag_apart _ false (by omega), flag_setFlag _ 1 false (by omega)]
  have event := other .ctrlVmentryInterruptionInformationField (by decide)
  rw [run]
  cases step : singleStepping w with
  | false =>
      simp only [Bool.false_eq_true, if_false]
      refine ⟨moved, sti, movSs, ?_, by rw [event, clear]⟩
      rw [step]
      exact other _ (by decide)
  | true =>
      simp only [if_true]
      refine ⟨moved, ?_, ?_, ?_, ?_⟩
      · rw [World.vmread_vmwrite_of_ne _ _ _ _ (by decide)]
        exact sti
      · rw [World.vmread_vmwrite_of_ne _ _ _ _ (by decide)]
        exact movSs
      · rw [step, World.vmread_vmwrite_self, if_pos rfl]
      · rw [World.vmread_vmwrite_of_ne _ _ _ _ (by decide), event, clear]

/-- The handlers of the instructions. -/
def ExitHandler.emulates : ExitHandler → Bool
  | .cpuid | .getsec | .invd | .xsetbv | .msrRead | .msrWrite | .vmon | .vmcall | .vmxInstruction
  | .monitorVmcall => true
  | _ => false

section Handlers
variable {host : Host} {is2 : Bool} {w w' : World}

theorem inject_faults {vector error : BitVec 32} {v : World} (hooked : vector ∈ hookedVectors)
    (run : inject vector error v = .ok (true, w')) (reg : v.vcpu.reg = w.vcpu.reg) :
    Faulted w w' := by
  simp only [inject, Outcome.ok.injEq, Prod.mk.injEq, true_and] at run
  exact run ▸ injectHwException_faults hooked error reg

theorem ExitHandler.completes_or_faults {f : ExitHandler} (emulates : f.emulates = true)
    (clear : interruptValid (w.vmread .ctrlVmentryInterruptionInformationField) = false)
    (run : f.call host is2 w = .ok (true, w')) : Completed w w' ∨ Faulted w w' := by
  cases f with
  | cpuid =>
      left
      simp only [ExitHandler.call, vmxHandlerCpuid] at run
      split at run <;> (cases run; exact incrementRip_completes rfl rfl rfl clear)
  | getsec => exact .inr (inject_faults generalProtection_hooked run rfl)
  | invd => exact .inr (inject_faults generalProtection_hooked run rfl)
  | xsetbv =>
      obtain ⟨info, ⟨vector, hooked, ends⟩ | ends⟩ := vmxHandlerXsetbv_cases host w
      · exact .inr (inject_faults hooked (ends.symm.trans run) rfl)
      · cases ends.symm.trans run
        exact .inl (incrementRip_completes rfl rfl rfl clear)
  | msrRead =>
      cases read : host.rdmsr w.machine.msrs w.vcpu.reg.ecx with
      | error fault =>
          rw [ExitHandler.call, vmxHandlerMsrRead_fault read] at run
          exact .inr (inject_faults fault.hooked run rfl)
      | ok v =>
          rw [ExitHandler.call, vmxHandlerMsrRead_ok read] at run
          cases run
          exact .inl (incrementRip_completes rfl rfl rfl clear)
  | msrWrite =>
      cases written : host.wrmsr w.machine.msrs w.vcpu.reg.ecx (msrValue w) with
      | error fault =>
          rw [ExitHandler.call, vmxHandlerMsrWrite_fault written] at run
          exact .inr (inject_faults fault.hooked run rfl)
      | ok msrs =>
          rw [ExitHandler.call, vmxHandlerMsrWrite_ok written] at run
          split at run
          · cases run
          · cases run
            exact .inl (incrementRip_completes rfl rfl rfl clear)
  | vmon =>
      simp only [ExitHandler.call, vmxHandlerVmon] at run
      split at run
      · exact .inr (inject_faults invalidOpcode_hooked run rfl)
      · exact .inr (inject_faults generalProtection_hooked run rfl)
  | vmcall =>
      simp only [ExitHandler.call, vmxHandlerVmcall] at run
      split at run
      · cases run
      · exact .inr (inject_faults invalidOpcode_hooked run rfl)
  | vmxInstruction => exact .inr (inject_faults invalidOpcode_hooked run rfl)
  | monitorVmcall =>
      simp only [ExitHandler.call, monitorHandlerVmcall] at run
      split_ifs at run
      · cases run
        exact .inl (incrementRip_completes rfl rfl rfl clear)
      · obtain ⟨machine, -, last⟩ := Outcome.of_bind run
        cases last
        exact .inl (incrementRip_completes rfl rfl rfl clear)
      · cases run
  | _ => cases emulates

end Handlers

/-- CPUID, GETSEC, INVD, VMCALL, the other VMX instructions, RDMSR, WRMSR and XSETBV. -/
def emulatedReasons : List Nat :=
  [VMX_EXIT_REASON_EXECUTE_CPUID, VMX_EXIT_REASON_EXECUTE_GETSEC, VMX_EXIT_REASON_EXECUTE_INVD,
    VMX_EXIT_REASON_EXECUTE_VMCALL, VMX_EXIT_REASON_EXECUTE_VMCLEAR,
    VMX_EXIT_REASON_EXECUTE_VMLAUNCH, VMX_EXIT_REASON_EXECUTE_VMPTRLD,
    VMX_EXIT_REASON_EXECUTE_VMPTRST, VMX_EXIT_REASON_EXECUTE_VMREAD,
    VMX_EXIT_REASON_EXECUTE_VMRESUME, VMX_EXIT_REASON_EXECUTE_VMWRITE,
    VMX_EXIT_REASON_EXECUTE_VMXOFF, VMX_EXIT_REASON_EXECUTE_VMXON, VMX_EXIT_REASON_EXECUTE_RDMSR,
    VMX_EXIT_REASON_EXECUTE_WRMSR, VMX_EXIT_REASON_EXECUTE_INVEPT,
    VMX_EXIT_REASON_EXECUTE_INVVPID, VMX_EXIT_REASON_EXECUTE_XSETBV,
    VMX_EXIT_REASON_EXECUTE_VMFUNC]

theorem registered_emulates : ∀ monitor, ∀ reason ∈ emulatedReasons,
    ∀ f ∈ registered (additions monitor) reason, f.emulates = true := by
  decide

/-- An exit for an emulated instruction either completes the instruction or injects one exception,
never both and never neither. An exit leaves the valid bit of the entry event clear. -/
theorem emulation_completes_or_faults {monitor : Bool} {hs : VmexitHandlers}
    (inst : installed monitor = some hs) (host : Host) (w : World)
    (emulated : basicExitReason w ∈ emulatedReasons)
    (clear : interruptValid (w.vmread .ctrlVmentryInterruptionInformationField) = false)
    (sound : w.machine.PoolSound) (enough : poolPages + 2 ≤ host.fuel) :
    alVmxExitHandler host hs w = some .killed ∨
      ∃ w', alVmxExitHandler host hs w = some (.ok w') ∧ Xor (Completed w w') (Faulted w w') := by
  refine (exit_cases inst sound enough).imp_right ?_
  rintro ⟨is2, f, w', takes, run, result⟩
  have emulates := registered_emulates monitor _ emulated f takes.mem
  refine ⟨w', result, ?_⟩
  have apart : ¬ (Completed w w' ∧ Faulted w w') := by
    rintro ⟨completed, faulted⟩
    have both := completed.noEvent.symm.trans faulted.event
    cases both
  rcases f.completes_or_faults emulates clear run with completed | faulted
  · exact .inl ⟨completed, fun faulted => apart ⟨completed, faulted⟩⟩
  · exact .inr ⟨faulted, fun completed => apart ⟨completed, faulted⟩⟩

theorem emulation_completes_or_faults_cpuid : ∃ hs, installed true = some hs ∧
    (alVmxExitHandler coldHost hs (coldWorld 10) = some .killed ∨
      ∃ w', alVmxExitHandler coldHost hs (coldWorld 10) = some (.ok w') ∧
        Xor (Completed (coldWorld 10) w') (Faulted (coldWorld 10) w')) := by
  obtain ⟨hs, inst, -⟩ := installed_lists true
  exact ⟨hs, inst, emulation_completes_or_faults inst coldHost (coldWorld 10) (by decide)
    (by decide) (coldWorld_sound 10) (Nat.le_refl _)⟩

end LMalz.Vmx
