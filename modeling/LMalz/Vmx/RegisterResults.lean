import LMalz.Vmx.ExitHandlers

/- The general registers after an emulated CPUID, RDMSR or WRMSR. -/
namespace LMalz.Vmx

/-- EDX:EAX of RDMSR and WRMSR. -/
structure EdxEax where
  edx : BitVec 32
  eax : BitVec 32
  deriving DecidableEq

/-- ALhvIDTrdmsr_asm behind its RDMSR, which clears the high halves of RDX and RAX. -/
def alHvIdtRdmsrAsm (r : EdxEax) : BitVec 64 :=
  let rax := r.eax.setWidth 64
  let rdx := r.edx.setWidth 64 <<< 32
  rax ||| rdx

/-- What ALhvIDTwrmsr_asm passes to its WRMSR. -/
def alHvIdtWrmsrAsm (v : BitVec 64) : EdxEax := ⟨(v >>> 32).setWidth 32, v.setWidth 32⟩

/-- The two instructions as the processor has them. -/
structure MsrInstructions where
  rdmsr : Mtrr.Msrs → BitVec 32 → Except Fault EdxEax
  wrmsr : Mtrr.Msrs → BitVec 32 → EdxEax → Except Fault Mtrr.Msrs

/-- The host that reaches the instructions through its assembly. -/
def Host.throughAsm (host : Host) (hw : MsrInstructions) : Host :=
  { host with
    rdmsr := fun msrs msr => (hw.rdmsr msrs msr).map alHvIdtRdmsrAsm
    wrmsr := fun msrs msr v => hw.wrmsr msrs msr (alHvIdtWrmsrAsm v) }

/-- A plain MSR takes every value and is read as it was written. -/
structure MsrInstructions.Plain (hw : MsrInstructions) (msr : BitVec 32) : Prop where
  takes : ∀ msrs v, ∃ msrs', hw.wrmsr msrs msr v = .ok msrs'
  holds : ∀ {msrs v msrs'}, hw.wrmsr msrs msr v = .ok msrs' → hw.rdmsr msrs' msr = .ok v

def Reg.edx (r : Reg) : BitVec 32 := r.rdx.setWidth 32

/-- The handler has left the results of CPUID in the registers, zero-extended, and nothing else but
a new rip. -/
def CpuidArchitectural (host : Host) (w : World) : Prop :=
  let regs := host.cpuid w.vcpu.reg.eax w.vcpu.reg.ecx
  ∃ w', vmxHandlerCpuid host w = .ok (true, w') ∧
    w'.vcpu.reg = { w.vcpu.reg with
      rax := regs.eax.setWidth 64
      rbx := regs.ebx.setWidth 64
      rcx := regs.ecx.setWidth 64
      rdx := regs.edx.setWidth 64
      rip := w'.vcpu.reg.rip }

/-- The handler has left EDX:EAX of the instruction in the registers, zero-extended, and nothing
else but a new rip. -/
def RdmsrArchitectural (host : Host) (w : World) (r : EdxEax) : Prop :=
  ∃ w', vmxHandlerMsrRead host w = .ok (true, w') ∧
    w'.vcpu.reg = { w.vcpu.reg with
      rax := r.eax.setWidth 64
      rdx := r.edx.setWidth 64
      rip := w'.vcpu.reg.rip }

section Results
variable {host : Host} {hw : MsrInstructions} {w : World}

theorem reg_incrementRip (w : World) :
    (incrementRip w).vcpu.reg = { w.vcpu.reg with rip := (incrementRip w).vcpu.reg.rip } := by
  unfold incrementRip
  dsimp only
  split_ifs <;> rfl

theorem signExtend_eq_setWidth_iff (x : BitVec 32) :
    x.signExtend 64 = x.setWidth 64 ↔ x.msb = false := by
  constructor
  · intro same
    have top := congrArg BitVec.msb same
    have zero : (x.setWidth 64).msb = false := by
      simp [BitVec.msb_eq_getLsbD_last]
    rw [zero] at top
    simpa [BitVec.msb_signExtend] using top
  · exact BitVec.signExtend_eq_setWidth_of_msb_false

theorem vmxHandlerCpuid_ok (other : w.vcpu.reg.rax ≠ HV_IO_KEY) :
    vmxHandlerCpuid host w =
      let regs := host.cpuid w.vcpu.reg.eax w.vcpu.reg.ecx
      .ok (true, incrementRip (w.setReg { w.vcpu.reg with
        rax := regs.eax.signExtend 64
        rbx := regs.ebx.signExtend 64
        rcx := regs.ecx.signExtend 64
        rdx := regs.edx.signExtend 64 })) := by
  simp only [vmxHandlerCpuid, if_neg other]

theorem cpuidArchitectural_iff (other : w.vcpu.reg.rax ≠ HV_IO_KEY) :
    CpuidArchitectural host w ↔
      let regs := host.cpuid w.vcpu.reg.eax w.vcpu.reg.ecx
      regs.eax.msb = false ∧ regs.ebx.msb = false ∧ regs.ecx.msb = false ∧ regs.edx.msb = false := by
  simp only [CpuidArchitectural, vmxHandlerCpuid_ok other, ← signExtend_eq_setWidth_iff]
  constructor
  · rintro ⟨w', run, regs⟩
    obtain rfl := (Prod.mk.inj (Ept.Outcome.ok.inj run)).2
    rw [reg_incrementRip] at regs
    simp only [World.reg_setReg, Reg.mk.injEq] at regs
    tauto
  · rintro ⟨ha, hb, hc, hd⟩
    refine ⟨_, rfl, ?_⟩
    rw [reg_incrementRip, World.reg_setReg, ha, hb, hc, hd]

theorem toNat_alHvIdtRdmsrAsm (r : EdxEax) :
    (alHvIdtRdmsrAsm r).toNat = r.edx.toNat * 2 ^ 32 + r.eax.toNat := by
  have shifted : r.edx.toNat * 2 ^ 32 < 2 ^ 64 := by
    have small := r.edx.isLt
    omega
  have high : (r.edx.setWidth 64 <<< 32).toNat = r.edx.toNat <<< 32 := by
    rw [BitVec.toNat_shiftLeft, BitVec.toNat_setWidth_of_le (by decide), Nat.shiftLeft_eq,
      Nat.mod_eq_of_lt shifted]
  rw [alHvIdtRdmsrAsm, BitVec.toNat_or, high, BitVec.toNat_setWidth_of_le (by decide), Nat.or_comm,
    ← Nat.shiftLeft_add_eq_or_of_lt r.eax.isLt, Nat.shiftLeft_eq]

theorem alHvIdtRdmsrAsm_halves (r : EdxEax) :
    alHvIdtRdmsrAsm r &&& 0xFFFFFFFF = r.eax.setWidth 64 ∧
      alHvIdtRdmsrAsm r >>> 32 = r.edx.setWidth 64 := by
  have eax := r.eax.isLt
  constructor
  · apply BitVec.eq_of_toNat_eq
    rw [BitField.toNat_and_low (show _ = 2 ^ 32 - 1 from rfl), toNat_alHvIdtRdmsrAsm,
      BitVec.toNat_setWidth_of_le (by decide)]
    omega
  · apply BitVec.eq_of_toNat_eq
    rw [BitVec.toNat_ushiftRight, toNat_alHvIdtRdmsrAsm, Nat.shiftRight_eq_div_pow,
      BitVec.toNat_setWidth_of_le (by decide)]
    omega

theorem rdmsrArchitectural_of_ok {r : EdxEax}
    (run : hw.rdmsr w.machine.msrs w.vcpu.reg.ecx = .ok r) :
    RdmsrArchitectural (host.throughAsm hw) w r := by
  have read : (host.throughAsm hw).rdmsr w.machine.msrs w.vcpu.reg.ecx = .ok (alHvIdtRdmsrAsm r) := by
    simp only [Host.throughAsm, run, Except.map]
  obtain ⟨low, high⟩ := alHvIdtRdmsrAsm_halves r
  refine ⟨_, vmxHandlerMsrRead_ok read, ?_⟩
  rw [reg_incrementRip, low, high]
  rfl

/-- The handler passes EDX:EAX of the guest to the instruction. -/
theorem alHvIdtWrmsrAsm_msrValue (w : World) :
    alHvIdtWrmsrAsm (msrValue w) = ⟨w.vcpu.reg.edx, w.vcpu.reg.eax⟩ := by
  have high : (msrValue w >>> 32).setWidth 32 = w.vcpu.reg.edx := by
    ext i hi
    have above : ¬ 32 + i < 32 := by omega
    have inside : 32 + i < 64 := by omega
    simp only [msrValue, Reg.edx, Reg.eax, BitVec.getElem_setWidth, BitVec.getLsbD_ushiftRight,
      BitVec.getLsbD_or, BitVec.getLsbD_shiftLeft, BitVec.getLsbD_setWidth, above, inside]
    simp
  have low : (msrValue w).setWidth 32 = w.vcpu.reg.eax := by
    ext i hi
    simp [msrValue, Reg.eax]
  rw [alHvIdtWrmsrAsm, high, low]

/-- The WRMSR handler returns to the guest unless it meets an MTRR with caching on. -/
theorem vmxHandlerMsrWrite_plain (plain : hw.Plain w.vcpu.reg.ecx)
    (returns : isMtrr w.vcpu.reg.ecx = false ∨ cacheDisable (readEffectiveGuestCr0 w) = true) :
    ∃ w', vmxHandlerMsrWrite (host.throughAsm hw) w = .ok (true, w') ∧
      w'.vcpu.reg = { w.vcpu.reg with rip := w'.vcpu.reg.rip } ∧
      hw.rdmsr w'.machine.msrs w.vcpu.reg.ecx = .ok ⟨w.vcpu.reg.edx, w.vcpu.reg.eax⟩ := by
  obtain ⟨msrs, written⟩ := plain.takes w.machine.msrs ⟨w.vcpu.reg.edx, w.vcpu.reg.eax⟩
  have run : (host.throughAsm hw).wrmsr w.machine.msrs w.vcpu.reg.ecx (msrValue w) = .ok msrs := by
    simp only [Host.throughAsm, alHvIdtWrmsrAsm_msrValue, written]
  have alive : ¬ (isMtrr w.vcpu.reg.ecx = true ∧ cacheDisable (readEffectiveGuestCr0 w) = false) := by
    rintro ⟨mtrr, caching⟩
    rcases returns with other | disabled
    · exact absurd mtrr (by simp [other])
    · exact absurd caching (by simp [disabled])
  refine ⟨_, (vmxHandlerMsrWrite_ok run).trans (if_neg alive), ?_, ?_⟩
  · rw [reg_incrementRip]
    rfl
  · rw [machine_incrementRip]
    exact plain.holds written

/-- CPUID is architectural exactly when no result has its top bit set; RDMSR, and a WRMSR that
RDMSR follows, always are. -/
theorem registerResults_architectural (host : Host) (hw : MsrInstructions) (w : World) :
    (w.vcpu.reg.rax ≠ HV_IO_KEY →
      let regs := host.cpuid w.vcpu.reg.eax w.vcpu.reg.ecx
      (CpuidArchitectural host w ↔
        regs.eax.msb = false ∧ regs.ebx.msb = false ∧ regs.ecx.msb = false ∧
          regs.edx.msb = false)) ∧
    (∀ r, hw.rdmsr w.machine.msrs w.vcpu.reg.ecx = .ok r →
      RdmsrArchitectural (host.throughAsm hw) w r) ∧
    (hw.Plain w.vcpu.reg.ecx →
      isMtrr w.vcpu.reg.ecx = false ∨ cacheDisable (readEffectiveGuestCr0 w) = true →
      ∃ w', vmxHandlerMsrWrite (host.throughAsm hw) w = .ok (true, w') ∧
        w'.vcpu.reg = { w.vcpu.reg with rip := w'.vcpu.reg.rip } ∧
        ∀ reg : Reg, reg.ecx = w.vcpu.reg.ecx →
          RdmsrArchitectural (host.throughAsm hw) (w'.setReg reg) ⟨w.vcpu.reg.edx, w.vcpu.reg.eax⟩) := by
  refine ⟨fun other => cpuidArchitectural_iff other, fun r run => rdmsrArchitectural_of_ok run,
    fun plain returns => ?_⟩
  obtain ⟨w', run, regs, read⟩ := vmxHandlerMsrWrite_plain plain returns
  refine ⟨w', run, regs, fun reg same => rdmsrArchitectural_of_ok ?_⟩
  rw [World.machine_setReg, World.reg_setReg, same]
  exact read

/-- MSRs that hold the two halves. -/
def storing : MsrInstructions where
  rdmsr msrs msr := .ok (alHvIdtWrmsrAsm (msrs msr))
  wrmsr msrs msr v := .ok (Function.update msrs msr (alHvIdtRdmsrAsm v))

theorem storing_plain (msr : BitVec 32) : storing.Plain msr where
  takes _ _ := ⟨_, rfl⟩
  holds {msrs v msrs'} written := by
    obtain rfl := Except.ok.inj written
    obtain ⟨low, high⟩ := alHvIdtRdmsrAsm_halves v
    have eax : (alHvIdtRdmsrAsm v).setWidth 32 = v.eax := by
      apply BitVec.eq_of_toNat_eq
      have small := v.eax.isLt
      rw [BitVec.toNat_setWidth, toNat_alHvIdtRdmsrAsm]
      omega
    simp only [storing, Function.update_self, alHvIdtWrmsrAsm, high, eax,
      BitVec.setWidth_setWidth_of_le _ (show 32 ≤ 64 by decide), BitVec.setWidth_eq]

theorem registerResults_architectural_storing :
    let reg := { (coldWorld 32).vcpu.reg with rax := 0xFFFFFFFF, rdx := 0x80000000, rcx := 0xC0000082 }
    CpuidArchitectural coldHost (coldWorld 10) ∧
    ∃ w', vmxHandlerMsrWrite (coldHost.throughAsm storing) ((coldWorld 32).setReg reg) =
        .ok (true, w') ∧
      RdmsrArchitectural (coldHost.throughAsm storing) (w'.setReg reg) ⟨0x80000000, 0xFFFFFFFF⟩ := by
  intro reg
  have cpuid := (registerResults_architectural coldHost storing (coldWorld 10)).1 (by decide)
  refine ⟨cpuid.mpr (by decide), ?_⟩
  have round := (registerResults_architectural coldHost storing ((coldWorld 32).setReg reg)).2.2
  obtain ⟨w', run, -, back⟩ := round (storing_plain _) (.inl (by decide))
  exact ⟨w', run, back reg rfl⟩

/-- Leaf 0x80000000 gives the last extended leaf, 0x80000008, in EAX. -/
def extendedHost : Host := { coldHost with cpuid := fun _ _ => ⟨0x80000008, 0, 0, 0⟩ }

theorem cpuid_signExtended :
    let w := (coldWorld 10).setReg { (coldWorld 10).vcpu.reg with rax := 0x80000000 }
    w.vcpu.reg.rax ≠ HV_IO_KEY ∧ ¬ CpuidArchitectural extendedHost w := by
  intro w
  have other : w.vcpu.reg.rax ≠ HV_IO_KEY := by decide
  refine ⟨other, fun right => ?_⟩
  have top := ((cpuidArchitectural_iff other).mp right).1
  exact absurd top (by decide)

end Results
end LMalz.Vmx
