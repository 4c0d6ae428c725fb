import LMalz.Send.Send
import Mathlib.Data.Fin.Basic

/- mtf_handler of monitor_handlers.cpp: the packet that an instruction of the guest gives rise to. -/
namespace LMalz.Send

abbrev Register := BitVec 32

namespace Register

def ES : Register := 198
def CS : Register := 199
def SS : Register := 200
def DS : Register := 201
def FS : Register := 202
def GS : Register := 203
def CR0 : Register := 216
def CR15 : Register := 231
def DR0 : Register := 232
def DR15 : Register := 247

end Register

inductive OperandType where
  | unused | reg | mem | ptr | imm
  deriving DecidableEq

/-- ZydisDecodedOperand: its type, and of its union the words where reg.value and mem.segment are. -/
structure Operand where
  type : OperandType
  value : BitVec 32
  segment : BitVec 32

/-- The mnemonics that mtf_handler tells apart. -/
inductive Mnemonic where
  | MOV
  | SIDT | SGDT | SLDT | STR | RDPMC | RDTSC | RDTSCP
  | STI | CLI | LIDT | LGDT | LLDT | LTR
  | RDMSR
  | WRMSR
  | SFENCE | LFENCE | MFENCE
  | JMP | CALL | RET
  | SYSENTER | SYSEXIT | SYSCALL | SYSRET
  | UD2 | INT1 | INT3 | INTO
  | INVD | WBINVD
  | INVLPG
  | INT
  | INVEPT | INVVPID | VMCLEAR | VMLAUNCH | VMPTRLD | VMPTRST | VMREAD | VMRESUME | VMWRITE | VMXOFF
  | VMFUNC
  | IN
  | OUT
  | CPUID
  | other
  deriving DecidableEq

/-- ZydisDisassembledInstruction. A MOV has its two explicit operands. -/
structure Decoded where
  mnemonic : Mnemonic
  operandCount : BitVec 8
  operands : Fin 10 → Operand
  length : BitVec 8
  far : Bool
  movOperands : mnemonic = .MOV → 2 ≤ operandCount

namespace Decoded
variable (a : Decoded) (n : Fin 10)

def getOperandType : OperandType := (a.operands (n - 1)).type
def getOperandReg : Register := (a.operands n).value
def getOperandMem : Register := (a.operands n).segment

end Decoded

def MH_ERROR_READ_GUEST_MEM : BitVec 64 := 0xC00005

def isSpecialReg (reg : Register) : Bool :=
  if Register.CR0 ≤ reg ∧ reg ≤ Register.CR15 then true
  else if Register.DR0 ≤ reg ∧ reg ≤ Register.DR15 then true
  else if reg = Register.FS ∨ reg = Register.GS ∨ reg = Register.ES ∨ reg = Register.DS ∨
      reg = Register.CS ∨ reg = Register.SS then true
  else false

/-- The comparisons with FS and GS. -/
def isFsGs (segment : Register) : Bool := segment = Register.FS ∨ segment = Register.GS

section Handler
variable (tid : BitVec 32) (rip : BitVec 64) (ins : List (BitVec 8))

/-- The case of MOV. -/
def mtfMov (a : Decoded) : List Call :=
  if 2 ≤ a.operandCount then
    if a.getOperandType 1 = .reg ∧ a.getOperandType 2 = .reg then
      if isSpecialReg (a.getOperandReg 1) then [sdSendInsMovToReg tid rip ins 0 0]
      else if isSpecialReg (a.getOperandReg 2) then [sdSendInsSaveReg tid rip ins 0]
      else []
    else if a.getOperandType 1 = .reg ∧ a.getOperandType 2 = .mem then
      if isFsGs (a.getOperandMem 2) then [sdSendInsRFsGs tid rip ins 0 0 0] else []
    else if a.getOperandType 1 = .mem ∧ a.getOperandType 2 = .reg then
      if isFsGs (a.getOperandMem 1) then [sdSendInsWFsGs tid rip ins 0 0 0 0] else []
    else []
  else []

/-- The switch on the mnemonic. The six bytes of a far branch are not initialised. -/
def mtfSwitch (a : Decoded) (v : BitVec 48) : List Call :=
  match a.mnemonic with
  | .MOV => mtfMov tid rip ins a
  | .SIDT | .SGDT | .SLDT | .STR | .RDPMC | .RDTSC | .RDTSCP => [sdSendInsSaveReg tid rip ins 0]
  | .STI | .CLI | .LIDT | .LGDT | .LLDT | .LTR => [sdSendInsMovToReg tid rip ins 0 0]
  | .RDMSR => [sdSendInsRdmsr tid rip ins 0 0]
  | .WRMSR => [sdSendInsWrmsr tid rip ins 0 0 0]
  | .SFENCE | .LFENCE | .MFENCE => [sdSendInsFence tid rip ins]
  | .JMP | .CALL | .RET => if a.far then [sdSendInsFar tid rip ins v] else []
  | .SYSENTER | .SYSEXIT | .SYSCALL | .SYSRET => [sdSendInsSys tid rip ins]
  | .UD2 | .INT1 | .INT3 | .INTO => [sdSendInsUd2Int13o tid rip ins]
  | .INVD | .WBINVD => [sdSendInsInvd tid rip ins]
  | .INVLPG => [sdSendInsInvlpg tid rip ins 0]
  | .INT => [sdSendInsInt tid rip ins 0]
  | .INVEPT | .INVVPID | .VMCLEAR | .VMLAUNCH | .VMPTRLD | .VMPTRST | .VMREAD | .VMRESUME
  | .VMWRITE | .VMXOFF | .VMFUNC => [sdSendInsVmx tid rip ins]
  | .IN => [sdSendInsInOut tid rip ins true]
  | .OUT => [sdSendInsInOut tid rip ins false]
  | .CPUID => [sdSendInsCpuid tid rip ins 0 0]
  | .other => []

/-- mtf_handler; `guestCode` is what ALhvMMreadGuestMemroy reads of the 16 bytes at rip, and `decode`
is ZydisDisassembleIntel. -/
def mtfHandler (decode : BitVec 64 → List (BitVec 8) → Decoded) (v : BitVec 48) :
    Option (List (BitVec 8)) → List Call
  | none => [sdSendError tid rip MH_ERROR_READ_GUEST_MEM]
  | some code =>
      let a := decode rip code
      mtfSwitch tid rip (code.take a.length.toNat) a v

end Handler

/-- A packet of the type was sent. -/
def Emits (calls : List Call) (t : InsType) : Prop :=
  ∃ c ∈ calls, ∃ data ins, c.message = .ins data ins ∧ data.type = t

/-- What is sent for an instruction is what its own operands make it: operand 0 is the destination
and operand 1 the source. -/
structure Classifies (a : Decoded) (calls : List Call) : Prop where
  one : calls.length ≤ 1
  regReg : a.mnemonic = .MOV → (a.operands 0).type = .reg → (a.operands 1).type = .reg →
    (Emits calls .movToReg ↔ isSpecialReg (a.operands 0).value = true) ∧
      (Emits calls .saveReg ↔
        isSpecialReg (a.operands 0).value = false ∧ isSpecialReg (a.operands 1).value = true)
  memToReg : a.mnemonic = .MOV → (a.operands 0).type = .reg → (a.operands 1).type = .mem →
    (Emits calls .rFsGs ↔ isFsGs (a.operands 1).segment = true)
  regToMem : a.mnemonic = .MOV → (a.operands 0).type = .mem → (a.operands 1).type = .reg →
    (Emits calls .wFsGs ↔ isFsGs (a.operands 0).segment = true)
  inPort : a.mnemonic = .IN → ∃ c ins, calls = [c] ∧ c.message = .ins (.inOut false) ins
  outPort : a.mnemonic = .OUT → ∃ c ins, calls = [c] ∧ c.message = .ins (.inOut true) ins

/-- The values of operands 1 and 2, which the accessors give, happen to be as special as those of
operands 0 and 1. -/
structure OperandsAgree (a : Decoded) : Prop where
  noIn : a.mnemonic ≠ .IN
  noOut : a.mnemonic ≠ .OUT
  regReg : a.mnemonic = .MOV → (a.operands 0).type = .reg → (a.operands 1).type = .reg →
    isSpecialReg (a.operands 0).value = isSpecialReg (a.operands 1).value ∧
      (isSpecialReg (a.operands 1).value = false → isSpecialReg (a.operands 2).value = false)
  memToReg : a.mnemonic = .MOV → (a.operands 0).type = .reg → (a.operands 1).type = .mem →
    isFsGs (a.operands 1).segment = isFsGs (a.operands 2).segment
  regToMem : a.mnemonic = .MOV → (a.operands 0).type = .mem → (a.operands 1).type = .reg →
    isFsGs (a.operands 0).segment = isFsGs (a.operands 1).segment

section Emitted
variable {tid : BitVec 32} {rip : BitVec 64} {ins : List (BitVec 8)} {a : Decoded} {v : BitVec 48}
  {t : InsType}

@[simp] theorem emits_nil : ¬ Emits [] t := by
  rintro ⟨c, mem, -⟩
  exact absurd mem List.not_mem_nil

@[simp] theorem emits_single (data : InsData) :
    Emits [sdSendIns tid rip ins data] t ↔ data.type = t := by
  constructor
  · rintro ⟨c, mem, data', ins', message, type⟩
    obtain rfl := List.mem_singleton.mp mem
    obtain ⟨rfl, -⟩ := Message.ins.inj message
    exact type
  · intro type
    exact ⟨_, List.mem_singleton_self _, data, ins, rfl, type⟩

theorem mtfMov_length : (mtfMov tid rip ins a).length ≤ 1 := by
  unfold mtfMov
  split_ifs <;> simp

theorem mtfSwitch_length : (mtfSwitch tid rip ins a v).length ≤ 1 := by
  have far : (if a.far then [sdSendInsFar tid rip ins v] else []).length ≤ 1 := by
    split_ifs <;> simp
  unfold mtfSwitch
  split <;> first | exact mtfMov_length | exact far | exact Nat.le_refl 1 | exact Nat.zero_le 1

theorem mtfSwitch_mov (mov : a.mnemonic = .MOV) :
    mtfSwitch tid rip ins a v = mtfMov tid rip ins a := by
  rw [mtfSwitch, mov]

/-- Of two registers the second and the third operand decide. -/
theorem mtfMov_regReg (mov : a.mnemonic = .MOV) (destination : (a.operands 0).type = .reg)
    (source : (a.operands 1).type = .reg) :
    (Emits (mtfMov tid rip ins a) .movToReg ↔ isSpecialReg (a.operands 1).value = true) ∧
      (Emits (mtfMov tid rip ins a) .saveReg ↔
        isSpecialReg (a.operands 1).value = false ∧ isSpecialReg (a.operands 2).value = true) := by
  have types : a.getOperandType 1 = .reg ∧ a.getOperandType 2 = .reg := ⟨destination, source⟩
  rw [mtfMov, if_pos (a.movOperands mov), if_pos types, Decoded.getOperandReg, Decoded.getOperandReg]
  cases second : isSpecialReg (a.operands 1).value <;>
    cases third : isSpecialReg (a.operands 2).value <;>
    simp [sdSendInsMovToReg, sdSendInsSaveReg, InsData.type]

theorem mtfMov_memToReg (mov : a.mnemonic = .MOV) (destination : (a.operands 0).type = .reg)
    (source : (a.operands 1).type = .mem) :
    Emits (mtfMov tid rip ins a) .rFsGs ↔ isFsGs (a.operands 2).segment = true := by
  have types : a.getOperandType 1 = .reg ∧ a.getOperandType 2 = .mem := ⟨destination, source⟩
  have other : ¬ (a.getOperandType 1 = .reg ∧ a.getOperandType 2 = .reg) := by
    rintro ⟨-, reg⟩
    exact OperandType.noConfusion (reg.symm.trans types.2)
  rw [mtfMov, if_pos (a.movOperands mov), if_neg other, if_pos types, Decoded.getOperandMem]
  cases isFsGs (a.operands 2).segment <;> simp [sdSendInsRFsGs, InsData.type]

theorem mtfMov_regToMem (mov : a.mnemonic = .MOV) (destination : (a.operands 0).type = .mem)
    (source : (a.operands 1).type = .reg) :
    Emits (mtfMov tid rip ins a) .wFsGs ↔ isFsGs (a.operands 1).segment = true := by
  have types : a.getOperandType 1 = .mem ∧ a.getOperandType 2 = .reg := ⟨destination, source⟩
  have other : ∀ type, ¬ (a.getOperandType 1 = .reg ∧ a.getOperandType 2 = type) := by
    rintro type ⟨reg, -⟩
    exact OperandType.noConfusion (reg.symm.trans types.1)
  rw [mtfMov, if_pos (a.movOperands mov), if_neg (other _), if_neg (other _), if_pos types,
    Decoded.getOperandMem]
  cases isFsGs (a.operands 1).segment <;> simp [sdSendInsWFsGs, InsData.type]

theorem mtfSwitch_in (here : a.mnemonic = .IN) :
    mtfSwitch tid rip ins a v = [sdSendInsInOut tid rip ins true] := by
  rw [mtfSwitch, here]

theorem mtfSwitch_out (here : a.mnemonic = .OUT) :
    mtfSwitch tid rip ins a v = [sdSendInsInOut tid rip ins false] := by
  rw [mtfSwitch, here]

/-- The direction bit is the wrong way round. -/
theorem inOut_wrong {i0o1 : Bool} :
    ¬ ∃ c ins', [sdSendInsInOut tid rip ins i0o1] = [c] ∧ c.message = .ins (.inOut !i0o1) ins' := by
  rintro ⟨c, ins', single, message⟩
  obtain rfl := List.singleton_inj.mp single
  obtain ⟨data, -⟩ := Message.ins.inj message
  cases i0o1 <;> cases InsData.inOut.inj data

/-- An instruction whose bytes can be read is classified by its own operands exactly when it is
neither IN nor OUT and, for a MOV, the operands the accessors take agree with it. -/
theorem mtfHandler_classifies_iff (tid : BitVec 32) (rip : BitVec 64)
    (decode : BitVec 64 → List (BitVec 8) → Decoded) (v : BitVec 48) (code : List (BitVec 8)) :
    Classifies (decode rip code) (mtfHandler tid rip decode v (some code)) ↔
      OperandsAgree (decode rip code) := by
  simp only [mtfHandler]
  generalize decode rip code = a
  generalize code.take a.length.toNat = ins
  constructor
  · intro right
    refine ⟨fun here => ?_, fun here => ?_, fun mov destination source => ?_,
      fun mov destination source => ?_, fun mov destination source => ?_⟩
    · have port := right.inPort here
      rw [mtfSwitch_in here] at port
      exact inOut_wrong port
    · have port := right.outPort here
      rw [mtfSwitch_out here] at port
      exact inOut_wrong port
    · obtain ⟨toReg, save⟩ := right.regReg mov destination source
      obtain ⟨toReg', save'⟩ := mtfMov_regReg mov destination source
      rw [mtfSwitch_mov mov] at toReg save
      rw [toReg'] at toReg
      rw [save'] at save
      refine ⟨Bool.eq_iff_iff.mpr toReg.symm, fun second => ?_⟩
      by_contra third
      have both := save.mp ⟨second, by simpa using third⟩
      rw [second] at both
      exact Bool.false_ne_true both.2
    · have load := right.memToReg mov destination source
      rw [mtfSwitch_mov mov, mtfMov_memToReg mov destination source] at load
      exact Bool.eq_iff_iff.mpr load.symm
    · have store := right.regToMem mov destination source
      rw [mtfSwitch_mov mov, mtfMov_regToMem mov destination source] at store
      exact Bool.eq_iff_iff.mpr store.symm
  · intro agree
    refine ⟨mtfSwitch_length, fun mov destination source => ?_, fun mov destination source => ?_,
      fun mov destination source => ?_, fun here => absurd here agree.noIn,
      fun here => absurd here agree.noOut⟩
    · obtain ⟨same, plain⟩ := agree.regReg mov destination source
      rw [mtfSwitch_mov mov, (mtfMov_regReg mov destination source).1,
        (mtfMov_regReg mov destination source).2, same]
      refine ⟨Iff.rfl, fun save => ?_, fun both => ?_⟩
      · exact absurd (plain save.1) (by simp [save.2])
      · exact absurd (both.1.symm.trans both.2) Bool.false_ne_true
    · rw [mtfSwitch_mov mov, mtfMov_memToReg mov destination source,
        agree.memToReg mov destination source]
    · rw [mtfSwitch_mov mov, mtfMov_regToMem mov destination source,
        agree.regToMem mov destination source]

/-- An operand that is a register. -/
def registerOperand (value : Register) : Operand := ⟨.reg, value, 0⟩

/-- An entry of the array that is not used. -/
def unusedOperand : Operand := ⟨.unused, 0, 0⟩

/-- `mov rax, cr0`. -/
def movRaxCr0 : Decoded where
  mnemonic := .MOV
  operandCount := 2
  operands n := if n = 0 then registerOperand 53 else if n = 1 then registerOperand Register.CR0
    else unusedOperand
  length := 3
  far := false
  movOperands _ := by decide

/-- Saving CR0 is reported as writing to it. -/
theorem mtfHandler_movRaxCr0 :
    mtfHandler 0 0 (fun _ _ => movRaxCr0) 0 (some [0x0F, 0x20, 0xC0]) =
      [sdSendInsMovToReg 0 0 [0x0F, 0x20, 0xC0] 0 0] ∧
    ¬ Classifies movRaxCr0 (mtfHandler 0 0 (fun _ _ => movRaxCr0) 0 (some [0x0F, 0x20, 0xC0])) := by
  have sent : mtfHandler 0 0 (fun _ _ => movRaxCr0) 0 (some [0x0F, 0x20, 0xC0]) =
      [sdSendInsMovToReg 0 0 [0x0F, 0x20, 0xC0] 0 0] := rfl
  refine ⟨sent, fun right => ?_⟩
  have save := (right.regReg rfl rfl rfl).2.mpr (by decide)
  rw [sent, sdSendInsMovToReg, emits_single] at save
  cases save

end Emitted
end LMalz.Send
