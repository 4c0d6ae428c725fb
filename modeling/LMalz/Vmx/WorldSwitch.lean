import LMalz.Lib.Asm
import LMalz.Vmx.Core

/- vmxasm.asm: from the guest into ALvmxExitHandler, and back into the guest or out of VMX
operation. -/
namespace LMalz.Vmx
open Function (update)
open Asm (Cpu Instr Apart Outside load store saves loads)
open Ept (setFlag)

inductive Register where
  | rax | rcx | rdx | rbx | rsp | rbp | rsi | rdi
  | r8 | r9 | r10 | r11 | r12 | r13 | r14 | r15
  | xmmLow (i : Fin 16)
  | xmmHigh (i : Fin 16)
  deriving DecidableEq

/-- The fields of the VMCS that vmxasm.asm names. -/
def VMCS_GUEST_RSP : BitVec 64 := 0x681C
def VMCS_GUEST_RIP : BitVec 64 := 0x681E
def VMCS_GUEST_RFLAGS : BitVec 64 := 0x6820

def VMX_HOST_STACK_SIZE : BitVec 64 := 0x10000

/-- A logical processor, in the guest or in ALvmxHostEnter_asm. `vmcs` goes by the encodings. -/
structure Processor where
  cpu : Cpu Register
  rip : BitVec 64
  rflags : BitVec 64
  vmcs : BitVec 64 → BitVec 64
  tsc : BitVec 64
  vmxOperation : Bool

namespace Processor

def reg (p : Processor) : Register → BitVec 64 := p.cpu.reg
def memory (p : Processor) : Asm.Memory := p.cpu.memory

/-- An exit saves rsp, rip and rflags of the guest and loads those of the host. -/
def vmExit (p : Processor) (hostRsp hostRip : BitVec 64) : Processor :=
  { p with
    cpu := p.cpu.set .rsp hostRsp
    rip := hostRip
    rflags := 2
    vmcs := update (update (update p.vmcs VMCS_GUEST_RSP (p.reg .rsp)) VMCS_GUEST_RIP p.rip)
      VMCS_GUEST_RFLAGS p.rflags }

def vmEntry (p : Processor) : Processor :=
  { p with
    cpu := p.cpu.set .rsp (p.vmcs VMCS_GUEST_RSP)
    rip := p.vmcs VMCS_GUEST_RIP
    rflags := p.vmcs VMCS_GUEST_RFLAGS }

end Processor

/-- Arithmetic leaves rflags alone here: what it does there is lost or looked at by no branch but
jnz, which looks at the result. -/
inductive HostInstr where
  | plain (i : Instr Register)
  | cli
  | sti
  | mfence
  | rdtsc
  | vmread (r s : Register)
  | vmwrite (r s : Register)
  | vmxoff
  | pushfq
  | popfq
  | ret

def HostInstr.exec (p : Processor) : HostInstr → Processor
  | .plain i => { p with cpu := Asm.exec .rsp p.cpu i }
  | .cli => { p with rflags := setFlag p.rflags 9 false }
  | .sti => { p with rflags := setFlag p.rflags 9 true }
  | .mfence => p
  | .rdtsc => { p with
      cpu := (p.cpu.set .rax (p.tsc &&& 0xFFFFFFFF)).set .rdx (p.tsc >>> 32) }
  | .vmread r s => { p with cpu := p.cpu.set r (p.vmcs (p.reg s)) }
  | .vmwrite r s => { p with vmcs := update p.vmcs (p.reg r) (p.reg s) }
  | .vmxoff => { p with vmxOperation := false }
  | .pushfq => { p with cpu := p.cpu.pushed .rsp p.rflags }
  | .popfq =>
      { p with rflags := load p.memory (p.reg .rsp), cpu := p.cpu.set .rsp (p.reg .rsp + 8) }
  | .ret => { p with rip := load p.memory (p.reg .rsp), cpu := p.cpu.set .rsp (p.reg .rsp + 8) }

def execs (is : List HostInstr) (p : Processor) : Processor := is.foldl HostInstr.exec p

/-- The offsets of vmx.inc. -/
def gprSlots : List (Register × BitVec 64) :=
  [(.rax, 0x00), (.rbx, 0x18), (.rcx, 0x08), (.rdx, 0x10), (.rsi, 0x30), (.rdi, 0x38), (.rbp, 0x28),
    (.r8, 0x40), (.r9, 0x48), (.r10, 0x50), (.r11, 0x58), (.r12, 0x60), (.r13, 0x68),
      (.r14, 0x70), (.r15, 0x78)]

def RSP_0 : BitVec 64 := 0x20
def RIP_0 : BitVec 64 := 0x80
def RFLAGS_0 : BitVec 64 := 0x88
def XMM_0 : BitVec 64 := 0x90
def IS_ROOT : BitVec 64 := 0x200

/-- movaps moves both halves. -/
def xmmSlots : List (Register × BitVec 64) := (List.finRange 16).flatMap fun i =>
  [(.xmmLow i, XMM_0 + BitVec.ofNat 64 (16 * i)),
    (.xmmHigh i, XMM_0 + BitVec.ofNat 64 (16 * i + 8))]

def regSlots : List (Register × BitVec 64) := gprSlots ++ xmmSlots

/-- `vmread rax, rax` with the encoding in rax, and into the core. -/
def saveGuestField (field offset : BitVec 64) : List HostInstr :=
  [.plain (.movImm .rax field), .vmread .rax .rax, .plain (.store .rsp offset .rax)]

def loadGuestField (base : Register) (field offset : BitVec 64) : List HostInstr :=
  [.plain (.movImm .rcx field), .plain (.load .rdx base offset), .vmwrite .rcx .rdx]

def readTsc : List HostInstr :=
  [.mfence, .rdtsc, .plain (.shl .rdx 32), .plain (.or .rdx .rax)]

/-- ALvmxHostEnter_asm up to the call. -/
def saveGuest : List HostInstr :=
  [.cli, .plain (.storeImm .rsp IS_ROOT 1)] ++ (saves .rsp regSlots).map .plain ++
    saveGuestField VMCS_GUEST_RSP RSP_0 ++ saveGuestField VMCS_GUEST_RIP RIP_0 ++
      saveGuestField VMCS_GUEST_RFLAGS RFLAGS_0

def toHostStack : List HostInstr :=
  [.plain (.mov .rcx .rsp), .plain (.add .rsp VMX_HOST_STACK_SIZE),
    .plain (.sub .rsp 0x10)] ++ readTsc ++
    [.plain (.mov .r15 .rdx), .plain (.sub .rsp 0x100)]

/-- From behind the call to the branch. The write of the TSC offset is commented out. -/
def toCore : List HostInstr :=
  [.plain (.add .rsp 0x100)] ++ readTsc ++ [.plain (.subReg .rdx .r15),
    .plain (.movImm .rcx 0x2010),
    .plain (.add .rsp 0x10), .plain (.sub .rsp VMX_HOST_STACK_SIZE)]

def loadGuest : List HostInstr :=
  loadGuestField .rsp VMCS_GUEST_RSP RSP_0 ++ loadGuestField .rsp VMCS_GUEST_RIP RIP_0 ++
    loadGuestField .rsp VMCS_GUEST_RFLAGS RFLAGS_0 ++ (loads .rsp regSlots).map .plain ++
      [.plain (.subMem .rsp IS_ROOT 1)]

def leaveCore : List HostInstr :=
  [.plain (.add .rsp VMX_HOST_STACK_SIZE), .plain (.sub .rsp 0x10)]

def pushGuestField (field : BitVec 64) : List HostInstr :=
  [.plain (.movImm .rax field), .vmread .rax .rax, .plain (.push .rax)]

/-- rax, rip, rsp and rflags of the guest on the stack of the host. -/
def pushGuest : List HostInstr :=
  [.plain (.subMem .rsp IS_ROOT 1)] ++ leaveCore ++ [.plain (.push .rax)] ++
    pushGuestField VMCS_GUEST_RIP ++ pushGuestField VMCS_GUEST_RSP ++ pushGuestField
      VMCS_GUEST_RFLAGS

def popGuest : List HostInstr :=
  [.vmxoff, .popfq, .plain (.mov .rax .rsp), .plain (.pop .rsp), .plain (.pushMem .rax 8),
    .plain (.load .rax .rax 0x10), .sti, .ret]

def exitVm : List HostInstr := pushGuest ++ popGuest

/-- How ALvmxHostEnter_asm ends. -/
inductive Switched where
  | resumed (p : Processor)
  | left (p : Processor)

def Switched.processor : Switched → Processor
  | .resumed p => p
  | .left p => p

/-- ALvmxHostEnter_asm around the compiled ALvmxExitHandler. `call` pushes an address that `ret`
takes away again, so `handler` starts and ends with the same rsp. -/
def alVmxHostEnterAsm (handler : Processor → Processor) (p : Processor) : Switched :=
  let p := handler (execs toHostStack (execs saveGuest p))
  let p := execs loadGuest (execs toCore p)
  if load p.memory (p.reg .rsp + IS_ROOT) = 0 then .resumed (execs leaveCore p).vmEntry
  else .left (execs exitVm p)

theorem execs_append (is js : List HostInstr) (p : Processor) : execs (is ++ js) p =
    execs js (execs is p) :=
  List.foldl_append

theorem execs_plain (is : List (Instr Register)) (p : Processor) :
    execs (is.map .plain) p = { p with cpu := Asm.run .rsp is p.cpu } := by
  induction is generalizing p with
  | nil => rfl
  | cons i is ih => exact ih _

section Slots

/-- The words of the area that no slot of a register is. -/
def fieldOffsets : List (BitVec 64) := [RSP_0, RIP_0, RFLAGS_0, IS_ROOT]

theorem offsets_apart : (fieldOffsets ++ regSlots.map Prod.snd).Pairwise Apart := by decide +kernel

theorem regSlots_apart : regSlots.Pairwise fun s t => Apart s.2 t.2 :=
  List.pairwise_map.mp (List.pairwise_append.mp offsets_apart).2.1

theorem field_apart_slot {o : BitVec 64} (field : o ∈ fieldOffsets) {s : Register × BitVec 64}
    (mem : s ∈ regSlots) : Apart o s.2 :=
  (List.pairwise_append.mp offsets_apart).2.2 o field s.2 (List.mem_map_of_mem mem)

theorem regSlots_nodup : (regSlots.map Prod.fst).Nodup := by decide +kernel

theorem rsp_notMem_regSlots : Register.rsp ∉ regSlots.map Prod.fst := by decide +kernel

theorem ne_rsp_of_mem {s : Register × BitVec 64} (mem : s ∈ regSlots) : s.1 ≠ .rsp := by
  intro same
  exact rsp_notMem_regSlots (same ▸ List.mem_map_of_mem mem)

end Slots

/-- The area of a core holds the registers of a guest. -/
structure Holds (core : BitVec 64) (m : Asm.Memory) (p : Processor) : Prop where
  slots : ∀ s ∈ regSlots, load m (core + s.2) = p.reg s.1
  rsp : load m (core + RSP_0) = p.reg .rsp
  rip : load m (core + RIP_0) = p.rip
  rflags : load m (core + RFLAGS_0) = p.rflags

section Enter
variable {p : Processor} {core hostRip field offset : BitVec 64}

theorem saveGuestField_memory : (execs (saveGuestField field offset) p).memory =
    store p.memory (p.reg .rsp + offset) (p.vmcs field) := rfl

theorem saveGuestField_rsp : (execs (saveGuestField field offset) p).reg .rsp = p.reg .rsp := rfl

theorem saveGuestField_vmcs : (execs (saveGuestField field offset) p).vmcs = p.vmcs := rfl

theorem saveGuestField_vmxOperation : (execs (saveGuestField field offset) p).vmxOperation =
    p.vmxOperation := rfl

theorem vmExit_vmcs (p : Processor) (core hostRip : BitVec 64) :
    (p.vmExit core hostRip).vmcs VMCS_GUEST_RSP = p.reg .rsp ∧
      (p.vmExit core hostRip).vmcs VMCS_GUEST_RIP = p.rip ∧
        (p.vmExit core hostRip).vmcs VMCS_GUEST_RFLAGS = p.rflags := ⟨rfl, rfl, rfl⟩

/-- The registers of the guest when the saving begins: rsp is the core. -/
def entered (p : Processor) (core : BitVec 64) : Cpu Register :=
  (p.cpu.set .rsp core).write (core + IS_ROOT) 1

theorem entered_reg {r : Register} (ne : r ≠ .rsp) : (entered p core).reg r = p.reg r :=
  Cpu.reg_set_of_ne _ _ _ _ ne

theorem saveGuest_memory : (execs saveGuest (p.vmExit core hostRip)).memory =
    store (store (store (Asm.run .rsp (saves .rsp regSlots) (entered p core)).memory (core + RSP_0)
      (p.reg .rsp))
      (core + RIP_0) p.rip) (core + RFLAGS_0) p.rflags := by
  obtain ⟨q, hq⟩ : ∃ q, q = execs ((saves .rsp regSlots).map .plain)
      (execs [.cli, .plain (.storeImm .rsp IS_ROOT 1)] (p.vmExit core hostRip)) := ⟨_, rfl⟩
  rw [execs_plain] at hq
  have rsp : q.reg .rsp = core := by
    rw [hq]
    exact congrFun Asm.reg_saves Register.rsp
  have vmcs : q.vmcs = (p.vmExit core hostRip).vmcs := by rw [hq]; rfl
  have memory : q.memory = (Asm.run .rsp (saves .rsp regSlots) (entered p core)).memory :=
    by rw [hq]; rfl
  obtain ⟨fieldRsp, fieldRip, fieldRflags⟩ := vmExit_vmcs p core hostRip
  rw [saveGuest, execs_append, execs_append, execs_append, execs_append, execs_plain, ← hq]
  simp only [saveGuestField_memory, saveGuestField_vmcs, saveGuestField_rsp, rsp, vmcs, memory,
    fieldRsp, fieldRip,
    fieldRflags]

theorem saveGuest_rsp : (execs saveGuest (p.vmExit core hostRip)).reg .rsp = core := by
  rw [saveGuest, execs_append, execs_append, execs_append, execs_append, execs_plain]
  simp only [saveGuestField_rsp]
  exact congrFun Asm.reg_saves Register.rsp

theorem saveGuest_vmxOperation : (execs saveGuest p).vmxOperation = p.vmxOperation := by
  rw [saveGuest, execs_append, execs_append, execs_append, execs_append, execs_plain]
  simp only [saveGuestField_vmxOperation]
  rfl

/-- When ALvmxExitHandler is called, the area holds the registers of the guest, and isRoot is 1. -/
theorem holds_saveGuest : Holds core (execs saveGuest (p.vmExit core hostRip)).memory p ∧
    load (execs saveGuest (p.vmExit core hostRip)).memory (core + IS_ROOT) = 1 := by
  have apart {a b : BitVec 64} (h : Apart a b) (m : Asm.Memory) (v : BitVec 64) :
      load (store m (core + a) v) (core + b) = load m (core + b) :=
        Asm.load_store_apart (h.add core)
  rw [saveGuest_memory]
  refine ⟨⟨fun s mem => ?_, ?_, ?_, Asm.load_store_self⟩, ?_⟩
  · have saved : load (Asm.run .rsp (saves .rsp regSlots) (entered p core)).memory (core + s.2) =
        (entered p core).reg s.1 := Asm.load_saves regSlots_apart mem
    rw [apart (field_apart_slot (by decide) mem), apart (field_apart_slot (by decide) mem),
      apart (field_apart_slot (by decide) mem)]
    exact saved.trans (entered_reg (ne_rsp_of_mem mem))
  · rw [apart (by decide), apart (by decide), Asm.load_store_self]
  · rw [apart (by decide), Asm.load_store_self]
  · rw [apart (by decide), apart (by decide), apart (by decide)]
    refine (Asm.load_saves_apart fun s mem => ?_).trans Asm.load_store_self
    exact ((field_apart_slot (by decide) mem).add core).symm

end Enter

section Leave
variable {p t : Processor} {core hostRip : BitVec 64}

/-- The processor at the call of ALvmxExitHandler. -/
def called (p : Processor) (core hostRip : BitVec 64) : Processor :=
  execs toHostStack (execs saveGuest (p.vmExit core hostRip))

/-- The stack of the host is above the area; 0x110 bytes are left free. -/
def hostStack (core : BitVec 64) : BitVec 64 := core + VMX_HOST_STACK_SIZE - 0x10 - 0x100

theorem called_memory : (called p core hostRip).memory =
    (execs saveGuest (p.vmExit core hostRip)).memory := by
  have moved (q : Processor) : (execs toHostStack q).memory = q.memory := rfl
  exact moved _

theorem called_rsp : (called p core hostRip).reg .rsp = hostStack core := by
  have moved (q : Processor) : (execs toHostStack q).reg .rsp = hostStack (q.reg .rsp) := rfl
  rw [called, moved, saveGuest_rsp]

theorem called_vmxOperation : (called p core hostRip).vmxOperation = p.vmxOperation := by
  have moved (q : Processor) : (execs toHostStack q).vmxOperation = q.vmxOperation := rfl
  rw [called, moved, saveGuest_vmxOperation]
  rfl

theorem toCore_rsp (stack : t.reg .rsp = hostStack core) : (execs toCore t).reg .rsp = core := by
  have moved : (execs toCore t).reg .rsp = t.reg .rsp + 0x100 + 0x10 - VMX_HOST_STACK_SIZE := rfl
  rw [moved, stack, hostStack, BitVec.sub_add_cancel, BitVec.sub_add_cancel, BitVec.add_sub_cancel]

theorem toCore_memory : (execs toCore t).memory = t.memory := rfl

theorem toCore_vmxOperation : (execs toCore t).vmxOperation = t.vmxOperation := rfl

theorem resume_memory : (execs leaveCore t).vmEntry.memory = t.memory := rfl

theorem resume_vmxOperation : (execs leaveCore t).vmEntry.vmxOperation = t.vmxOperation := rfl

/-- The guest half of ALvmxHostEnter_asm, from the area on. -/
structure Loaded (core : BitVec 64) (t r : Processor) : Prop where
  slots : ∀ s ∈ regSlots, r.reg s.1 = load t.memory (core + s.2)
  base : r.reg .rsp = core
  rsp : r.vmcs VMCS_GUEST_RSP = load t.memory (core + RSP_0)
  rip : r.vmcs VMCS_GUEST_RIP = load t.memory (core + RIP_0)
  rflags : r.vmcs VMCS_GUEST_RFLAGS = load t.memory (core + RFLAGS_0)
  memory : r.memory = store t.memory (core + IS_ROOT) (load t.memory (core + IS_ROOT) - 1)
  vmxOperation : r.vmxOperation = t.vmxOperation

theorem loadGuest_loaded (base : t.reg .rsp = core) : Loaded core t (execs loadGuest t) := by
  obtain ⟨u, hu⟩ : ∃ u, u = execs (loadGuestField .rsp VMCS_GUEST_RSP RSP_0 ++
      loadGuestField .rsp VMCS_GUEST_RIP RIP_0 ++ loadGuestField .rsp VMCS_GUEST_RFLAGS
        RFLAGS_0) t := ⟨_, rfl⟩
  obtain ⟨c, hc⟩ : ∃ c, c = Asm.run .rsp (loads .rsp regSlots) u.cpu := ⟨_, rfl⟩
  have runs : execs loadGuest t = { u with cpu := Asm.exec .rsp c (.subMem .rsp IS_ROOT 1) } := by
    rw [loadGuest, execs_append, execs_append, execs_plain, ← hu, ← hc]
    rfl
  have memory : u.memory = t.memory := by rw [hu]; rfl
  have rsp : u.reg .rsp = core := by
    rw [hu]
    exact base
  have kept : c.memory = t.memory := by rw [hc, Asm.memory_loads]; exact memory
  have same : c.reg .rsp = core := by
    rw [hc, Asm.reg_loads_other rsp_notMem_regSlots]
    exact rsp
  have fields : u.vmcs VMCS_GUEST_RSP = load t.memory (t.reg .rsp + RSP_0) ∧
      u.vmcs VMCS_GUEST_RIP = load t.memory (t.reg .rsp + RIP_0) ∧
        u.vmcs VMCS_GUEST_RFLAGS = load t.memory (t.reg .rsp + RFLAGS_0) := by
    rw [hu]
    exact ⟨rfl, rfl, rfl⟩
  rw [base] at fields
  rw [runs]
  refine ⟨fun s mem => ?_, same, fields.1, fields.2.1, fields.2.2, ?_, by rw [hu]; rfl⟩
  · have loaded : c.reg s.1 = load u.cpu.memory (u.cpu.reg .rsp + s.2) := by
      rw [hc]
      exact Asm.reg_loads regSlots_nodup rsp_notMem_regSlots mem
    refine loaded.trans ?_
    change load u.memory (u.reg .rsp + s.2) = _
    rw [memory, rsp]
  · change store c.memory (c.reg .rsp + IS_ROOT) (load c.memory (c.reg .rsp + IS_ROOT) - 1) = _
    rw [kept, same]

/-- What vmresume gives the guest is what ALvmxExitHandler left in the area. -/
theorem Loaded.holds {r : Processor} (h : Loaded core t r) :
    Holds core t.memory (execs leaveCore r).vmEntry := by
  have kept {s : Register} (ne : s ≠ .rsp) : (execs leaveCore r).vmEntry.reg s = r.reg s := by
    refine (Cpu.reg_set_of_ne _ _ _ _ ne).trans ?_
    exact (Cpu.reg_set_of_ne _ _ _ _ ne).trans (Cpu.reg_set_of_ne _ _ _ _ ne)
  refine ⟨fun s mem => ?_, h.rsp.symm, h.rip.symm, h.rflags.symm⟩
  rw [kept (ne_rsp_of_mem mem), h.slots s mem]

end Leave

section ExitVm
variable (r : Processor) {s : Register}

def stackedAt : BitVec 64 := r.reg .rsp + VMX_HOST_STACK_SIZE - 0x10 - 8 - 8 - 8 - 8

/-- The four words of the guest on the stack of the host, from `stackedAt` on. -/
def stacked : Asm.Memory :=
  let top := r.reg .rsp + VMX_HOST_STACK_SIZE - 0x10
  let m := store r.memory (r.reg .rsp + IS_ROOT) (load r.memory (r.reg .rsp + IS_ROOT) - 1)
  store (store (store (store m (top - 8) (r.reg .rax)) (top - 8 - 8) (r.vmcs VMCS_GUEST_RIP))
    (top - 8 - 8 - 8) (r.vmcs VMCS_GUEST_RSP)) (top - 8 - 8 - 8 - 8) (r.vmcs VMCS_GUEST_RFLAGS)

theorem pushGuest_memory : (execs pushGuest r).memory = stacked r := rfl

theorem pushGuest_rsp : (execs pushGuest r).reg .rsp = stackedAt r := rfl

theorem pushGuest_reg (ne : s ≠ .rsp) (ne' : s ≠ .rax) : (execs pushGuest r).reg s = r.reg s := by
  have rsp (c : Cpu Register) (v : BitVec 64) : (c.set .rsp v).reg s = c.reg s :=
    Cpu.reg_set_of_ne _ _ _ _ ne
  have rax (c : Cpu Register) (v : BitVec 64) : (c.set .rax v).reg s = c.reg s :=
    Cpu.reg_set_of_ne _ _ _ _ ne'
  simp only [pushGuest, leaveCore, pushGuestField, execs, List.cons_append, List.nil_append,
    List.foldl_cons,
    List.foldl_nil, HostInstr.exec, Asm.exec, Processor.reg, Cpu.pushed, Cpu.reg_write, rsp, rax]

/-- The rsp of the guest, and the memory after the push on its stack. -/
def poppedRsp : BitVec 64 := load r.memory (r.reg .rsp + 8)

def poppedMemory : Asm.Memory := store r.memory (poppedRsp r - 8)
    (load r.memory (r.reg .rsp + 8 + 8))

theorem popGuest_memory : (execs popGuest r).memory = poppedMemory r := rfl

theorem popGuest_rsp : (execs popGuest r).reg .rsp = poppedRsp r - 8 + 8 := rfl

theorem popGuest_rax : (execs popGuest r).reg .rax = load (poppedMemory r)
    (r.reg .rsp + 8 + 0x10) := rfl

theorem popGuest_rip : (execs popGuest r).rip = load (poppedMemory r) (poppedRsp r - 8) := rfl

theorem popGuest_rflags : (execs popGuest r).rflags =
    setFlag (load r.memory (r.reg .rsp)) 9 true := rfl

theorem popGuest_vmxOperation : (execs popGuest r).vmxOperation = false := rfl

theorem popGuest_reg (ne : s ≠ .rsp) (ne' : s ≠ .rax) : (execs popGuest r).reg s = r.reg s := by
  have rsp (c : Cpu Register) (v : BitVec 64) : (c.set .rsp v).reg s = c.reg s :=
    Cpu.reg_set_of_ne _ _ _ _ ne
  have rax (c : Cpu Register) (v : BitVec 64) : (c.set .rax v).reg s = c.reg s :=
    Cpu.reg_set_of_ne _ _ _ _ ne'
  simp only [popGuest, execs, List.foldl_cons, List.foldl_nil, HostInstr.exec, Asm.exec,
    Processor.reg,
    Cpu.pushed, Cpu.popped, Cpu.reg_write, rsp, rax]

end ExitVm

/-- What the compiled ALvmxExitHandler does to the stack pointer, and leaves in isRoot. -/
structure Returns (core isRoot : BitVec 64) (t : Processor) : Prop where
  stack : t.reg .rsp = hostStack core
  isRoot : load t.memory (core + IS_ROOT) = isRoot

section HostEnter
variable {p : Processor} {core hostRip isRoot : BitVec 64} {handler : Processor → Processor}

/-- With isRoot left at 1 the core goes back into the guest, and isRoot is 0 there. -/
theorem alVmxHostEnterAsm_resumes (returns : Returns core 1 (handler (called p core hostRip))) :
    ∃ q, alVmxHostEnterAsm handler (p.vmExit core hostRip) = .resumed q ∧
      Holds core (handler (called p core hostRip)).memory q ∧
      q.memory = store (handler (called p core hostRip)).memory (core + IS_ROOT) 0 ∧
      q.vmxOperation = (handler (called p core hostRip)).vmxOperation := by
  obtain ⟨t, ht⟩ : ∃ t, t = handler (called p core hostRip) := ⟨_, rfl⟩
  rw [← ht] at returns ⊢
  have loaded := loadGuest_loaded (t := execs toCore t) (toCore_rsp returns.stack)
  have memory := loaded.memory
  rw [toCore_memory, returns.isRoot] at memory
  have zero : load (execs loadGuest (execs toCore t)).memory
      ((execs loadGuest (execs toCore t)).reg .rsp + IS_ROOT) = 0 := by
    rw [loaded.base, memory, Asm.load_store_self]
    rfl
  refine ⟨(execs leaveCore (execs loadGuest (execs toCore t))).vmEntry, ?_, loaded.holds,
    resume_memory.trans memory,
      resume_vmxOperation.trans (loaded.vmxOperation.trans toCore_vmxOperation)⟩
  rw [called] at ht
  rw [alVmxHostEnterAsm, ← ht, if_pos zero]

/-- The processor goes on as the guest of the area, with interrupts on and outside of VMX operation.
-/
structure LeftVmx (core isRoot : BitVec 64) (m : Asm.Memory) (q : Processor) : Prop where
  slots : ∀ s ∈ regSlots, q.reg s.1 = load m (core + s.2)
  rsp : q.reg .rsp = load m (core + RSP_0)
  rip : q.rip = load m (core + RIP_0)
  rflags : q.rflags = setFlag (load m (core + RFLAGS_0)) 9 true
  isRoot : load q.memory (core + IS_ROOT) = isRoot - 2
  vmxOperation : q.vmxOperation = false

theorem Loaded.left {t r : Processor} (h : Loaded core t r)
    (outside : Outside core VMX_HOST_STACK_SIZE (load t.memory (core + RSP_0) - 8)) :
    LeftVmx core (load t.memory (core + IS_ROOT)) t.memory (execs exitVm r) := by
  obtain ⟨u, hu⟩ : ∃ u, u = execs pushGuest r := ⟨_, rfl⟩
  have runs : execs exitVm r = execs popGuest u := by rw [exitVm, execs_append, hu]
  have at1 : core + VMX_HOST_STACK_SIZE - 0x10 - 8 = core + 0xFFE8 :=
    by rw [VMX_HOST_STACK_SIZE]; bv_omega
  have at2 : core + 0xFFE8 - 8 = core + 0xFFE0 := by bv_omega
  have at3 : core + 0xFFE0 - 8 = core + 0xFFD8 := by bv_omega
  have at4 : core + 0xFFD8 - 8 = core + 0xFFD0 := by bv_omega
  have base : u.reg .rsp = core + 0xFFD0 := by
    rw [hu, pushGuest_rsp, stackedAt, h.base, at1, at2, at3, at4]
  have next1 : core + 0xFFD0 + 8 = core + 0xFFD8 := by bv_omega
  have next2 : core + 0xFFD8 + 8 = core + 0xFFE0 := by bv_omega
  have next3 : core + 0xFFD8 + 0x10 = core + 0xFFE8 := by bv_omega
  have memory : u.memory = store (store (store (store (store r.memory (core + IS_ROOT)
      (load r.memory (core + IS_ROOT) - 1)) (core + 0xFFE8) (r.reg .rax)) (core + 0xFFE0)
        (r.vmcs VMCS_GUEST_RIP))
        (core + 0xFFD8) (r.vmcs VMCS_GUEST_RSP)) (core + 0xFFD0) (r.vmcs VMCS_GUEST_RFLAGS) := by
    rw [hu, pushGuest_memory, stacked, h.base, at1, at2, at3, at4]
  have apart {a b : BitVec 64} (h : Apart a b) (m : Asm.Memory) (v : BitVec 64) :
      load (store m (core + a) v) (core + b) = load m (core + b) :=
        Asm.load_store_apart (h.add core)
  have rsp : poppedRsp u = load t.memory (core + RSP_0) := by
    rw [poppedRsp, base, next1, memory, apart (by decide), Asm.load_store_self, h.rsp]
  have rip : load u.memory (u.reg .rsp + 8 + 8) = load t.memory (core + RIP_0) := by
    rw [base, next1, next2, memory, apart (by decide), apart (by decide),
      Asm.load_store_self, h.rip]
  have popped : poppedMemory u =
      store u.memory (load t.memory (core + RSP_0) - 8) (load t.memory (core + RIP_0)) := by
    rw [poppedMemory, rsp, rip]
  rw [runs]
  refine ⟨fun s mem => ?_, ?_, ?_, ?_, ?_, popGuest_vmxOperation u⟩
  · rw [← h.slots s mem]
    by_cases rax : s.1 = .rax
    · rw [rax, popGuest_rax, popped, base, next1, next3,
        Asm.load_store_apart (outside.apart (by decide) (by decide)), memory,
        apart (by decide), apart (by decide), apart (by decide), Asm.load_store_self]
    · rw [popGuest_reg u (ne_rsp_of_mem mem) rax, hu, pushGuest_reg r (ne_rsp_of_mem mem) rax]
  · rw [popGuest_rsp, rsp, BitVec.sub_add_cancel]
  · rw [popGuest_rip, popped, rsp, Asm.load_store_self]
  · rw [popGuest_rflags, base, memory, Asm.load_store_self, h.rflags]
  · rw [popGuest_memory, popped, Asm.load_store_apart (outside.apart (by decide) (by decide)),
      memory, apart (by decide),
      apart (by decide), apart (by decide), apart (by decide), Asm.load_store_self, h.memory,
        Asm.load_store_self]
    bv_omega

/-- With isRoot raised the core leaves VMX operation. -/
theorem alVmxHostEnterAsm_leaves (returns : Returns core isRoot (handler (called p core hostRip)))
    (raised : isRoot ≠ 1)
    (outside : Outside core VMX_HOST_STACK_SIZE
    (load (handler (called p core hostRip)).memory (core + RSP_0) - 8)) :
    ∃ q, alVmxHostEnterAsm handler (p.vmExit core hostRip) = .left q ∧
      LeftVmx core isRoot (handler (called p core hostRip)).memory q := by
  obtain ⟨t, ht⟩ : ∃ t, t = handler (called p core hostRip) := ⟨_, rfl⟩
  rw [← ht] at returns outside ⊢
  have loaded := loadGuest_loaded (t := execs toCore t) (toCore_rsp returns.stack)
  have positive : load (execs loadGuest (execs toCore t)).memory
      ((execs loadGuest (execs toCore t)).reg .rsp + IS_ROOT) ≠ 0 := by
    rw [loaded.base, loaded.memory, Asm.load_store_self, toCore_memory, returns.isRoot]
    intro zero
    exact raised (by bv_omega)
  have left := loaded.left (by rw [toCore_memory]; exact outside)
  rw [toCore_memory, returns.isRoot] at left
  refine ⟨execs exitVm (execs loadGuest (execs toCore t)), ?_, left⟩
  rw [called] at ht
  rw [alVmxHostEnterAsm, ← ht, if_neg positive]

end HostEnter

/-- A guest whose stack ends at 0x5000. -/
def idleProcessor : Processor where
  cpu := ⟨fun r => if r = .rsp then 0x5000 else 0, fun _ => 0⟩
  rip := 0x1000
  rflags := 2
  vmcs _ := 0
  tsc := 0
  vmxOperation := true

/-- A handler that raises isRoot to 2. -/
def raiseIsRoot (core : BitVec 64) (c : Processor) : Processor :=
    { c with cpu := c.cpu.write (core + IS_ROOT) 2 }

theorem raiseIsRoot_reg (core : BitVec 64) (c : Processor) : (raiseIsRoot core c).reg = c.reg := rfl

theorem raiseIsRoot_memory (core : BitVec 64) (c : Processor) :
    (raiseIsRoot core c).memory = store c.memory (core + IS_ROOT) 2 := rfl

end LMalz.Vmx
