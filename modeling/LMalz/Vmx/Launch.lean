import LMalz.Vmx.GuestSwitch
import LMalz.Vmx.Segments

/- ALhvGetContext_asm returns 0 to ALvmxCoreStart, and the guest of ALvmxGuestEnter_asm starts there
with 1. -/
namespace LMalz.Vmx
open Function (update update_of_ne)
open Asm (Apart Outside load store storeAll saves loads)

inductive ControlRegister where
  | cr0 | cr2 | cr3 | cr4 | cr8
  | dr0 | dr1 | dr2 | dr3 | dr7
  deriving DecidableEq

/-- A processor with the other registers that ALhvGetContext_asm reads. -/
structure Caller where
  processor : Processor
  segment : SegmentContext
  control : ControlRegister → BitVec 64

inductive ContextInstr where
  | host (i : HostInstr)
  | movControl (r : Register) (x : ControlRegister)
  | selectors (b : Register) (o : BitVec 64)

/-- The eight selectors in the order of ORVM_CONTEXT_t, in two words. -/
def SegmentContext.words (s : SegmentContext) (o : BitVec 64) : List (BitVec 64 × BitVec 64) :=
  [(o, s.fs ++ s.es ++ s.ds ++ s.cs), (o + 8, s.tr ++ s.ldtr ++ s.ss ++ s.gs)]

namespace Caller

def reg (c : Caller) : Register → BitVec 64 := c.processor.reg
def memory (c : Caller) : Asm.Memory := c.processor.memory

def withCpu (c : Caller) (cpu : Asm.Cpu Register) : Caller :=
    { c with processor := { c.processor with cpu := cpu } }

def exec (c : Caller) : ContextInstr → Caller
  | .host i => { c with processor := i.exec c.processor }
  | .movControl r x => c.withCpu (c.processor.cpu.set r (c.control x))
  | .selectors b o => c.withCpu ⟨c.reg, storeAll c.memory (c.reg b) (c.segment.words o)⟩

def execs (is : List ContextInstr) (c : Caller) : Caller := is.foldl exec c

theorem execs_append (is js : List ContextInstr) (c : Caller) : execs (is ++ js) c =
    execs js (execs is c) :=
  List.foldl_append

theorem execs_saves (b : Register) (l : List (Register × BitVec 64)) (c : Caller) :
    execs ((saves b l).map (.host ∘ .plain)) c =
      c.withCpu (Asm.run .rsp (saves b l) c.processor.cpu) := by
  rw [execs, List.foldl_map]
  induction saves b l generalizing c with
  | nil => rfl
  | cons i is ih => exact ih _

end Caller

/-- The offsets of HVM_CONTEXT_t. -/
def contextFirst : List (Register × BitVec 64) :=
  [(.rax, 0x00), (.rbx, 0x08), (.rcx, 0x10), (.rdx, 0x18), (.rdi, 0x28), (.rsi, 0x20), (.rbp, 0x30)]

def contextLast : List (Register × BitVec 64) :=
  [(.r8, 0x50), (.r9, 0x58), (.r10, 0x60), (.r11, 0x68), (.r12, 0x70), (.r13, 0x78),
    (.r14, 0x80), (.r15, 0x88)]

def contextControl : List (ControlRegister × BitVec 64) :=
  [(.cr0, 0xA0), (.cr2, 0xB0), (.cr3, 0xB8), (.cr4, 0xC0), (.cr8, 0xC8),
    (.dr0, 0xD0), (.dr1, 0xD8), (.dr2, 0xE0), (.dr3, 0xE8), (.dr7, 0x108)]

def contextXmm : List (Register × BitVec 64) := (List.finRange 16).flatMap fun i =>
  [(.xmmLow i, 0x110 + BitVec.ofNat 64 (16 * i)),
    (.xmmHigh i, 0x110 + BitVec.ofNat 64 (16 * i + 8))]

def CONTEXT_RSP : BitVec 64 := 0x38
def CONTEXT_RIP : BitVec 64 := 0x40
def CONTEXT_RFLAGS : BitVec 64 := 0x48
def CONTEXT_CS : BitVec 64 := 0x90
def CONTEXT_GS : BitVec 64 := 0x98
def CONTEXT_SIZE : BitVec 64 := 0x210

/-- rflags goes over the stack. -/
def storeRflags : List ContextInstr := [.host .pushfq, .host (.plain (.popMem .rcx CONTEXT_RFLAGS))]

/-- The rsp behind the return. -/
def storeRsp : List ContextInstr :=
  [.host (.plain (.store .rcx CONTEXT_RSP .rsp)), .host (.plain (.addMem .rcx CONTEXT_RSP 8))]

def storeRip : List ContextInstr :=
  [.host (.plain (.load .rax .rsp 0)), .host (.plain (.store .rcx CONTEXT_RIP .rax))]

def storeRegs (l : List (Register × BitVec 64)) : List ContextInstr :=
    (saves .rcx l).map (.host ∘ .plain)

def storeControl (s : ControlRegister × BitVec 64) : List ContextInstr :=
  [.movControl .rax s.1, .host (.plain (.store .rcx s.2 .rax))]

def alHvGetContextAsm : List ContextInstr :=
  storeRflags ++ storeRegs contextFirst ++ storeRsp ++ storeRip ++ storeRegs contextLast ++
    [.selectors .rcx CONTEXT_CS, .host (.plain (.movImm .rax 0))] ++ contextControl.flatMap
      storeControl ++
      storeRegs contextXmm ++ [.host (.plain (.movImm .rax 0)), .host .ret]

section Capture
variable {ctx : BitVec 64} {c d e : Caller} {l l' : List (Asm.Address × BitVec 64)}

/-- Words of the context are stored; of the registers, rax is used. -/
structure Stored (ctx : BitVec 64) (l : List (Asm.Address × BitVec 64)) (c d : Caller) : Prop where
  memory : d.memory = storeAll c.memory ctx l
  reg : ∀ r ≠ .rax, d.reg r = c.reg r
  segment : d.segment = c.segment
  control : d.control = c.control

theorem Stored.trans (h : Stored ctx l c d) (h' : Stored ctx l' d e) :
    Stored ctx (l ++ l') c e where
  memory := by rw [h'.memory, h.memory, Asm.storeAll_append]
  reg r ne := (h'.reg r ne).trans (h.reg r ne)
  segment := h'.segment.trans h.segment
  control := h'.control.trans h.control

/-- The words that the saving of registers stores. -/
def Caller.words (c : Caller) (l : List (Register × BitVec 64)) : List (Asm.Address × BitVec 64) :=
  l.map fun s => (s.2, c.reg s.1)

theorem Stored.words_eq (h : Stored ctx l c d) {regs : List (Register × BitVec 64)}
    (rax : .rax ∉ regs.map Prod.fst ∨ d.reg .rax = c.reg .rax) : d.words regs = c.words regs := by
  refine List.map_congr_left fun s mem => ?_
  by_cases same : s.1 = .rax
  · rcases rax with none | kept
    · exact absurd (same ▸ List.mem_map_of_mem mem) none
    · rw [same, kept]
  · rw [h.reg s.1 same]

theorem stored_saves (base : c.reg .rcx = ctx) (regs : List (Register × BitVec 64)) :
    Stored ctx (c.words regs) c (Caller.execs (storeRegs regs) c) := by
  rw [storeRegs, Caller.execs_saves]
  refine ⟨?_, fun r _ => congrFun Asm.reg_saves r, rfl, rfl⟩
  rw [← base]
  exact Asm.memory_saves

theorem stored_control (base : c.reg .rcx = ctx) (regs : List (ControlRegister × BitVec 64)) :
    Stored ctx (regs.map fun s => (s.2, c.control s.1)) c
      (Caller.execs (regs.flatMap storeControl) c) := by
  induction regs generalizing c with
  | nil => exact ⟨rfl, fun _ _ => rfl, rfl, rfl⟩
  | cons s regs ih =>
      obtain ⟨d, hd⟩ : ∃ d, d = Caller.execs (storeControl s) c := ⟨_, rfl⟩
      have first : Stored ctx [(s.2, c.control s.1)] c d := by
        rw [hd]
        refine ⟨?_, fun r ne => Asm.Cpu.reg_set_of_ne _ _ _ _ ne, rfl, rfl⟩
        have written : (Caller.execs (storeControl s) c).memory =
            store c.memory (c.reg .rcx + s.2) (c.control s.1) := rfl
        rw [written, base]
        rfl
      have rest := ih (c := d) ((first.reg .rcx (by decide)).trans base)
      rw [first.control] at rest
      rw [List.flatMap_cons, Caller.execs_append, ← hd]
      exact first.trans rest

/-- The word under the stack of the caller holds rflags. -/
def Caller.pushed (c : Caller) : Caller :=
    c.withCpu (c.processor.cpu.write (c.reg .rsp - 8) c.processor.rflags)

theorem stored_rflags (base : c.reg .rcx = ctx) :
    Stored ctx [(CONTEXT_RFLAGS, c.processor.rflags)] c.pushed (Caller.execs storeRflags c) := by
  have memory : (Caller.execs storeRflags c).memory =
    store (store c.memory (c.reg .rsp - 8) c.processor.rflags)
      (c.reg .rcx + CONTEXT_RFLAGS) (load (store c.memory (c.reg .rsp - 8) c.processor.rflags)
        (c.reg .rsp - 8)) := rfl
  have rsp : (Caller.execs storeRflags c).reg .rsp = c.reg .rsp - 8 + 8 := rfl
  refine ⟨?_, fun r _ => ?_, rfl, rfl⟩
  · rw [memory, Asm.load_store_self, base]
    rfl
  · by_cases same : r = .rsp
    · rw [same, rsp, BitVec.sub_add_cancel]
      rfl
    · exact (Asm.Cpu.reg_set_of_ne _ _ _ _ same).trans (Asm.Cpu.reg_set_of_ne _ _ _ _ same)

theorem stored_rsp (base : c.reg .rcx = ctx) :
    Stored ctx [(CONTEXT_RSP, c.reg .rsp + 8)] c (Caller.execs storeRsp c) := by
  have memory : (Caller.execs storeRsp c).memory =
    store (store c.memory (c.reg .rcx + CONTEXT_RSP) (c.reg .rsp))
      (c.reg .rcx + CONTEXT_RSP) (load (store c.memory (c.reg .rcx + CONTEXT_RSP) (c.reg .rsp))
        (c.reg .rcx + CONTEXT_RSP) + 8) := rfl
  refine ⟨?_, fun r _ => rfl, rfl, rfl⟩
  rw [memory, Asm.load_store_self, Asm.store_store, base]
  rfl

theorem stored_rip (base : c.reg .rcx = ctx) :
    Stored ctx [(CONTEXT_RIP, load c.memory (c.reg .rsp))] c (Caller.execs storeRip c) := by
  have memory : (Caller.execs storeRip c).memory =
      store c.memory (c.reg .rcx + CONTEXT_RIP) (load c.memory (c.reg .rsp + 0)) := rfl
  refine ⟨?_, fun r ne => Asm.Cpu.reg_set_of_ne _ _ _ _ ne, rfl, rfl⟩
  have top : c.reg .rsp + 0 = c.reg .rsp := by simp
  rw [memory, base, top]
  rfl

theorem stored_selectors (base : c.reg .rcx = ctx) : Stored ctx (c.segment.words CONTEXT_CS) c
    (Caller.execs [.selectors .rcx CONTEXT_CS, .host (.plain (.movImm .rax 0))] c) := by
  have memory : (Caller.execs [.selectors .rcx CONTEXT_CS,
    .host (.plain (.movImm .rax 0))] c).memory =
      storeAll c.memory (c.reg .rcx) (c.segment.words CONTEXT_CS) := rfl
  refine ⟨?_, fun r ne => Asm.Cpu.reg_set_of_ne _ _ _ _ ne, rfl, rfl⟩
  rw [memory, base]

/-- The context of a caller, with its return address. -/
def captured (c : Caller) (rip : BitVec 64) : List (Asm.Address × BitVec 64) :=
  [(CONTEXT_RFLAGS, c.processor.rflags)] ++ c.words contextFirst ++
    [(CONTEXT_RSP, c.reg .rsp + 8)] ++
    [(CONTEXT_RIP, rip)] ++ c.words contextLast ++ c.segment.words CONTEXT_CS ++
      contextControl.map (fun s => (s.2, c.control s.1)) ++ c.words contextXmm

def contextOffsets : List (BitVec 64) :=
  [CONTEXT_RFLAGS] ++ contextFirst.map Prod.snd ++ [CONTEXT_RSP, CONTEXT_RIP] ++
    contextLast.map Prod.snd ++
    [CONTEXT_CS, CONTEXT_GS] ++ contextControl.map Prod.snd ++ contextXmm.map Prod.snd

theorem captured_offsets (rip : BitVec 64) : (captured c rip).map Prod.fst = contextOffsets := by
  have words (l : List (Register × BitVec 64)) : (c.words l).map Prod.fst =
    l.map Prod.snd := List.map_map
  have control : (contextControl.map fun s => (s.2, c.control s.1)).map Prod.fst =
    contextControl.map Prod.snd :=
    List.map_map
  have selectors : (c.segment.words CONTEXT_CS).map Prod.fst = [CONTEXT_CS, CONTEXT_GS] := rfl
  simp only [captured, contextOffsets, List.map_append, words, control, selectors, List.map_cons,
    List.append_assoc, List.cons_append, List.nil_append]

theorem contextOffsets_apart : contextOffsets.Pairwise Apart := by decide +kernel

theorem contextOffsets_inside {o : BitVec 64} (mem : o ∈ contextOffsets) :
    o ≤ CONTEXT_SIZE - 8 := by
  have all : contextOffsets.all fun o => decide (o ≤ CONTEXT_SIZE - 8) := by decide +kernel
  exact of_decide_eq_true (List.all_eq_true.mp all o mem)

/-- Up to the return. -/
def capture : List ContextInstr :=
  storeRflags ++ storeRegs contextFirst ++ storeRsp ++ storeRip ++ storeRegs contextLast ++
    [.selectors .rcx CONTEXT_CS, .host (.plain (.movImm .rax 0))] ++ contextControl.flatMap
      storeControl ++
      storeRegs contextXmm

theorem stored_capture (base : c.reg .rcx = ctx) (outside : Outside ctx CONTEXT_SIZE (c.reg .rsp)) :
    Stored ctx (captured c (load c.memory (c.reg .rsp))) c.pushed (Caller.execs capture c) := by
  have next {d : Caller} {l : List (Asm.Address × BitVec 64)} (h : Stored ctx l c.pushed d) :
    d.reg .rcx = ctx :=
    (h.reg .rcx (by decide)).trans base
  have stack {d : Caller} {l : List (Asm.Address × BitVec 64)} (h : Stored ctx l c.pushed d) :
      d.reg .rsp = c.reg .rsp := h.reg .rsp (by decide)
  have first := stored_rflags base
  have regs := first.trans (stored_saves (next first) contextFirst)
  rw [first.words_eq (.inr rfl)] at regs
  have rsp := regs.trans (stored_rsp (next regs))
  rw [stack regs] at rsp
  have rip := rsp.trans (stored_rip (next rsp))
  have address : load (Caller.execs storeRsp (Caller.execs (storeRegs contextFirst)
    (Caller.execs storeRflags c))).memory
      (c.reg .rsp) = load c.memory (c.reg .rsp) := by
    rw [rsp.memory, Asm.load_storeAll_apart fun w mem => ?_]
    · exact Asm.load_store_apart ⟨by bv_omega, by bv_omega⟩
    · have offset : w.1 ∈ contextOffsets := by
        rw [← captured_offsets (c := c) 0]
        refine List.mem_map_of_mem ?_
        iterate 5 apply List.mem_append_left
        exact mem
      exact (outside.apart (by decide) (contextOffsets_inside offset)).symm
  rw [stack rsp, address] at rip
  have last := rip.trans (stored_saves (next rip) contextLast)
  rw [rip.words_eq (.inl (by decide))] at last
  have selectors := last.trans (stored_selectors (next last))
  rw [last.segment] at selectors
  have control := selectors.trans (stored_control (next selectors) contextControl)
  rw [selectors.control] at control
  have xmm := control.trans (stored_saves (next control) contextXmm)
  rw [control.words_eq (.inl (by decide +kernel))] at xmm
  rw [capture]
  simp only [Caller.execs_append]
  exact xmm

/-- Behind the call of ALhvGetContext_asm at which `c` is: it returns `v`. -/
structure Behind (v : BitVec 64) (c p : Processor) : Prop where
  rax : p.reg .rax = v
  gpr : ∀ s ∈ gprSlots, s.1 ≠ .rax → p.reg s.1 = c.reg s.1
  rsp : p.reg .rsp = c.reg .rsp + 8
  rip : p.rip = load c.memory (c.reg .rsp)

theorem execs_getContext : Caller.execs alHvGetContextAsm c =
    Caller.execs [.host (.plain (.movImm .rax 0)), .host .ret] (Caller.execs capture c) := by
  rw [alHvGetContextAsm, capture, Caller.execs_append]

/-- ALhvGetContext_asm returns 0, and the context holds the registers of its caller behind the call.
-/
theorem alHvGetContextAsm_captures (base : c.reg .rcx = ctx)
    (outside : Outside ctx CONTEXT_SIZE (c.reg .rsp)) :
    Behind 0 c.processor (Caller.execs alHvGetContextAsm c).processor ∧
      ∀ w ∈ captured c (load c.memory (c.reg .rsp)),
        load (Caller.execs alHvGetContextAsm c).memory (ctx + w.1) = w.2 := by
  have stored := stored_capture base outside
  obtain ⟨d, hd⟩ : ∃ d, d = Caller.execs capture c := ⟨_, rfl⟩
  rw [← hd] at stored
  have memory : (Caller.execs alHvGetContextAsm c).memory = d.memory :=
    by rw [execs_getContext, ← hd]; rfl
  have rsp : d.reg .rsp = c.reg .rsp := stored.reg .rsp (by decide)
  have address : load d.memory (c.reg .rsp) = load c.memory (c.reg .rsp) := by
    rw [stored.memory, Asm.load_storeAll_apart fun w mem => ?_]
    · exact Asm.load_store_apart ⟨by bv_omega, by bv_omega⟩
    · have offset : w.1 ∈ contextOffsets := captured_offsets (c := c) _ ▸ List.mem_map_of_mem mem
      exact (outside.apart (by decide) (contextOffsets_inside offset)).symm
  refine ⟨⟨?_, fun s mem rax => ?_, ?_, ?_⟩, fun w mem => ?_⟩
  · rw [execs_getContext]
    rfl
  · rw [execs_getContext, ← hd]
    have kept : (Caller.execs [.host (.plain (.movImm .rax 0)), .host .ret] d).processor.reg
      s.1 = d.reg s.1 :=
      (Asm.Cpu.reg_set_of_ne _ _ _ _ (ne_rsp_of_mem (List.mem_append_left _ mem))).trans
        (Asm.Cpu.reg_set_of_ne _ _ _ _ rax)
    exact kept.trans (stored.reg s.1 rax)
  · rw [execs_getContext, ← hd]
    have popped : (Caller.execs [.host (.plain (.movImm .rax 0)), .host .ret]
      d).processor.reg .rsp =
        d.reg .rsp + 8 := rfl
    rw [popped, rsp]
    rfl
  · rw [execs_getContext, ← hd]
    have popped : (Caller.execs [.host (.plain (.movImm .rax 0)), .host .ret] d).processor.rip =
        load d.memory (d.reg .rsp) := rfl
    rw [popped, rsp, address]
    rfl
  · rw [memory, stored.memory]
    refine Asm.load_storeAll (List.pairwise_map.mp ?_) mem
    rw [captured_offsets]
    exact contextOffsets_apart

end Capture

/-- OR_HV_VMX_REG as ALvmxCoreStart fills it from the context. -/
def startReg (ctx : BitVec 64) (m : Asm.Memory) : Reg where
  rax := 1
  rbx := load m (ctx + 0x08)
  rcx := load m (ctx + 0x10)
  rdx := load m (ctx + 0x18)
  rsi := load m (ctx + 0x20)
  rdi := load m (ctx + 0x28)
  rbp := load m (ctx + 0x30)
  rsp := load m (ctx + CONTEXT_RSP)
  rip := load m (ctx + CONTEXT_RIP)
  rflags := load m (ctx + CONTEXT_RFLAGS)
  r8 := load m (ctx + 0x50)
  r9 := load m (ctx + 0x58)
  r10 := load m (ctx + 0x60)
  r11 := load m (ctx + 0x68)
  r12 := load m (ctx + 0x70)
  r13 := load m (ctx + 0x78)
  r14 := load m (ctx + 0x80)
  r15 := load m (ctx + 0x88)

def contextSegment (ctx : BitVec 64) (m : Asm.Memory) : SegmentContext where
  cs := BitField.get (load m (ctx + CONTEXT_CS)) 0 16
  ds := BitField.get (load m (ctx + CONTEXT_CS)) 16 16
  es := BitField.get (load m (ctx + CONTEXT_CS)) 32 16
  fs := BitField.get (load m (ctx + CONTEXT_CS)) 48 16
  gs := BitField.get (load m (ctx + CONTEXT_GS)) 0 16
  ss := BitField.get (load m (ctx + CONTEXT_GS)) 16 16
  ldtr := BitField.get (load m (ctx + CONTEXT_GS)) 32 16
  tr := BitField.get (load m (ctx + CONTEXT_GS)) 48 16

/-- The guest fields that ALvmxCoreStart writes from a control register of the context. -/
def guestControl : List (ControlRegister × BitVec 64) :=
  [(.cr3, 0x6802), (.cr0, 0x6800), (.cr4, 0x6804), (.dr7, 0x681A)]

def guestSelector : SegmentRegister → BitVec 64
  | .es => 0x800
  | .cs => 0x802
  | .ss => 0x804
  | .ds => 0x806
  | .fs => 0x808
  | .gs => 0x80A
  | .ldtr => 0x80C
  | .tr => 0x80E

/-- The compiled ALvmxCoreStart from the return of ALhvGetContext_asm, with memory `m`, to the call
of ALvmxGuestEnter_asm: VMXON has succeeded, and the context is in the core and in the VMCS. -/
structure CoreStarted (ctx core : BitVec 64) (m : Asm.Memory) (t : SegmentTables)
    (msrs : SegmentMsrs)
    (e : Processor) : Prop where
  argument : e.reg .rcx = core
  reg : regAt core e.memory = startReg ctx m
  control : ∀ x field o, (x, field) ∈ guestControl → (x, o) ∈ contextControl → e.vmcs field =
    load m (ctx + o)
  selector : ∃ vmcs, ∀ r, e.vmcs (guestSelector r) =
    alVmxCoreStartSegments (contextSegment ctx m) t msrs vmcs (.guestSelector r)
  vmxOperation : e.vmxOperation = true

/-- ALvmxGuestEnter_asm up to vmlaunch: the xmm registers are not loaded, and r15 is the last one.
-/
def enterGuest : List HostInstr :=
  [.plain (.mov .r15 .rcx)] ++ loadGuestField .r15 VMCS_GUEST_RSP RSP_0 ++ loadGuestField .r15
    VMCS_GUEST_RIP RIP_0 ++
    loadGuestField .r15 VMCS_GUEST_RFLAGS RFLAGS_0 ++ (loads .r15 gprSlots).map .plain

/-- If vmlaunch fails, it returns to ALvmxCoreStart. -/
def alVmxGuestEnterAsm (launches : Bool) (p : Processor) : Processor :=
  let p := execs enterGuest p
  if launches then p.vmEntry else HostInstr.ret.exec p

section GuestEnter
variable {p : Processor} {core field : BitVec 64}

theorem gprSlots_eq : gprSlots = gprSlots.dropLast ++ [(.r15, 0x78)] := rfl

/-- ALvmxGuestEnter_asm before vmlaunch, from the area of the core on. -/
structure Entering (core : BitVec 64) (p q : Processor) : Prop where
  gpr : ∀ s ∈ gprSlots, q.reg s.1 = load p.memory (core + s.2)
  stack : q.reg .rsp = p.reg .rsp
  rsp : q.vmcs VMCS_GUEST_RSP = load p.memory (core + RSP_0)
  rip : q.vmcs VMCS_GUEST_RIP = load p.memory (core + RIP_0)
  rflags : q.vmcs VMCS_GUEST_RFLAGS = load p.memory (core + RFLAGS_0)
  vmcs : ∀ field, field ∉ [VMCS_GUEST_RSP, VMCS_GUEST_RIP, VMCS_GUEST_RFLAGS] →
    q.vmcs field = p.vmcs field
  memory : q.memory = p.memory
  vmxOperation : q.vmxOperation = p.vmxOperation

theorem enterGuest_entering (argument : p.reg .rcx = core) :
    Entering core p (execs enterGuest p) := by
  obtain ⟨u, hu⟩ : ∃ u, u =
    execs ([.plain (.mov .r15 .rcx)] ++ loadGuestField .r15 VMCS_GUEST_RSP RSP_0 ++
      loadGuestField .r15 VMCS_GUEST_RIP RIP_0 ++ loadGuestField .r15 VMCS_GUEST_RFLAGS
        RFLAGS_0) p := ⟨_, rfl⟩
  have runs : execs enterGuest p = { u with cpu := Asm.run .rsp (loads .r15 gprSlots) u.cpu } := by
    rw [enterGuest, execs_append, execs_plain, ← hu]
  have memory : u.memory = p.memory := by rw [hu]; rfl
  have r15 : u.reg .r15 = p.reg .rcx := by rw [hu]; rfl
  have fields : u.vmcs VMCS_GUEST_RSP = load p.memory (p.reg .rcx + RSP_0) ∧
      u.vmcs VMCS_GUEST_RIP = load p.memory (p.reg .rcx + RIP_0) ∧
        u.vmcs VMCS_GUEST_RFLAGS = load p.memory (p.reg .rcx + RFLAGS_0) := by
    rw [hu]
    exact ⟨rfl, rfl, rfl⟩
  rw [argument] at r15 fields
  have last (c : Asm.Cpu Register) : Asm.run .rsp (loads .r15 gprSlots) c =
      (Asm.run .rsp (loads .r15 gprSlots.dropLast) c).set .r15
        (load (Asm.run .rsp (loads .r15 gprSlots.dropLast) c).memory
          ((Asm.run .rsp (loads .r15 gprSlots.dropLast) c).reg .r15 + 0x78)) := rfl
  have base : Register.r15 ∉ gprSlots.dropLast.map Prod.fst := by decide
  have kept : (Asm.run .rsp (loads .r15 gprSlots.dropLast) u.cpu).reg .r15 = core :=
    (Asm.reg_loads_other base).trans r15
  rw [runs]
  refine ⟨fun s mem => ?_, ?_, fields.1, fields.2.1, fields.2.2, fun field other => ?_, ?_,
    by rw [hu]; rfl⟩
  · rw [gprSlots_eq, List.mem_append, List.mem_singleton] at mem
    rcases mem with first | rfl
    · have ne : s.1 ≠ .r15 := by
        intro same
        exact base (same ▸ List.mem_map_of_mem first)
      have loaded : (Asm.run .rsp (loads .r15 gprSlots.dropLast) u.cpu).reg s.1 =
          load u.memory (u.reg .r15 + s.2) := Asm.reg_loads (by decide) base first
      have same : (Asm.run .rsp (loads .r15 gprSlots) u.cpu).reg s.1 =
          (Asm.run .rsp (loads .r15 gprSlots.dropLast) u.cpu).reg s.1 := by
        rw [last]
        exact Asm.Cpu.reg_set_of_ne _ _ _ _ ne
      refine same.trans (loaded.trans ?_)
      rw [memory, r15]
    · have loaded : (Asm.run .rsp (loads .r15 gprSlots) u.cpu).reg .r15 =
        load u.memory (core + 0x78) := by
        rw [last, Asm.Cpu.reg_set_self, Asm.memory_loads, kept]
        rfl
      refine loaded.trans ?_
      rw [memory]
  · have same : (Asm.run .rsp (loads .r15 gprSlots) u.cpu).reg .rsp = u.reg .rsp :=
      Asm.reg_loads_other (by decide)
    refine same.trans ?_
    rw [hu]
    rfl
  · have kept : u.vmcs field = p.vmcs field := by
      rw [hu]
      simp only [List.mem_cons, List.not_mem_nil, or_false, not_or] at other
      exact (update_of_ne other.2.2 _ _).trans
        ((update_of_ne other.2.1 _ _).trans (update_of_ne other.1 _ _))
    exact kept
  · exact (Asm.memory_loads (c := u.cpu)).trans memory

end GuestEnter

section CoreStart
variable {c : Caller} {e : Processor} {ctx core : BitVec 64} {m : Asm.Memory} {t : SegmentTables}
  {msrs : SegmentMsrs}

theorem regAt_gpr {s : Register × BitVec 64} (mem : s ∈ gprSlots) : (regAt core m).gpr s.1 =
    load m (core + s.2) := by
  revert s
  simp only [gprSlots, List.forall_mem_cons, List.not_mem_nil, IsEmpty.forall_iff,
    implies_true, and_true]
  and_intros <;> rfl

def contextGpr : List (Register × BitVec 64) := contextFirst ++ contextLast

theorem startReg_gpr {s : Register × BitVec 64} (mem : s ∈ contextGpr) (rax : s.1 ≠ .rax) :
    (startReg ctx m).gpr s.1 = load m (ctx + s.2) := by
  revert s
  simp only [contextGpr, contextFirst, contextLast, List.cons_append, List.nil_append,
    List.forall_mem_cons,
    List.not_mem_nil, IsEmpty.forall_iff, implies_true, and_true]
  refine ⟨fun rax => absurd rfl rax, ?_⟩
  and_intros <;> exact fun _ => rfl

theorem gpr_mem_context {s : Register × BitVec 64} (mem : s ∈ gprSlots) :
    s.1 ∈ contextGpr.map Prod.fst := by
  revert s
  decide

theorem guestControl_context {x : ControlRegister} {field : BitVec 64}
    (mem : (x, field) ∈ guestControl) :
    (∃ o, (x, o) ∈ contextControl) ∧
      field ∉ [VMCS_GUEST_RSP, VMCS_GUEST_RIP, VMCS_GUEST_RFLAGS] := by
  have listed : ∀ s ∈ guestControl, s.1 ∈ contextControl.map Prod.fst ∧
      s.2 ∉ [VMCS_GUEST_RSP, VMCS_GUEST_RIP, VMCS_GUEST_RFLAGS] := by decide
  obtain ⟨inside, other⟩ := listed (x, field) mem
  obtain ⟨⟨y, o⟩, slot, rfl⟩ := List.mem_map.mp inside
  exact ⟨⟨o, slot⟩, other⟩

/-- The memory holds the context of the caller. -/
def InContext (ctx : BitVec 64) (m : Asm.Memory) (c : Caller) : Prop :=
  ∀ w ∈ captured c (load c.memory (c.reg .rsp)), load m (ctx + w.1) = w.2

theorem get_selectors {v : BitVec 64} {a b c d : Selector} (joined : v = a ++ b ++ c ++ d) :
    BitField.get v 0 16 = d ∧ BitField.get v 16 16 = c ∧ BitField.get v 32 16 = b ∧
      BitField.get v 48 16 = a := by
  subst joined
  and_intros <;> ext i hi <;> simp only [BitField.get, BitVec.getElem_extractLsb',
    BitVec.getLsbD_append] <;> grind

section InContext
variable (h : InContext ctx m c)
include h

theorem InContext.gpr {s : Register × BitVec 64} (mem : s ∈ contextGpr) : load m (ctx + s.2) =
    c.reg s.1 := by
  refine h (s.2, c.reg s.1) ?_
  have word (l : List (Register × BitVec 64)) (inside : s ∈ l) : (s.2, c.reg s.1) ∈ c.words l :=
    List.mem_map.mpr ⟨s, inside, rfl⟩
  simp only [captured, List.mem_append]
  rcases List.mem_append.mp mem with first | last
  · simp only [word _ first, true_or, or_true]
  · simp only [word _ last, true_or, or_true]

theorem InContext.control {x : ControlRegister} {o : BitVec 64} (mem : (x, o) ∈ contextControl) :
    load m (ctx + o) = c.control x := by
  refine h (o, c.control x) ?_
  have word : (o, c.control x) ∈ contextControl.map fun s => (s.2, c.control s.1) :=
    List.mem_map.mpr ⟨(x, o), mem, rfl⟩
  simp only [captured, List.mem_append, word, true_or, or_true]

theorem InContext.rflags : load m (ctx + CONTEXT_RFLAGS) = c.processor.rflags :=
  h (CONTEXT_RFLAGS, c.processor.rflags) (by simp [captured])

theorem InContext.rsp : load m (ctx + CONTEXT_RSP) = c.reg .rsp + 8 :=
  h (CONTEXT_RSP, c.reg .rsp + 8) (by simp [captured])

theorem InContext.rip : load m (ctx + CONTEXT_RIP) = load c.memory (c.reg .rsp) :=
  h (CONTEXT_RIP, load c.memory (c.reg .rsp)) (by simp [captured])

theorem InContext.segment : contextSegment ctx m = c.segment := by
  have first : load m (ctx + CONTEXT_CS) =
    c.segment.fs ++ c.segment.es ++ c.segment.ds ++ c.segment.cs :=
    h (CONTEXT_CS, _) (by simp [captured, SegmentContext.words])
  have last : load m (ctx + CONTEXT_GS) =
    c.segment.tr ++ c.segment.ldtr ++ c.segment.ss ++ c.segment.gs :=
    h (CONTEXT_GS, _) (by simp [captured, SegmentContext.words, CONTEXT_CS, CONTEXT_GS])
  obtain ⟨cs, ds, es, fs⟩ := get_selectors first
  obtain ⟨gs, ss, ldtr, tr⟩ := get_selectors last
  rw [contextSegment, cs, ds, es, fs, gs, ss, ldtr, tr]

end InContext

/-- The guest behind the call of ALhvGetContext_asm, which returns 1 to it, in VMX operation. -/
structure GuestStarted (c : Caller) (q : Processor) : Prop where
  behind : Behind 1 c.processor q
  rflags : q.rflags = c.processor.rflags
  control : ∀ x field, (x, field) ∈ guestControl → q.vmcs field = c.control x
  selector : ∀ r, q.vmcs (guestSelector r) = (c.segment.selector r).setWidth 64
  vmxOperation : q.vmxOperation = true

section Started
variable (h : InContext ctx m c) (started : CoreStarted ctx core m t msrs e)
include h started

theorem CoreStarted.slot {s : Register × BitVec 64} (mem : s ∈ gprSlots) (rax : s.1 ≠ .rax) :
    load e.memory (core + s.2) = c.reg s.1 := by
  obtain ⟨u, inside, same⟩ := List.mem_map.mp (gpr_mem_context mem)
  rw [← regAt_gpr mem, started.reg, ← same, startReg_gpr inside (same ▸ rax), h.gpr inside]

theorem CoreStarted.guest : GuestStarted c (alVmxGuestEnterAsm true e) := by
  have entering := enterGuest_entering started.argument
  have fields := started.reg
  obtain ⟨q, hq⟩ : ∃ q, q = execs enterGuest e := ⟨_, rfl⟩
  have entered : alVmxGuestEnterAsm true e = q.vmEntry := by rw [hq]; rfl
  have kept {s : Register} (ne : s ≠ .rsp) : q.vmEntry.reg s = q.reg s :=
    Asm.Cpu.reg_set_of_ne _ _ _ _ ne
  have rsp : q.vmEntry.reg .rsp = q.vmcs VMCS_GUEST_RSP := rfl
  have rip : q.vmEntry.rip = q.vmcs VMCS_GUEST_RIP := rfl
  have rflags : q.vmEntry.rflags = q.vmcs VMCS_GUEST_RFLAGS := rfl
  have vmcs (field : BitVec 64) : q.vmEntry.vmcs field = q.vmcs field := rfl
  rw [← hq] at entering
  rw [entered]
  refine ⟨⟨?_, fun s mem rax => ?_, ?_, ?_⟩, ?_, fun x field mem => ?_, fun r => ?_, ?_⟩
  · rw [kept (by decide), entering.gpr (.rax, 0) (by decide)]
    exact congrArg Reg.rax fields
  · rw [kept (ne_rsp_of_mem (List.mem_append_left _ mem)), entering.gpr s mem,
      started.slot h mem rax]
    rfl
  · rw [rsp, entering.rsp]
    exact (congrArg Reg.rsp fields).trans h.rsp
  · rw [rip, entering.rip]
    exact (congrArg Reg.rip fields).trans h.rip
  · rw [rflags, entering.rflags]
    exact (congrArg Reg.rflags fields).trans h.rflags
  · obtain ⟨⟨o, slot⟩, other⟩ := guestControl_context mem
    rw [vmcs, entering.vmcs field other, started.control x field o mem slot, h.control slot]
  · obtain ⟨segments, written⟩ := started.selector
    have other : guestSelector r ∉ [VMCS_GUEST_RSP, VMCS_GUEST_RIP, VMCS_GUEST_RFLAGS] :=
      by cases r <;> decide
    rw [vmcs, entering.vmcs _ other, written r]
    rw [coreStart_guestSelector, h.segment]
  · exact entering.vmxOperation.trans started.vmxOperation

/-- Where vmlaunch fails, ALvmxCoreStart goes on with the registers it had when it called
ALhvGetContext_asm. -/
theorem CoreStarted.failed : (alVmxGuestEnterAsm false e).rip = load e.memory (e.reg .rsp) ∧
    ∀ s ∈ gprSlots, s.1 ≠ .rax → (alVmxGuestEnterAsm false e).reg s.1 = c.reg s.1 := by
  have entering := enterGuest_entering started.argument
  have popped : (alVmxGuestEnterAsm false e).rip =
      load (execs enterGuest e).memory ((execs enterGuest e).reg .rsp) := rfl
  refine ⟨?_, fun s mem rax => ?_⟩
  · rw [popped, entering.memory, entering.stack]
  · have kept : (alVmxGuestEnterAsm false e).reg s.1 = (execs enterGuest e).reg s.1 :=
      Asm.Cpu.reg_set_of_ne _ _ _ _ (ne_rsp_of_mem (List.mem_append_left _ mem))
    rw [kept, entering.gpr s mem, started.slot h mem rax]

end Started

/-- ALhvGetContext_asm returns twice to ALvmxCoreStart: 0 to the host, and, when vmlaunch succeeds,
1 to the guest, with the registers and the segments of the first return. When it fails, the host has
these registers again. -/
theorem alHvGetContextAsm_returns_twice (base : c.reg .rcx = ctx)
    (outside : Outside ctx CONTEXT_SIZE (c.reg .rsp))
    (started : CoreStarted ctx core (Caller.execs alHvGetContextAsm c).memory t msrs e) :
    Behind 0 c.processor (Caller.execs alHvGetContextAsm c).processor ∧
      GuestStarted c (alVmxGuestEnterAsm true e) ∧
      (alVmxGuestEnterAsm false e).rip = load e.memory (e.reg .rsp) ∧
      ∀ s ∈ gprSlots, s.1 ≠ .rax → (alVmxGuestEnterAsm false e).reg s.1 = c.reg s.1 := by
  obtain ⟨first, context⟩ := alHvGetContextAsm_captures base outside
  exact ⟨first, started.guest context, started.failed context⟩

end CoreStart

section Idle

def Reg.words (r : Reg) : List (Asm.Address × BitVec 64) :=
  [(0x00, r.rax), (0x08, r.rcx), (0x10, r.rdx), (0x18, r.rbx), (RSP_0, r.rsp), (0x28, r.rbp),
    (0x30, r.rsi),
    (0x38, r.rdi), (0x40, r.r8), (0x48, r.r9), (0x50, r.r10), (0x58, r.r11), (0x60, r.r12),
      (0x68, r.r13),
    (0x70, r.r14), (0x78, r.r15), (RIP_0, r.rip), (RFLAGS_0, r.rflags)]

theorem regAt_words (core : BitVec 64) (m : Asm.Memory) (r : Reg) :
    regAt core (storeAll m core r.words) = r := by
  have offsets : r.words.map Prod.fst =
    [0x00, 0x08, 0x10, 0x18, 0x20, 0x28, 0x30, 0x38, 0x40, 0x48, 0x50, 0x58,
      0x60, 0x68, 0x70, 0x78, 0x80, 0x88] := rfl
  have places : (r.words.map Prod.fst).Pairwise Apart := by
    rw [offsets]
    decide +kernel
  have stored : ∀ w ∈ r.words, load (storeAll m core r.words) (core + w.1) = w.2 := fun w mem =>
    Asm.load_storeAll (List.pairwise_map.mp places) mem
  generalize storeAll m core r.words = m' at stored ⊢
  simp only [Reg.words, List.forall_mem_cons, List.not_mem_nil, IsEmpty.forall_iff, implies_true,
    and_true] at stored
  simp only [regAt, stored]

/-- ALvmxCoreStart of `idleProcessor`, with its context at 0x8000. -/
def idleCaller : Caller where
  processor :=
    { idleProcessor with cpu := idleProcessor.cpu.set .rcx 0x8000, vmxOperation := false }
  segment := kernelContext
  control _ := 0

/-- Before ALvmxGuestEnter_asm, with the core at 0x100000. -/
def idleStarted (m : Asm.Memory) : Processor where
  cpu := ⟨update idleProcessor.reg .rcx 0x100000, storeAll m 0x100000 (startReg 0x8000 m).words⟩
  rip := 0x1000
  rflags := 2
  vmcs := [SegmentRegister.cs, .ss, .ds, .es, .fs, .gs, .tr, .ldtr].foldl
    (fun vmcs r => update vmcs (guestSelector r) ((kernelContext.selector r).setWidth 64)) fun _ =>
      0
  tsc := 0
  vmxOperation := true

theorem idleStarted_coreStarted {m : Asm.Memory} (h : InContext 0x8000 m idleCaller)
    (t : SegmentTables)
    (msrs : SegmentMsrs) : CoreStarted 0x8000 0x100000 m t msrs (idleStarted m) := by
  refine ⟨rfl, regAt_words _ _ _, fun x field o guest context => ?_, ⟨fun _ => 0, fun r => ?_⟩, rfl⟩
  · rw [h.control context]
    have zero : ∀ s ∈ guestControl, (idleStarted m).vmcs s.2 = 0 := by
      simp only [guestControl, List.forall_mem_cons, List.not_mem_nil, IsEmpty.forall_iff,
        implies_true, and_true]
      and_intros <;> rfl
    exact zero (x, field) guest
  · rw [coreStart_guestSelector, h.segment]
    cases r <;> rfl

theorem alHvGetContextAsm_returns_twice_idle :
    Behind 0 idleCaller.processor (Caller.execs alHvGetContextAsm idleCaller).processor ∧
      GuestStarted idleCaller
        (alVmxGuestEnterAsm true
          (idleStarted (Caller.execs alHvGetContextAsm idleCaller).memory)) := by
  have outside : Outside 0x8000 CONTEXT_SIZE (idleCaller.reg .rsp) := by decide
  have context := (alHvGetContextAsm_captures (c := idleCaller) rfl outside).2
  have twice := alHvGetContextAsm_returns_twice (c := idleCaller) rfl outside
    (idleStarted_coreStarted context ⟨kernelGdt, fun _ => 0, 0, fun _ => 0⟩ ⟨0, 0⟩)
  exact ⟨twice.1, twice.2.1⟩

end Idle

end LMalz.Vmx
