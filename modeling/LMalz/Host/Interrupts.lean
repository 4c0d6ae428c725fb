import LMalz.Host.HostIdt
import LMalz.Vmx.Emulation
import LMalz.Vmx.WorldSwitch

/- idt_.asm: from an exception on the host into ALhvIdtHandler, and back or on to the system. -/
namespace LMalz.Host
open Asm (Apart Outside load store storeAll saves loads)
open Vmx (ExceptionInfo Fault Processor Register HostInstr execs hasErrorCode
  hookedVectors safeHandler)

/-- How idt_.asm declares a procedure. -/
inductive IsrMacro where
  | defineIsr
  | defineIsrNoError
  deriving DecidableEq

def isrs : List (BitVec 32 × IsrMacro) :=
  [(0, .defineIsrNoError), (1, .defineIsrNoError), (2, .defineIsrNoError), (3, .defineIsrNoError),
    (4, .defineIsrNoError), (5, .defineIsrNoError), (6, .defineIsrNoError), (7, .defineIsrNoError),
    (8, .defineIsr), (10, .defineIsr), (11, .defineIsr), (12, .defineIsr), (13, .defineIsr),
      (14, .defineIsr),
    (16, .defineIsrNoError), (17, .defineIsr), (18, .defineIsrNoError), (19, .defineIsrNoError),
    (20, .defineIsrNoError), (21, .defineIsr)]

def IsrMacro.pushes (v : BitVec 32) : IsrMacro → List (BitVec 64)
  | .defineIsr => [v.setWidth 64]
  | .defineIsrNoError => [0, v.setWidth 64]

/-- The argument `code` of IDT_HANDLER. -/
def IsrMacro.code : IsrMacro → BitVec 64
  | .defineIsr => 0
  | .defineIsrNoError => 8

/-- The offsets of trap_frame. -/
def trapGprs : List (Register × BitVec 64) :=
  [(.rax, 0x00), (.rcx, 0x08), (.rdx, 0x10), (.rbx, 0x18), (.rbp, 0x20), (.rsi, 0x28), (.rdi, 0x30),
    (.r8, 0x38), (.r9, 0x40), (.r10, 0x48), (.r11, 0x50), (.r12, 0x58), (.r13, 0x60),
      (.r14, 0x68), (.r15, 0x70)]

def TRAP_VECTOR : BitVec 64 := 0x78
def TRAP_ERROR : BitVec 64 := 0x80
def TRAP_RIP : BitVec 64 := 0x88
def TRAP_CS : BitVec 64 := 0x90
def TRAP_RFLAGS : BitVec 64 := 0x98
def TRAP_RSP : BitVec 64 := 0xA0
def TRAP_SS : BitVec 64 := 0xA8
def TRAP_SIZE : BitVec 64 := 0xB0

/-- IDT_HANDLER up to the call. -/
def enterIdtHandler : List HostInstr :=
  [.plain (.sub .rsp 0x78)] ++ (saves .rsp trapGprs).map .plain ++ [.plain (.mov .rcx .rsp),
    .plain (.sub .rsp 0x20)]

/-- From behind the call to `test`. -/
def leaveIdtHandler : List HostInstr :=
  [.plain (.add .rsp 0x20), .plain (.store .rsp TRAP_VECTOR .rax)] ++
    (loads .rsp trapGprs).map .plain ++
    [.plain (.add .rsp 0x78), .plain (.add .rsp 8)]

inductive IsrEnd where
  | iretq (p : Processor) (cs ss : BitVec 64)
  | toSystem (p : Processor)

/-- In 64-bit mode iretq takes all five words. -/
def iretq (p : Processor) : IsrEnd :=
  let word (k : BitVec 64) := load p.memory (p.reg .rsp + k)
  .iretq { p with rip := word 0, rflags := word 0x10, cpu := p.cpu.set .rsp (word 0x18) }
    (word 8) (word 0x20)

/-- `test` and what follows. -/
def IsrMacro.finish (m : IsrMacro) (p : Processor) : IsrEnd :=
  if load p.memory (p.reg .rsp - 8) = 0 then iretq (execs [.plain (.add .rsp 8)] p)
  else
    let p := execs [.plain (.add .rsp m.code)] p
    .toSystem { p with rip := load p.memory (p.reg .rsp - 8 - m.code) }

/-- The compiled ALhvIdtHandler, from its call to its return. -/
abbrev IdtHandler := ExceptionInfo → Processor → ExceptionInfo × Processor

/-- A procedure of idt_.asm. -/
def isr (m : IsrMacro) (v : BitVec 32) (handler : IdtHandler) (info : ExceptionInfo)
    (p : Processor) :
    ExceptionInfo × IsrEnd :=
  let p := execs ((Asm.pushes (m.pushes v)).map .plain) p
  let (info, p) := handler info (execs enterIdtHandler p)
  (info, m.finish (execs leaveIdtHandler p))

/-- An exception: what the processor pushes with it. -/
structure Exception where
  fault : Fault
  cs : BitVec 64
  ss : BitVec 64
  rflags : BitVec 64
  /-- Only some vectors push an error code. -/
  plain : hasErrorCode (fault.vector.setWidth 8) = false → fault.error = 0

namespace Exception

def pushes (x : Exception) (rsp rip : BitVec 64) : List (BitVec 64) :=
  [x.ss, rsp, x.rflags, x.cs, rip] ++
    if hasErrorCode (x.fault.vector.setWidth 8) then [x.fault.error.setWidth 64] else []

/-- The stack of the gate, at a multiple of 16. -/
def stack (gate : Idte) (tss : BitVec 3 → BitVec 64) (rsp : BitVec 64) : BitVec 64 :=
  (if gate.interruptStackTable = 0 then rsp else tss gate.interruptStackTable) &&& ~~~0xF

/-- The processor goes through a gate. -/
def deliver (x : Exception) (gate : Idte) (tss : BitVec 3 → BitVec 64)
    (p : Processor) : Processor :=
  let cpu := p.cpu.set .rsp (stack gate tss (p.reg .rsp))
  { p with cpu := Asm.run .rsp (Asm.pushes (x.pushes (p.reg .rsp) p.rip)) cpu, rip := gate.offset }

end Exception

/-- An exception on the host: the code at the offset of the gate runs, if it is one of idt_.asm. -/
def hostException (idt : Idt) (tss : BitVec 3 → BitVec 64) (address : BitVec 32 → BitVec 64)
    (handler : IdtHandler)
    (x : Exception) (info : ExceptionInfo) (p : Processor) : Option (ExceptionInfo × IsrEnd) :=
  let q := x.deliver (idt (x.fault.vector.setWidth 8)) tss p
  (isrs.find? fun i => address i.1 = q.rip).map fun i => isr i.2 i.1 handler info q

/-- safe_handler on its frame: OR_EXCEPTION_INFO and the memory afterwards, if it handles the
exception. -/
def safeHandlerFrame (frame : BitVec 64) (info : ExceptionInfo) (m : Asm.Memory) :
    Option (ExceptionInfo × Asm.Memory) :=
  if !info.monitor then none
  else
    let info := { info with
      find := true
      vector := (load m (frame + TRAP_VECTOR)).setWidth 32
      errorCode := (load m (frame + TRAP_ERROR)).setWidth 32 }
    let m := store m (frame + TRAP_RIP) (load m (load m (frame + TRAP_RSP)))
    some (info, store m (frame + TRAP_RSP) (load m (frame + TRAP_RSP) + 8))

section Isrs

theorem isrs_vectors : isrs.map Prod.fst = hookedVectors := rfl

/-- DEFINE_ISR is where the processor pushes an error code. -/
theorem isrs_macro {v : BitVec 32} {m : IsrMacro} (mem : (v, m) ∈ isrs) :
    m = .defineIsr ↔ hasErrorCode (v.setWidth 8) = true := by
  have all : ∀ i ∈ isrs, i.2 = .defineIsr ↔ hasErrorCode (i.1.setWidth 8) = true := by decide
  exact all (v, m) mem

theorem isrs_mem {v : BitVec 32} (hooked : v ∈ hookedVectors) : ∃ m, (v, m) ∈ isrs := by
  rw [← isrs_vectors] at hooked
  obtain ⟨⟨u, m⟩, mem, rfl⟩ := List.mem_map.mp hooked
  exact ⟨m, mem⟩

end Isrs

section Frame
variable {x : Exception} {gate : Idte} {tss : BitVec 3 → BitVec 64} {m : IsrMacro} {p : Processor}

/-- The words of a trap_frame that are pushed. -/
def machineFrame (x : Exception) (p : Processor) : List (Asm.Address × BitVec 64) :=
  [(TRAP_SS, x.ss), (TRAP_RSP, p.reg .rsp), (TRAP_RFLAGS, x.rflags), (TRAP_CS, x.cs),
    (TRAP_RIP, p.rip),
    (TRAP_ERROR, x.fault.error.setWidth 64), (TRAP_VECTOR, x.fault.vector.setWidth 64)]

def trapFrame (x : Exception) (p : Processor) : List (Asm.Address × BitVec 64) :=
  machineFrame x p ++ trapGprs.map fun s => (s.2, p.reg s.1)

theorem pushes_append (mem : (x.fault.vector, m) ∈ isrs) (rsp rip : BitVec 64) :
    x.pushes rsp rip ++ m.pushes x.fault.vector =
      [x.ss, rsp, x.rflags, x.cs, rip, x.fault.error.setWidth 64, x.fault.vector.setWidth 64] := by
  have pushed := isrs_macro mem
  cases m with
  | defineIsr =>
      have code := pushed.mp rfl
      simp only [Exception.pushes, IsrMacro.pushes, code, if_true]
      rfl
  | defineIsrNoError =>
      have code : hasErrorCode (x.fault.vector.setWidth 8) = false := by
        rw [← Bool.not_eq_true]
        intro code
        exact absurd (pushed.mpr code) (by decide)
      simp only [Exception.pushes, IsrMacro.pushes, code, x.plain code]
      rfl

/-- Where ALhvIdtHandler finds its frame. -/
def Exception.frame (gate : Idte) (tss : BitVec 3 → BitVec 64) (rsp : BitVec 64) : BitVec 64 :=
  Exception.stack gate tss rsp - TRAP_SIZE

/-- The processor at the call of ALhvIdtHandler. -/
def trapped (m : IsrMacro) (x : Exception) (gate : Idte) (tss : BitVec 3 → BitVec 64)
    (p : Processor) : Processor :=
  execs enterIdtHandler (execs ((Asm.pushes (m.pushes x.fault.vector)).map .plain)
    (x.deliver gate tss p))

structure Trapped (frame : BitVec 64) (x : Exception) (p c : Processor) : Prop where
  memory : c.memory = storeAll p.memory frame (trapFrame x p)
  argument : c.reg .rcx = frame
  stack : c.reg .rsp = frame - 0x20

theorem trapGprs_nodup : (trapGprs.map Prod.fst).Nodup := by decide

theorem rsp_notMem_trapGprs : Register.rsp ∉ trapGprs.map Prod.fst := by decide

theorem ne_rsp_of_mem {s : Register × BitVec 64} (mem : s ∈ trapGprs) : s.1 ≠ .rsp := by
  intro same
  exact rsp_notMem_trapGprs (same ▸ List.mem_map_of_mem mem)

theorem trapped_frame (gate : Idte) (tss : BitVec 3 → BitVec 64) (p : Processor)
    (mem : (x.fault.vector, m) ∈ isrs) :
    Trapped (Exception.frame gate tss (p.reg .rsp)) x p (trapped m x gate tss p) := by
  obtain ⟨frame, hframe⟩ : ∃ frame, frame = Exception.frame gate tss (p.reg .rsp) := ⟨_, rfl⟩
  obtain ⟨cpu, hcpu⟩ : ∃ cpu, cpu =
    p.cpu.set .rsp (Exception.stack gate tss (p.reg .rsp)) := ⟨_, rfl⟩
  have top : cpu.reg .rsp = frame + TRAP_SIZE := by
    rw [hcpu, Asm.Cpu.reg_set_self, hframe, Exception.frame, BitVec.sub_add_cancel]
  have pushed := Asm.run_pushes (l := x.pushes (p.reg .rsp) p.rip ++ m.pushes x.fault.vector) top
  obtain ⟨d, hd⟩ : ∃ d, d =
    Asm.run .rsp (Asm.pushes (x.pushes (p.reg .rsp) p.rip ++ m.pushes x.fault.vector)) cpu :=
    ⟨_, rfl⟩
  rw [← hd, pushes_append mem] at pushed
  obtain ⟨e, he⟩ : ∃ e, e = d.set .rsp (d.reg .rsp - 0x78) := ⟨_, rfl⟩
  have base : e.reg .rsp = frame := by
    rw [he, Asm.Cpu.reg_set_self, pushed.stack, TRAP_SIZE]
    simp only [List.length_cons, List.length_nil]
    bv_omega
  have gprs : trapGprs.map (fun s => (s.2, e.reg s.1)) = trapGprs.map fun s =>
    (s.2, p.reg s.1) := by
    refine List.map_congr_left fun s slot => ?_
    have ne := ne_rsp_of_mem slot
    have kept : cpu.reg s.1 = p.reg s.1 := by
      rw [hcpu]
      exact Asm.Cpu.reg_set_of_ne _ _ _ _ ne
    rw [he, Asm.Cpu.reg_set_of_ne _ _ _ _ ne, pushed.reg _ ne, kept]
  have saved : (Asm.run .rsp (saves .rsp trapGprs) e).memory =
    storeAll p.memory frame (trapFrame x p) := by
    have memory : e.memory = storeAll p.memory frame (machineFrame x p) := by
      rw [he]
      refine pushed.memory.trans ?_
      rw [hcpu]
      rfl
    rw [Asm.memory_saves, base, gprs, memory, trapFrame, Asm.storeAll_append]
  have runs : trapped m x gate tss p = execs [.plain (.mov .rcx .rsp), .plain (.sub .rsp 0x20)]
      { p with cpu := Asm.run .rsp (saves .rsp trapGprs) e, rip := gate.offset } := by
    have both : Asm.run .rsp (Asm.pushes (m.pushes x.fault.vector)) (Asm.run .rsp
        (Asm.pushes (x.pushes (p.reg .rsp) p.rip)) cpu) = d := by
      rw [hd, ← Asm.run_append, Asm.pushes, Asm.pushes, Asm.pushes, List.map_append]
    rw [trapped, Exception.deliver, Vmx.execs_plain, ← hcpu]
    simp only [both]
    rw [enterIdtHandler, Vmx.execs_append, Vmx.execs_append, Vmx.execs_plain, he]
    rfl
  have rsp : (Asm.run .rsp (saves .rsp trapGprs) e).reg .rsp = frame := by rw [Asm.reg_saves, base]
  rw [← hframe, runs]
  refine ⟨saved, ?_, ?_⟩
  · exact rsp
  · rw [← rsp]
    rfl

end Frame

section Leave
variable {m : IsrMacro} {t q : Processor} {frame : BitVec 64}

def machineOffsets : List (BitVec 64) :=
    [TRAP_SS, TRAP_RSP, TRAP_RFLAGS, TRAP_CS, TRAP_RIP, TRAP_ERROR]

theorem trapOffsets_apart :
    (machineOffsets ++ TRAP_VECTOR :: trapGprs.map Prod.snd).Pairwise Apart := by
  decide +kernel

theorem vector_apart {o : BitVec 64} (mem : o ∈ machineOffsets ∨ o ∈ trapGprs.map Prod.snd) :
    Apart TRAP_VECTOR o := by
  obtain ⟨-, gprs, machine⟩ := List.pairwise_append.mp trapOffsets_apart
  rcases mem with pushed | saved
  · exact (machine o pushed TRAP_VECTOR List.mem_cons_self).symm
  · exact (List.pairwise_cons.mp gprs).1 o saved

/-- Behind the call the registers come from the frame, and rax is where the vector was. -/
structure Unwound (frame : BitVec 64) (t q : Processor) : Prop where
  gpr : ∀ s ∈ trapGprs, q.reg s.1 = load t.memory (frame + s.2)
  rsp : q.reg .rsp = frame + TRAP_ERROR
  memory : q.memory = store t.memory (frame + TRAP_VECTOR) (t.reg .rax)

theorem leaveIdtHandler_unwound (stack : t.reg .rsp = frame - 0x20) :
    Unwound frame t (execs leaveIdtHandler t) := by
  obtain ⟨c, hc⟩ : ∃ c, c =
    (t.cpu.set .rsp (t.reg .rsp + 0x20)).write (t.reg .rsp + 0x20 + TRAP_VECTOR) (t.reg .rax) :=
    ⟨_, rfl⟩
  have base : t.reg .rsp + 0x20 = frame := by rw [stack, BitVec.sub_add_cancel]
  have rsp : c.reg .rsp = frame := by
    rw [hc, base]
    exact Asm.Cpu.reg_set_self t.cpu Register.rsp frame
  have memory : c.memory = store t.memory (frame + TRAP_VECTOR) (t.reg .rax) := by
    rw [hc, base]
    rfl
  obtain ⟨d, hd⟩ : ∃ d, d = Asm.run .rsp (loads .rsp trapGprs) c := ⟨_, rfl⟩
  have runs : execs leaveIdtHandler t =
      execs [.plain (.add .rsp 0x78), .plain (.add .rsp 8)] { t with cpu := d } := by
    rw [leaveIdtHandler, Vmx.execs_append, Vmx.execs_append, Vmx.execs_plain, hd, hc]
    rfl
  have kept : d.memory = c.memory := by rw [hd, Asm.memory_loads]
  have top : d.reg .rsp = frame := by rw [hd, Asm.reg_loads_other rsp_notMem_trapGprs, rsp]
  rw [runs]
  refine ⟨fun s mem => ?_, ?_, kept.trans memory⟩
  · have ne := ne_rsp_of_mem mem
    have loaded : d.reg s.1 = load c.memory (c.reg .rsp + s.2) := by
      rw [hd]
      exact Asm.reg_loads trapGprs_nodup rsp_notMem_trapGprs mem
    refine (Asm.Cpu.reg_set_of_ne _ _ _ _ ne).trans
      ((Asm.Cpu.reg_set_of_ne _ _ _ _ ne).trans (loaded.trans ?_))
    rw [rsp, memory,
      Asm.load_store_apart ((vector_apart (.inr (List.mem_map_of_mem mem))).add frame)]
  · have moved : (execs [.plain (.add .rsp 0x78), .plain (.add .rsp 8)]
      { t with cpu := d }).reg .rsp =
        d.reg .rsp + 0x78 + 8 := rfl
    rw [moved, top, TRAP_ERROR]
    bv_omega

section Finish
variable (h : Unwound frame t q)
include h

theorem Unwound.word {o : BitVec 64} (mem : o ∈ machineOffsets) : load q.memory (frame + o) =
    load t.memory (frame + o) := by
  rw [h.memory, Asm.load_store_apart ((vector_apart (.inl mem)).add frame)]

theorem Unwound.result : load q.memory (q.reg .rsp - 8) = t.reg .rax := by
  have vector : q.reg .rsp - 8 = frame + TRAP_VECTOR := by
    rw [h.rsp, TRAP_ERROR, TRAP_VECTOR]
    bv_omega
  rw [vector, h.memory, Asm.load_store_self]

/-- With 0 from ALhvIdtHandler, iretq takes the machine frame. -/
theorem Unwound.iretq (handled : t.reg .rax = 0) : ∃ r, m.finish q =
      .iretq r (load t.memory (frame + TRAP_CS)) (load t.memory (frame + TRAP_SS)) ∧
    (∀ s ∈ trapGprs, r.reg s.1 = load t.memory (frame + s.2)) ∧ r.reg .rsp =
      load t.memory (frame + TRAP_RSP) ∧
      r.rip = load t.memory (frame + TRAP_RIP) ∧ r.rflags = load t.memory (frame + TRAP_RFLAGS) ∧
        r.memory = q.memory := by
  obtain ⟨d, hd⟩ : ∃ d, d = execs [.plain (.add .rsp 8)] q := ⟨_, rfl⟩
  have memory : d.memory = q.memory := by rw [hd]; rfl
  have at8 (k o : BitVec 64) (sum : TRAP_ERROR + 8 + k = o) : d.reg .rsp + k = frame + o := by
    have rsp : d.reg .rsp = q.reg .rsp + 8 := by rw [hd]; rfl
    rw [rsp, h.rsp, ← sum, BitVec.add_assoc, BitVec.add_assoc, BitVec.add_assoc]
  have word (k o : BitVec 64) (sum : TRAP_ERROR + 8 + k = o) (mem : o ∈ machineOffsets) :
      load d.memory (d.reg .rsp + k) = load t.memory (frame + o) := by
    rw [at8 k o sum, memory, h.word mem]
  have ends : m.finish q = Host.iretq d := by rw [IsrMacro.finish, h.result, if_pos handled, hd]
  have popped : Host.iretq d = .iretq { d with
      rip := load t.memory (frame + TRAP_RIP)
      rflags := load t.memory (frame + TRAP_RFLAGS)
      cpu := d.cpu.set .rsp (load t.memory (frame + TRAP_RSP)) }
      (load t.memory (frame + TRAP_CS)) (load t.memory (frame + TRAP_SS)) := by
    simp only [Host.iretq, word 0 TRAP_RIP rfl (by decide), word 8 TRAP_CS rfl (by decide),
      word 0x10 TRAP_RFLAGS rfl (by decide), word 0x18 TRAP_RSP rfl (by decide),
        word 0x20 TRAP_SS rfl (by decide)]
  refine ⟨_, ends.trans popped, fun s mem => ?_, Asm.Cpu.reg_set_self _ _ _, rfl, rfl, memory⟩
  refine (Asm.Cpu.reg_set_of_ne _ _ _ _ (ne_rsp_of_mem mem)).trans
    ((?_ : d.reg s.1 = _).trans (h.gpr s mem))
  rw [hd]
  exact Asm.Cpu.reg_set_of_ne _ _ _ _ (ne_rsp_of_mem mem)

end Finish

end Leave

section Host
variable {system idt : Idt} {tss : BitVec 3 → BitVec 64} {address : BitVec 32 → BitVec 64}
  {handler : IdtHandler}
  {x : Exception} {info : ExceptionInfo} {p : Processor}

/-- The gate that an exception goes through. -/
def Exception.gate (x : Exception) (idt : Idt) : Idte := idt (x.fault.vector.setWidth 8)

/-- The gate of a hooked vector leads to the procedure that idt_.asm declares for it. -/
theorem hostException_isr (prepared : alHvIdtPrepareHostIdt true (some system) address = some idt)
    (distinct : ∀ u ∈ hookedVectors, ∀ v ∈ hookedVectors, address u = address v → u = v)
    (tss : BitVec 3 → BitVec 64) (handler : IdtHandler) (x : Exception) (info : ExceptionInfo)
    (p : Processor) :
    ∃ m, (x.fault.vector, m) ∈ isrs ∧ hostException idt tss address handler x info p =
      let (info, t) := handler info (trapped m x (x.gate idt) tss p)
      some (info, m.finish (execs leaveIdtHandler t)) := by
  have leads : (x.deliver (x.gate idt) tss p).rip = address x.fault.vector :=
    ((alHvIdtPrepareHostIdt_gates prepared).1 x.fault.vector x.fault.hooked).1
  obtain ⟨m, mem⟩ := isrs_mem x.fault.hooked
  have some' : (isrs.find? fun i => address i.1 = (x.deliver (x.gate idt) tss p).rip).isSome := by
    rw [List.find?_isSome]
    exact ⟨_, mem, decide_eq_true leads.symm⟩
  obtain ⟨⟨u, m'⟩, found⟩ := Option.isSome_iff_exists.mp some'
  have here : (u, m') ∈ isrs := List.mem_of_find?_eq_some found
  have hit : address u = (x.deliver (x.gate idt) tss p).rip := by simpa using List.find?_some found
  have same : u = x.fault.vector := by
    refine distinct u ?_ _ x.fault.hooked (hit.trans leads)
    rw [← isrs_vectors]
    exact List.mem_map_of_mem here
  subst same
  refine ⟨m', here, ?_⟩
  rw [hostException]
  change ((isrs.find? fun i => address i.1 = (x.deliver (x.gate idt) tss p).rip).map _) = _
  rw [found]
  rfl

/-- The words of a frame. -/
def trapOffsets : List (BitVec 64) := machineOffsets ++ TRAP_VECTOR :: trapGprs.map Prod.snd

/-- The compiled ALhvIdtHandler with safe_handler alone: it returns 0 when that handles the
exception. -/
def SafeHandles (handler : IdtHandler) : Prop :=
  ∀ info c info' m, safeHandlerFrame (c.reg .rcx) info c.memory = some (info', m) →
    (handler info c).1 = info' ∧ (handler info c).2.reg .rax = 0 ∧
      (handler info c).2.reg .rsp = c.reg .rsp ∧
      ∀ o ∈ trapOffsets, load (handler info c).2.memory (c.reg .rcx + o) = load m (c.reg .rcx + o)

variable {gate : Idte} {m : IsrMacro} {c : Processor} {frame : BitVec 64}

theorem trapFrame_offsets : (trapFrame x p).map Prod.fst = trapOffsets := by
  rw [trapFrame, List.map_append, List.map_map, trapOffsets]
  rfl

theorem trapFrame_inside {w : Asm.Address × BitVec 64} (mem : w ∈ trapFrame x p) :
    w.1 ≤ TRAP_SIZE - 8 := by
  have all : trapOffsets.all fun o => decide (o ≤ TRAP_SIZE - 8) := by decide +kernel
  have offset : w.1 ∈ trapOffsets := trapFrame_offsets (x := x) (p := p) ▸ List.mem_map_of_mem mem
  exact of_decide_eq_true (List.all_eq_true.mp all w.1 offset)

theorem trapGprs_low {s : Register × BitVec 64} (slot : s ∈ trapGprs) : s.2 < TRAP_VECTOR := by
  have all : trapGprs.all fun s => decide (s.2 < TRAP_VECTOR) := by decide
  exact of_decide_eq_true (List.all_eq_true.mp all s slot)

theorem trapOffsets_ne {o o' : BitVec 64} (mem : o ∈ trapOffsets) (mem' : o' ∈ trapOffsets)
    (ne : o ≠ o') :
    Apart o o' := trapOffsets_apart.forall mem mem' ne

/-- The memory holds the frame of an exception. -/
structure InFrame (frame : BitVec 64) (x : Exception) (p : Processor) (m : Asm.Memory) : Prop where
  ss : load m (frame + TRAP_SS) = x.ss
  rsp : load m (frame + TRAP_RSP) = p.reg .rsp
  rflags : load m (frame + TRAP_RFLAGS) = x.rflags
  cs : load m (frame + TRAP_CS) = x.cs
  rip : load m (frame + TRAP_RIP) = p.rip
  error : load m (frame + TRAP_ERROR) = x.fault.error.setWidth 64
  vector : load m (frame + TRAP_VECTOR) = x.fault.vector.setWidth 64
  gpr : ∀ s ∈ trapGprs, load m (frame + s.2) = p.reg s.1

theorem Trapped.word (h : Trapped frame x p c) : ∀ w ∈ trapFrame x p,
    load c.memory (frame + w.1) = w.2 := by
  intro w mem
  rw [h.memory]
  exact Asm.load_storeAll (List.pairwise_map.mp (trapFrame_offsets ▸ trapOffsets_apart)) mem

theorem Trapped.inFrame (h : Trapped frame x p c) : InFrame frame x p c.memory := by
  obtain ⟨machine, gprs⟩ := List.forall_mem_append.mp h.word
  simp only [machineFrame, List.forall_mem_cons, List.not_mem_nil, IsEmpty.forall_iff, implies_true,
    and_true] at machine
  obtain ⟨ss, rsp, rflags, cs, rip, error, vector⟩ := machine
  exact ⟨ss, rsp, rflags, cs, rip, error, vector, fun s mem => gprs (s.2, p.reg s.1)
    (List.mem_map.mpr ⟨s, mem, rfl⟩)⟩

theorem Trapped.outside (h : Trapped frame x p c) {a : BitVec 64}
    (outside : Outside frame TRAP_SIZE a) :
    load c.memory a = load p.memory a := by
  rw [h.memory, Asm.load_storeAll_apart fun w mem => ?_]
  exact (outside.apart (by decide) (trapFrame_inside mem)).symm

/-- What the machine frame and the registers come to behind safe_handler. -/
structure Rewound (x : Exception) (p q : Processor) : Prop where
  rip : q.rip = load p.memory (p.reg .rsp)
  rsp : q.reg .rsp = p.reg .rsp + 8
  gpr : ∀ s ∈ trapGprs, q.reg s.1 = p.reg s.1
  rflags : q.rflags = x.rflags

theorem Trapped.rewritten (h : Trapped frame x p c) (outside : Outside frame TRAP_SIZE (p.reg .rsp))
    (monitored : info.monitor = true) : ∃ m, safeHandlerFrame frame info c.memory =
    some ((safeHandler info x.fault).2, m) ∧
      load m (frame + TRAP_RIP) = load p.memory (p.reg .rsp) ∧ load m (frame + TRAP_RSP) =
        p.reg .rsp + 8 ∧
      ∀ o ∈ trapOffsets, o ≠ TRAP_RIP → o ≠ TRAP_RSP → load m (frame + o) =
        load c.memory (frame + o) := by
  have inFrame := h.inFrame
  have apart {o o' : BitVec 64} (h : Apart o o') (m : Asm.Memory) (v : BitVec 64) :
      load (store m (frame + o) v) (frame + o') = load m (frame + o') :=
        Asm.load_store_apart (h.add frame)
  have back (v : BitVec 32) : (v.setWidth 64).setWidth 32 = v := by simp
  refine ⟨store (store c.memory (frame + TRAP_RIP) (load p.memory (p.reg .rsp))) (frame + TRAP_RSP)
    (p.reg .rsp + 8), ?_, ?_, ?_, fun o mem rip rsp => ?_⟩
  · simp only [safeHandlerFrame, safeHandler, monitored, Bool.not_true,
      Bool.false_eq_true, if_false,
      inFrame.vector, inFrame.error, back,
        apart (show Apart TRAP_RIP TRAP_RSP by decide), inFrame.rsp,
      h.outside outside]
  · rw [apart (by decide), Asm.load_store_self]
  · rw [Asm.load_store_self]
  · rw [apart (trapOffsets_ne (by decide) mem rsp.symm),
      apart (trapOffsets_ne (by decide) mem rip.symm)]

/-- Without an IST the frame is below the stack. -/
theorem Exception.outside (ist : gate.interruptStackTable = 0) (rsp : BitVec 64) :
    Outside (Exception.frame gate tss rsp) TRAP_SIZE rsp := by
  have aligned : (rsp &&& ~~~0xF).toNat = rsp.toNat - rsp.toNat % 16 := by
    have low : (0xF : BitVec 64).toNat = 2 ^ 4 - 1 := rfl
    rw [BitField.toNat_and_not_low low]
    omega
  rw [Exception.frame, Exception.stack, if_pos ist]
  generalize rsp &&& ~~~0xF = top at aligned ⊢
  have below : top ≤ rsp := by
    rw [BitVec.le_def]
    omega
  have near : rsp - top < 16 := by
    have bound : (16 : BitVec 64).toNat = 16 := rfl
    rw [BitVec.lt_def, BitVec.toNat_sub_of_le below, bound]
    omega
  rw [TRAP_SIZE]
  refine ⟨by bv_omega, by bv_omega⟩

/-- An exception in a leaf ends as a return from it: everything but rip and rsp is as it was, and
OR_EXCEPTION_INFO as safe_handler has it. -/
theorem hostException_rewinds (prepared :
    alHvIdtPrepareHostIdt true (some system) address = some idt)
    (distinct : ∀ u ∈ hookedVectors, ∀ v ∈ hookedVectors, address u = address v → u = v)
    (handles : SafeHandles handler) (monitored : info.monitor = true)
    (outside : (x.gate idt).interruptStackTable = 0 ∨
      Outside (Exception.frame (x.gate idt) tss (p.reg .rsp)) TRAP_SIZE (p.reg .rsp)) :
    ∃ q, hostException idt tss address handler x info p =
      some ((safeHandler info x.fault).2, .iretq q x.cs x.ss) ∧
      Rewound x p q := by
  have stacked : Outside (Exception.frame (x.gate idt) tss (p.reg .rsp)) TRAP_SIZE
    (p.reg .rsp) := by
    rcases outside with ist | given
    · exact Exception.outside ist _
    · exact given
  obtain ⟨m, mem, run⟩ := hostException_isr prepared distinct tss handler x info p
  have trapped := trapped_frame (x.gate idt) tss p mem
  obtain ⟨c, hc⟩ : ∃ c, c = Host.trapped m x (x.gate idt) tss p := ⟨_, rfl⟩
  obtain ⟨frame, hframe⟩ : ∃ frame, frame =
    Exception.frame (x.gate idt) tss (p.reg .rsp) := ⟨_, rfl⟩
  rw [← hc, ← hframe] at trapped
  rw [← hframe] at stacked
  rw [← hc] at run
  obtain ⟨m', frame', rip, rsp, kept⟩ := trapped.rewritten stacked monitored
  rw [← trapped.argument] at frame'
  obtain ⟨found, zero, stack, words⟩ := handles _ _ _ _ frame'
  rw [trapped.argument] at words
  have unwound := leaveIdtHandler_unwound (stack.trans trapped.stack)
  obtain ⟨q, ends, gpr, rsp', rip', rflags, -⟩ := unwound.iretq (m := m) zero
  have same {o : BitVec 64} (mem : o ∈ trapOffsets) (ne : o ≠ TRAP_RIP) (ne' : o ≠ TRAP_RSP) :
      load (handler info c).2.memory (frame + o) = load c.memory (frame + o) :=
        (words o mem).trans (kept o mem ne ne')
  have inFrame := trapped.inFrame
  have cs := (same (o := TRAP_CS) (by decide) (by decide) (by decide)).trans inFrame.cs
  have ss := (same (o := TRAP_SS) (by decide) (by decide) (by decide)).trans inFrame.ss
  refine ⟨q, ?_, ?_, ?_, fun s slot => ?_, ?_⟩
  · rw [run]
    simp only [found, ends, cs, ss]
  · rw [rip', words _ (by decide), rip]
  · rw [rsp', words _ (by decide), rsp]
  · have offset : s.2 ∈ trapGprs.map Prod.snd := List.mem_map_of_mem slot
    have low : s.2 < TRAP_VECTOR := trapGprs_low slot
    have rip : s.2 ≠ TRAP_RIP := by
      intro at'
      exact absurd (at' ▸ low) (by decide)
    have rsp : s.2 ≠ TRAP_RSP := by
      intro at'
      exact absurd (at' ▸ low) (by decide)
    rw [gpr s slot, same (List.mem_append_right _ (List.mem_cons_of_mem _ offset)) rip rsp,
      inFrame.gpr s slot]
  · rw [rflags, same (by decide) (by decide) (by decide), inFrame.rflags]

end Host

section PageFault
open Function (update)
open Vmx (idleProcessor)

/-- ALhvIdtHandler with its stack left out. -/
def bareHandler : IdtHandler := fun info c =>
  match safeHandlerFrame (c.reg .rcx) info c.memory with
  | some (info, m) => (info, { c with cpu := ⟨update c.reg .rax 0, m⟩ })
  | none => (info, c)

theorem bareHandler_handles : SafeHandles bareHandler := by
  intro info c info' m frame
  have runs : bareHandler info c = (info', { c with cpu := ⟨update c.reg .rax 0, m⟩ }) :=
    by rw [bareHandler, frame]
  rw [runs]
  exact ⟨rfl, rfl, rfl, fun _ _ => rfl⟩

/-- A write to a page that is not there. -/
def pageFault : Exception where
  fault := ⟨14, 2, by decide⟩
  cs := 0x10
  ss := 0x18
  rflags := 0x10202
  plain code := absurd code (by decide)

def isrAddress (v : BitVec 32) : BitVec 64 := 0xFFFFF80000001000 + v.setWidth 64 * 0x20

theorem isrAddress_distinct : ∀ u ∈ hookedVectors, ∀ v ∈ hookedVectors, isrAddress u =
    isrAddress v → u = v := by
  have all : hookedVectors.all fun u => hookedVectors.all fun v =>
    decide (isrAddress u = isrAddress v → u = v) := by
    decide +kernel
  intro u hu v hv
  exact of_decide_eq_true (List.all_eq_true.mp (List.all_eq_true.mp all u hu) v hv)

theorem hostException_rewinds_pageFault : ∃ idt q,
    alHvIdtPrepareHostIdt true (some fun _ => 0) isrAddress = some idt ∧
    hostException idt (fun _ => 0) isrAddress bareHandler pageFault ⟨true, false, 0, 0⟩
      idleProcessor =
      some (⟨true, true, 14, 2⟩, .iretq q 0x10 0x18) ∧ q.reg .rsp = 0x5008 := by
  obtain ⟨idt, prepared⟩ : ∃ idt, alHvIdtPrepareHostIdt true (some fun _ => 0) isrAddress =
    some idt := ⟨_, rfl⟩
  have ist : (pageFault.gate idt).interruptStackTable = 0 := by
    cases prepared
    decide +kernel
  have rewinds : ∃ q, hostException idt (fun _ => 0) isrAddress bareHandler pageFault ⟨true, false,
    0, 0⟩ idleProcessor =
      some ((safeHandler ⟨true, false, 0, 0⟩ pageFault.fault).2, .iretq q 0x10 0x18) ∧
        Rewound pageFault idleProcessor q :=
    hostException_rewinds prepared isrAddress_distinct bareHandler_handles rfl (.inl ist)
  obtain ⟨q, run, back⟩ := rewinds
  exact ⟨idt, q, prepared, run, back.rsp⟩

end PageFault

end LMalz.Host
