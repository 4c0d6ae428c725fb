import LMalz.Host.SafeCopy
import LMalz.Lib.Transition
import LMalz.Vmx.Emulation

/- The monitored operations of idt.cpp, instruction by instruction, with NMIs at any of them. -/
namespace LMalz.Host
open Function (update)
open Vmx (ExceptionInfo Fault safeHandler safeCall faultOf)

/-- What an operation works on, its OR_EXCEPTION_INFO, and the NMIs of the core: those received,
those delivered to the guest, and queued_nmis. -/
structure HostCore where
  info : ExceptionInfo
  rax : BitVec 64
  rcx : BitVec 64
  rdx : BitVec 64
  memory : VirtualMemory
  msrs : Mtrr.Msrs
  xcr0 : BitVec 64
  received : Nat
  delivered : Nat
  queuedNmis : BitVec 64

/-- The bytes of a register, set from the lowest on. -/
def fillBytes (v : BitVec 64) (byte : Nat → BitVec 8) : Nat → BitVec 64
  | 0 => v
  | k + 1 => BitField.set (fillBytes v byte k) (8 * k) (byte k)

def storeBytes (m : VirtualMemory) (add v : BitVec 64) : Nat → VirtualMemory
  | 0 => m
  | k + 1 => update (storeBytes m add v k) (cell add k) (BitField.get v (8 * k) 8)

inductive Pointer where
  | rcx
  | rdx

def Pointer.add (c : HostCore) : Pointer → BitVec 64
  | .rcx => c.rcx
  | .rdx => c.rdx

/-- The instructions of the leaves in idt_.asm, without their ret. -/
inductive Instruction where
  | load (n : Nat) (p : Pointer)
  | store (n : Nat)
  | andRcx
  | movEaxEdx
  | shrRdx
  | shlRdx
  | orRaxRdx
  | rdmsr
  | wrmsr
  | xsetbv

def readMemoryAsm (n : Nat) : List Instruction := [.load n .rcx]
def writeMemoryLeaf (n : Nat) : List Instruction := [.load n .rdx, .store n]
def xsetbvAsm : List Instruction := [.andRcx, .movEaxEdx, .shrRdx, .xsetbv]
def rdmsrAsm : List Instruction := [.rdmsr, .shlRdx, .orRaxRdx]
def wrmsrAsm : List Instruction := [.movEaxEdx, .shrRdx, .wrmsr]

/-- EDX:EAX. -/
def HostCore.edxEax (c : HostCore) : BitVec 64 := (c.rdx <<< 32) ||| (c.rax &&& 0xFFFFFFFF#64)

section Exec
variable (access : Access) (host : Vmx.Host)

/-- An instruction that faults changes nothing. `mov eax` clears the upper half of rax, `mov ax` and
`mov al` keep the rest. -/
def Instruction.exec (c : HostCore) : Instruction → Except Fault HostCore
  | .load n p =>
      if ∀ k < n, access.readable (cell (p.add c) k) = true then
        .ok { c with
          rax := fillBytes (if n = 4 then 0 else c.rax) (fun k => c.memory (cell (p.add c) k)) n }
      else .error (access.loadFault (p.add c) n)
  | .store n =>
      if ∀ k < n, access.writable (cell c.rcx k) = true then
        .ok { c with memory := storeBytes c.memory c.rcx c.rax n }
      else .error (access.storeFault c.rcx n)
  | .andRcx => .ok { c with rcx := c.rcx &&& 0xFFFFFFFF#64 }
  | .movEaxEdx => .ok { c with rax := c.rdx &&& 0xFFFFFFFF#64 }
  | .shrRdx => .ok { c with rdx := c.rdx >>> 32 }
  | .shlRdx => .ok { c with rdx := c.rdx <<< 32 }
  | .orRaxRdx => .ok { c with rax := c.rax ||| c.rdx }
  | .rdmsr => do
      let v ← host.rdmsr c.msrs (c.rcx.setWidth 32)
      return { c with rax := v &&& 0xFFFFFFFF#64, rdx := v >>> 32 }
  | .wrmsr => do
      let msrs ← host.wrmsr c.msrs (c.rcx.setWidth 32) c.edxEax
      return { c with msrs := msrs }
  | .xsetbv =>
      match host.xsetbv (c.rcx.setWidth 32) c.edxEax with
      | none => .ok { c with xcr0 := c.edxEax }
      | some f => .error f

end Exec

/-- A call of a leaf with its two arguments. -/
structure LeafCall where
  leaf : List Instruction
  rcx : BitVec 64
  rdx : BitVec 64

/-- ALhvIDTsafeRead8 to ALhvIDTsafeRead64, ALhvIDTsafeCopy, ALhvIDTsafeRdmsr, ALhvIDTsafeWrmsr and
ALhvIDTsafeXsetbv. A register that is no argument holds anything. -/
inductive Operation where
  | read (n : Nat) (add rest : BitVec 64)
  | copy (desAdd souAdd size : BitVec 64)
  | rdmsr (msr : BitVec 32) (rest : BitVec 64)
  | wrmsr (msr : BitVec 32) (value : BitVec 64)
  | xsetbv (idx : BitVec 32) (value : BitVec 64)

namespace Operation

def calls : Operation → List LeafCall
  | read n add rest => [⟨readMemoryAsm n, add, rest⟩]
  | copy desAdd souAdd size => (Send.copyUnits size.toNat).map fun (o, n) =>
      ⟨writeMemoryLeaf n, cell desAdd o, cell souAdd o⟩
  | rdmsr msr rest => [⟨rdmsrAsm, msr.setWidth 64, rest⟩]
  | wrmsr msr value => [⟨wrmsrAsm, msr.setWidth 64, value⟩]
  | xsetbv idx value => [⟨xsetbvAsm, idx.setWidth 64, value⟩]

/-- Only ALhvIDTsafeCopy looks at `find` after a call. -/
def checks : Operation → Bool
  | copy .. => true
  | _ => false

end Operation

/-- The statements of safe_handler. -/
inductive SafeHandlerAt where
  | test
  | find
  | vector
  | errorCode
  | rewind

/-- Where the core is. `calls` is in front of the next call or of `info->monitor = 0`, `leaf` inside a
leaf, `check` in front of the test of `find`, `fail` behind a test that held. -/
inductive Control where
  | setMonitor
  | clearFind
  | calls (pending : List LeafCall)
  | leaf (rest : List Instruction) (pending : List LeafCall)
  | handler (stage : SafeHandlerAt) (f : Fault) (pending : List LeafCall)
  | check (pending : List LeafCall)
  | fail
  | done (result : Bool)
  | killed
  | astray

/-- `raised` keeps the exceptions that instructions of the operation raised. -/
structure Config where
  control : Control
  core : HostCore
  raised : List Fault

def Config.running (cfg : Config) : Prop :=
  match cfg.control with
  | .done _ | .killed | .astray => False
  | _ => True

def begin (core : HostCore) : Config := ⟨.setMonitor, core, []⟩

def HostCore.setInfo (c : HostCore) (info : ExceptionInfo) : HostCore := { c with info := info }

section Step
variable (access : Access) (host : Vmx.Host) (op : Operation)

def Operation.afterCall (pending : List LeafCall) : Control :=
  if op.checks then .check pending else .calls pending

/-- What comes next without an NMI. -/
def Config.next (cfg : Config) : Config :=
  let ⟨control, core, raised⟩ := cfg
  let info := core.info
  match control with
  | .setMonitor => ⟨.clearFind, core.setInfo { info with monitor := true }, raised⟩
  | .clearFind => ⟨.calls op.calls, core.setInfo { info with find := false }, raised⟩
  | .calls [] => ⟨.done true, core.setInfo { info with monitor := false }, raised⟩
  | .calls (call :: pending) =>
      ⟨.leaf call.leaf pending, { core with rcx := call.rcx, rdx := call.rdx }, raised⟩
  | .leaf [] pending => ⟨op.afterCall pending, core, raised⟩
  | .leaf (i :: rest) pending =>
      match i.exec access host core with
      | .ok core => ⟨.leaf rest pending, core, raised⟩
      | .error f => ⟨.handler .test f pending, core, raised ++ [f]⟩
  | .handler .test f pending =>
      if info.monitor then ⟨.handler .find f pending, core, raised⟩ else ⟨.killed, core, raised⟩
  | .handler .find f pending =>
      ⟨.handler .vector f pending, core.setInfo { info with find := true }, raised⟩
  | .handler .vector f pending =>
      ⟨.handler .errorCode f pending, core.setInfo { info with vector := f.vector }, raised⟩
  | .handler .errorCode f pending =>
      ⟨.handler .rewind f pending, core.setInfo { info with errorCode := f.error }, raised⟩
  | .handler .rewind _ pending => ⟨op.afterCall pending, core, raised⟩
  | .check pending => ⟨if info.find then .fail else .calls pending, core, raised⟩
  | .fail => ⟨.done false, core.setInfo { info with monitor := false }, raised⟩
  | .done result => ⟨.done result, core, raised⟩
  | .killed => ⟨.killed, core, raised⟩
  | .astray => ⟨.astray, core, raised⟩

/-- The gate of vector 2 pushes 0 for an error code. -/
def nmiFault : Fault := ⟨Vmx.nmi, 0, by decide⟩

/-- rip becomes the word at rsp, which is a return address in a leaf only. -/
def Operation.rewound : Control → Control
  | .leaf _ pending => op.afterCall pending
  | _ => .astray

/-- The NMI comes through the gate of the host. -/
def interrupted (cfg : Config) : Config :=
  let core := { cfg.core with received := cfg.core.received + 1 }
  let (handled, info) := safeHandler core.info nmiFault
  ⟨if handled then op.rewound cfg.control else .killed, core.setInfo info, cfg.raised⟩

inductive Event where
  | exec
  | nmi
  deriving DecidableEq

/-- Before every instruction of a running operation an NMI may come. -/
inductive Step : Config → Event → Config → Prop
  | exec {cfg : Config} : cfg.running → Step cfg .exec (cfg.next access host op)
  | nmi {cfg : Config} : cfg.running → Step cfg .nmi (interrupted op cfg)

end Step

def Config.ended (cfg : Config) : Prop := ¬ cfg.running

section Undisturbed
variable (access : Access) (host : Vmx.Host) (op : Operation)

/-- The rest of a leaf, up to its ret or its first fault. -/
def leafResult : List Instruction → HostCore → HostCore
  | [], c => c
  | i :: rest, c =>
      match i.exec access host c with
      | .ok c => leafResult rest c
      | .error f => c.setInfo (safeHandler c.info f).2

def HostCore.unmonitored (c : HostCore) : HostCore := c.setInfo { c.info with monitor := false }

def callsResult : List LeafCall → HostCore → Bool × HostCore
  | [], c => (true, c.unmonitored)
  | call :: pending, c =>
      let c := leafResult access host call.leaf { c with rcx := call.rcx, rdx := call.rdx }
      if op.checks = true ∧ c.info.find = true then (false, c.unmonitored) else callsResult pending c

/-- An operation without an NMI: what it returns and what it leaves behind. -/
def undisturbed (c : HostCore) : Bool × HostCore :=
  callsResult access host op op.calls (c.setInfo { c.info with monitor := true, find := false })

/-- The rest of an operation behind a leaf. -/
def afterResult (pending : List LeafCall) (c : HostCore) : Bool × HostCore :=
  if op.checks = true ∧ c.info.find = true then (false, c.unmonitored)
  else callsResult access host op pending c

/-- The end of a run without an NMI, from any point of it on. -/
def Config.result (cfg : Config) : Bool × HostCore :=
  let c := cfg.core
  match cfg.control with
  | .setMonitor | .clearFind => undisturbed access host op c
  | .calls pending => callsResult access host op pending c
  | .leaf rest pending => afterResult access host op pending (leafResult access host rest c)
  | .handler _ f pending => afterResult access host op pending
      (c.setInfo { c.info with find := true, vector := f.vector, errorCode := f.error })
  | .check pending => afterResult access host op pending c
  | .fail => (false, c.unmonitored)
  | .done result => (result, c)
  | .killed | .astray => (false, c)

end Undisturbed

section Refinement
variable {access : Access} {host : Vmx.Host} {c : HostCore}

theorem get_fillBytes (v : BitVec 64) (byte : Nat → BitVec 8) {n k : Nat} (inside : k < n) (small : n ≤ 8) :
    BitField.get (fillBytes v byte n) (8 * k) 8 = byte k := by
  induction n with
  | zero => exact absurd inside (Nat.not_lt_zero k)
  | succ n ih =>
      rw [fillBytes]
      by_cases last : k = n
      · subst last
        exact BitField.get_set _ (by omega)
      · rw [BitField.get_set_apart _ (by omega)]
        exact ih (by omega) (by omega)

theorem storeBytes_fillBytes (m : VirtualMemory) (v toAdd fromAdd : BitVec 64) {n : Nat} (small : n ≤ 8) :
    storeBytes m toAdd (fillBytes v (fun k => m (cell fromAdd k)) n) n =
      ByteCopy.move (cell toAdd) (cell fromAdd) m n := by
  have part (i : Nat) (inside : i ≤ n) :
      storeBytes m toAdd (fillBytes v (fun k => m (cell fromAdd k)) n) i =
        ByteCopy.move (cell toAdd) (cell fromAdd) m i := by
    induction i with
    | zero => rfl
    | succ i ih =>
        rw [storeBytes, ByteCopy.move, ih (by omega), get_fillBytes _ _ (by omega) small]
  exact part n (Nat.le_refl n)

theorem leafResult_ok {i : Instruction} {rest : List Instruction} {c' : HostCore}
    (run : i.exec access host c = .ok c') :
    leafResult access host (i :: rest) c = leafResult access host rest c' := by
  simp only [leafResult, run]

theorem leafResult_error {i : Instruction} {rest : List Instruction} {f : Fault}
    (run : i.exec access host c = .error f) :
    leafResult access host (i :: rest) c = c.setInfo (safeHandler c.info f).2 := by
  simp only [leafResult, run]

/-- The leaf moves its bytes as the model of the copy has it. -/
theorem leafResult_writeMemory {n : Nat} (small : n ≤ 8) :
    let c' := leafResult access host (writeMemoryLeaf n) c
    (c'.info, c'.memory) = writeMemoryAsm access n c.rcx c.rdx c.info c.memory := by
  unfold writeMemoryAsm writeMemoryLeaf
  by_cases read : ∀ k < n, access.readable (cell c.rdx k) = true
  · rw [if_pos read]
    have loaded : (Instruction.load n .rdx).exec access host c = .ok _ := if_pos read
    by_cases write : ∀ k < n, access.writable (cell c.rcx k) = true
    · have stored (rax : BitVec 64) : (Instruction.store n).exec access host { c with rax := rax } =
          .ok { c with rax := rax, memory := storeBytes c.memory c.rcx rax n } := if_pos write
      rw [if_pos write, leafResult_ok loaded, leafResult_ok (stored _)]
      exact congrArg (c.info, ·) (storeBytes_fillBytes c.memory _ c.rcx c.rdx small)
    · have stored (rax : BitVec 64) : (Instruction.store n).exec access host { c with rax := rax } =
          .error (access.storeFault c.rcx n) := if_neg write
      rw [if_neg write, leafResult_ok loaded, leafResult_error (stored _)]
      rfl
  · have loaded : (Instruction.load n .rdx).exec access host c = .error (access.loadFault c.rdx n) := if_neg read
    rw [if_neg read, leafResult_error loaded]
    rfl

theorem callsResult_copy (desAdd souAdd size : BitVec 64) (units : List (Nat × Nat))
    (small : ∀ u ∈ units, u.2 ≤ 8) (c : HostCore) :
    let r := callsResult access host (.copy desAdd souAdd size)
      (units.map fun (o, n) => ⟨writeMemoryLeaf n, cell desAdd o, cell souAdd o⟩) c
    (r.1, r.2.info, r.2.memory) = safeCopyUnits access desAdd souAdd units c.info c.memory := by
  induction units generalizing c with
  | nil => rfl
  | cons u us ih =>
      obtain ⟨o, n⟩ := u
      let c₁ := leafResult access host (writeMemoryLeaf n) { c with rcx := cell desAdd o, rdx := cell souAdd o }
      have leaf : (c₁.info, c₁.memory) =
          writeMemoryAsm access n (cell desAdd o) (cell souAdd o) c.info c.memory :=
        leafResult_writeMemory (small (o, n) List.mem_cons_self)
      rw [safeCopyUnits, ← leaf]
      simp only [List.map_cons, callsResult, Operation.checks, true_and]
      by_cases found : c₁.info.find = true
      · have stopped : (leafResult access host (writeMemoryLeaf n)
            { c with rcx := cell desAdd o, rdx := cell souAdd o }).info.find = true := found
        rw [if_pos found, if_pos stopped]
        rfl
      · have moved : ¬ (leafResult access host (writeMemoryLeaf n)
            { c with rcx := cell desAdd o, rdx := cell souAdd o }).info.find = true := found
        rw [if_neg found, if_neg moved]
        exact ih (fun u later => small u (List.mem_cons_of_mem _ later)) c₁

theorem undisturbed_copy (desAdd souAdd size : BitVec 64) (c : HostCore) :
    let r := undisturbed access host (.copy desAdd souAdd size) c
    (r.1, r.2.info, r.2.memory) = alHvIdtSafeCopy access desAdd souAdd size c.info c.memory :=
  callsResult_copy desAdd souAdd size _ (fun _ unit => Send.copyUnits_small unit) _

theorem halves_or (v : BitVec 64) : (v &&& 0xFFFFFFFF#64) ||| (v >>> 32 <<< 32) = v := by
  have mask : (0xFFFFFFFF#64).toNat = 2 ^ 32 - 1 := by decide
  rw [← BitField.and_not_low mask]
  apply BitVec.eq_of_getLsbD_eq
  intro i hi
  simp only [BitVec.getLsbD_or, BitVec.getLsbD_and, BitVec.getLsbD_not, hi, decide_true, Bool.true_and]
  cases v.getLsbD i <;> simp

/-- An operation of one call and no check. -/
theorem undisturbed_single {op : Operation} {call : LeafCall} (single : op.calls = [call])
    (unchecked : op.checks = false) (c : HostCore) :
    undisturbed access host op c = (true, (leafResult access host call.leaf
      { c with
        info := { c.info with monitor := true, find := false }
        rcx := call.rcx
        rdx := call.rdx }).unmonitored) := by
  simp [undisturbed, callsResult, single, unchecked, HostCore.setInfo]

theorem undisturbed_rdmsr (msr : BitVec 32) (rest : BitVec 64) (c : HostCore) :
    let c' := (undisturbed access host (.rdmsr msr rest) c).2
    c'.info = safeCall c.info (faultOf (host.rdmsr c.msrs msr)) ∧
      ∀ v, host.rdmsr c.msrs msr = .ok v → c'.rax = v := by
  have same : (msr.setWidth 64).setWidth 32 = msr := by simp
  rw [undisturbed_single rfl rfl]
  cases read : host.rdmsr c.msrs msr with
  | error f =>
      simp [leafResult, rdmsrAsm, Instruction.exec, HostCore.setInfo, HostCore.unmonitored, same, read,
        safeCall, faultOf, bind, Except.bind]
  | ok v =>
      simp [leafResult, rdmsrAsm, Instruction.exec, HostCore.setInfo, HostCore.unmonitored, same, read,
        safeCall, faultOf, bind, Except.bind, pure, Except.pure, halves_or]

/-- ALhvIDTwrmsr_asm and ALhvIDTxsetbv_asm pass the value in EDX:EAX. -/
theorem edxEax_split (c : HostCore) (value : BitVec 64) (rdx : c.rdx = value >>> 32)
    (rax : c.rax = value &&& 0xFFFFFFFF#64) : c.edxEax = value := by
  rw [HostCore.edxEax, rdx, rax, BitVec.and_assoc, BitVec.and_self, BitVec.or_comm, halves_or]

theorem undisturbed_wrmsr (msr : BitVec 32) (value : BitVec 64) (c : HostCore) :
    let c' := (undisturbed access host (.wrmsr msr value) c).2
    let result := host.wrmsr c.msrs msr value
    c'.info = safeCall c.info (faultOf result) ∧ c'.msrs = result.toOption.getD c.msrs := by
  have same : (msr.setWidth 64).setWidth 32 = msr := by simp
  let c₁ : HostCore := { c with
    info := { c.info with monitor := true, find := false }
    rax := value &&& 0xFFFFFFFF#64
    rcx := msr.setWidth 64
    rdx := value >>> 32 }
  have split : c₁.edxEax = value := edxEax_split c₁ value rfl rfl
  rw [undisturbed_single rfl rfl]
  change (leafResult access host [.wrmsr] c₁).unmonitored.info = _ ∧
    (leafResult access host [.wrmsr] c₁).unmonitored.msrs = _
  cases written : host.wrmsr c.msrs msr value with
  | error f =>
      have run : Instruction.wrmsr.exec access host c₁ = .error f := by
        simp only [Instruction.exec, split, c₁, same, written]
        rfl
      rw [leafResult_error run]
      exact ⟨rfl, rfl⟩
  | ok msrs =>
      have run : Instruction.wrmsr.exec access host c₁ = .ok { c₁ with msrs := msrs } := by
        simp only [Instruction.exec, split, c₁, same, written]
        rfl
      rw [leafResult_ok run]
      exact ⟨rfl, rfl⟩

theorem undisturbed_xsetbv (idx : BitVec 32) (value : BitVec 64) (c : HostCore) :
    (undisturbed access host (.xsetbv idx value) c).2.info = safeCall c.info (host.xsetbv idx value) := by
  have same : (idx.setWidth 64 &&& 0xFFFFFFFF#64).setWidth 32 = idx := by
    rw [show (0xFFFFFFFF#64) = 0xFFFFFFFF from rfl, Vmx.low_word]
    simp
  let c₁ : HostCore := { c with
    info := { c.info with monitor := true, find := false }
    rax := value &&& 0xFFFFFFFF#64
    rcx := idx.setWidth 64 &&& 0xFFFFFFFF#64
    rdx := value >>> 32 }
  have split : c₁.edxEax = value := edxEax_split c₁ value rfl rfl
  rw [undisturbed_single rfl rfl]
  change (leafResult access host [.xsetbv] c₁).unmonitored.info = _
  cases fault : host.xsetbv idx value with
  | none =>
      have run : Instruction.xsetbv.exec access host c₁ = .ok { c₁ with xcr0 := value } := by
        simp only [Instruction.exec, split, c₁, same, fault]
      rw [leafResult_ok run]
      rfl
  | some f =>
      have run : Instruction.xsetbv.exec access host c₁ = .error f := by
        simp only [Instruction.exec, split, c₁, same, fault]
      rw [leafResult_error run]
      rfl

end Refinement

end LMalz.Host
