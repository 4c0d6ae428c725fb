import LMalz.Send.SendType
import LMalz.Send.CopyData
import LMalz.Buffer.Contents

/- The ALsdSend functions: what each asks of the pool and stores in its region. -/
namespace LMalz.Send
open Function (update)
open StructLayout (nested structSize)
open Bytes (Memory FieldAt)
open Buffer (prepareData sendData)

/-- The members of ins_data as fields of the packet, in the order the sender stores them. -/
def InsData.fields (d : InsData) : List FieldAt :=
  let at_ := d.type.dataOffset
  match d with
  | .movToReg oldV newV => [⟨at_ 1, 8, newV.toNat⟩, ⟨at_ 0, 8, oldV.toNat⟩]
  | .saveReg regV => [⟨at_ 0, 8, regV.toNat⟩]
  | .rdmsr num v | .cpuid num v => [⟨at_ 0, 4, num.toNat⟩, ⟨at_ 1, 8, v.toNat⟩]
  | .wrmsr num oldV newV =>
      [⟨at_ 0, 4, num.toNat⟩, ⟨at_ 2, 8, newV.toNat⟩, ⟨at_ 1, 8, oldV.toNat⟩]
  | .rFsGs base offset v =>
      [⟨at_ 0, 8, base.toNat⟩, ⟨at_ 1, 4, offset.toNat⟩, ⟨at_ 2, 8, v.toNat⟩]
  | .wFsGs base offset oldV newV =>
      [⟨at_ 0, 8, base.toNat⟩, ⟨at_ 1, 4, offset.toNat⟩, ⟨at_ 3, 8, newV.toNat⟩,
        ⟨at_ 2, 8, oldV.toNat⟩]
  | .invlpg va => [⟨at_ 0, 8, va.toNat⟩]
  | .far v => [⟨at_ 0, 6, v.toNat⟩]
  | .int n => [⟨at_ 0, 1, n.toNat⟩]
  | .inOut i0o1 => [⟨at_ 0, 1, i0o1.toNat⟩]
  | .vmx | .sys | .ud2Int13o | .invd | .fence => []

/-- The stores to ins_data; a far operand is copied by ALmemCopyData. -/
def InsData.stores (d : InsData) : List (Nat × BitVec 8) :=
  match d with
  | .far v => memCopyData (d.type.dataOffset 0) 6 fun k => BitVec.ofNat 8 (v.toNat / 256 ^ k)
  | _ => d.fields.flatMap FieldAt.bytes

/-- What a call sends behind the head. -/
inductive Message where
  | enter
  | exit (fromAdd : BitVec 64)
  | error (errcode : BitVec 64)
  | ins (data : InsData) (ins : List (BitVec 8))

namespace Message

def type : Message → PacketType
  | .enter => .enter
  | .exit _ => .exit
  | .error _ => .error
  | .ins _ _ => .ins

/-- The size passed to PrepareData, a UINT16. -/
def size : Message → Nat
  | .enter => structSize [nested headMembers] % 2^16
  | .exit _ | .error _ => structSize wordPacketMembers % 2^16
  | .ins data code => (structSize data.type.packetMembers + code.length) % 2^16

/-- The head as BK_INIT and BK_INIT_INS fill it. Neither stores an ins_type. -/
def headFields (msg : Message) (h : Head) : List FieldAt :=
  [⟨packetIdOffset, 4, h.packetId.toNat⟩, ⟨packetTypeOffset, 1, msg.type.code⟩,
    ⟨tidOffset, 4, h.tid.toNat⟩, ⟨ripOffset, 8, h.rip.toNat⟩]

/-- The stores of a call to its region, in order. -/
def stores (msg : Message) (h : Head) : List (Nat × BitVec 8) :=
  (msg.headFields h).flatMap FieldAt.bytes ++
    match msg with
    | .enter => []
    | .exit fromAdd => (FieldAt.mk wordOffset 8 fromAdd.toNat).bytes
    | .error errcode => (FieldAt.mk wordOffset 8 errcode.toNat).bytes
    | .ins data code =>
        data.stores ++ memCopyData data.type.insOffset code.length fun k => code.getD k 0

end Message

/-- A call of one of the ALsdSend functions. -/
structure Call where
  tid : BitVec 32
  rip : BitVec 64
  message : Message

section Calls
variable (tid : BitVec 32) (rip : BitVec 64) (ins : List (BitVec 8))

def sdSendError (errcode : BitVec 64) : Call := ⟨tid, rip, .error errcode⟩
def sdSendEnter : Call := ⟨tid, rip, .enter⟩
def sdSendExit (fromAdd : BitVec 64) : Call := ⟨tid, rip, .exit fromAdd⟩

/-- The body that the instruction packets share. -/
def sdSendIns (data : InsData) : Call := ⟨tid, rip, .ins data ins⟩

def sdSendInsMovToReg (newV oldV : BitVec 64) : Call := sdSendIns tid rip ins (.movToReg oldV newV)
def sdSendInsSaveReg (regV : BitVec 64) : Call := sdSendIns tid rip ins (.saveReg regV)
def sdSendInsRdmsr (num : BitVec 32) (regV : BitVec 64) : Call :=
  sdSendIns tid rip ins (.rdmsr num regV)
def sdSendInsWrmsr (num : BitVec 32) (newV oldV : BitVec 64) : Call :=
  sdSendIns tid rip ins (.wrmsr num oldV newV)
def sdSendInsRFsGs (base : BitVec 64) (offset : BitVec 32) (v : BitVec 64) : Call :=
  sdSendIns tid rip ins (.rFsGs base offset v)
def sdSendInsWFsGs (base : BitVec 64) (offset : BitVec 32) (newV oldV : BitVec 64) : Call :=
  sdSendIns tid rip ins (.wFsGs base offset oldV newV)
def sdSendInsInvlpg (va : BitVec 64) : Call := sdSendIns tid rip ins (.invlpg va)
def sdSendInsFar (v : BitVec 48) : Call := sdSendIns tid rip ins (.far v)
def sdSendInsInt (n : BitVec 8) : Call := sdSendIns tid rip ins (.int n)
def sdSendInsCpuid (num : BitVec 32) (regV : BitVec 64) : Call :=
  sdSendIns tid rip ins (.cpuid num regV)
def sdSendInsInOut (i0o1 : Bool) : Call := sdSendIns tid rip ins (.inOut i0o1)
def sdSendInsVmx : Call := sdSendIns tid rip ins .vmx
def sdSendInsSys : Call := sdSendIns tid rip ins .sys
def sdSendInsUd2Int13o : Call := sdSendIns tid rip ins .ud2Int13o
def sdSendInsInvd : Call := sdSendIns tid rip ins .invd
def sdSendInsFence : Call := sdSendIns tid rip ins .fence

end Calls

/-- Stores to a region at `data`. -/
def storeAt (m : Memory) (data : Int) (ws : List (Nat × BitVec 8)) : Memory :=
  ws.foldl (fun m w => update m (data + w.1) w.2) m

def Call.head (c : Call) (id : BitVec 32) : Head := ⟨id, c.tid, c.rip⟩

/-- One call, with g_pk_id before and after; `none` if PrepareData ran out of fuel. -/
def Call.run (c : Call) (bufferSize : Int) (fuel : Nat) (pkId : BitVec 32) (m : Memory) :
    Option (Bool × BitVec 32 × Memory) :=
  let id := pkId + 1
  match prepareData bufferSize c.message.size fuel m with
  | none => none
  | some (none, m) => some (false, id, m)
  | some (some plAdd, m) =>
      let (sent, m) := sendData (storeAt m plAdd (c.message.stores (c.head id))) plAdd
      some (sent, id, m)

end LMalz.Send
