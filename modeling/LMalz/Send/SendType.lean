import LMalz.Lib.Fields
import LMalz.Lib.StructLayout

/- The packets of send_type.h, with the natural alignment their compiler gives them. -/
namespace LMalz.Send
open StructLayout (Member offsetOf nested)
open Bytes (Memory FieldAt)

inductive PacketType where
  | ins | enter | exit | error
  deriving DecidableEq, Repr

def PacketType.code : PacketType → Nat
  | .ins => 0
  | .enter => 1
  | .exit => 2
  | .error => 3

inductive InsType where
  | movToReg | saveReg | rdmsr | wrmsr | cpuid | rFsGs | wFsGs | vmx | sys | ud2Int13o | invd
  | invlpg | far | int | inOut | fence
  deriving DecidableEq, Repr

/-- The enumerators of SEND_INS_TYPE, in their order. -/
def InsType.all : List InsType :=
  [.movToReg, .saveReg, .rdmsr, .wrmsr, .cpuid, .rFsGs, .wFsGs, .vmx, .sys, .ud2Int13o, .invd,
    .invlpg, .far, .int, .inOut, .fence]

def InsType.code (t : InsType) : Nat := InsType.all.idxOf t

/-- SEND_PACKET_INS_DATA_*, with the values of its members; the six bytes `v` of a far
operand are one number. -/
inductive InsData where
  | movToReg (oldV newV : BitVec 64)
  | saveReg (regV : BitVec 64)
  | rdmsr (num : BitVec 32) (v : BitVec 64)
  | wrmsr (num : BitVec 32) (oldV newV : BitVec 64)
  | cpuid (num : BitVec 32) (v : BitVec 64)
  | rFsGs (base : BitVec 64) (offset : BitVec 32) (v : BitVec 64)
  | wFsGs (base : BitVec 64) (offset : BitVec 32) (oldV newV : BitVec 64)
  | vmx
  | sys
  | ud2Int13o
  | invd
  | invlpg (va : BitVec 64)
  | far (v : BitVec 48)
  | int (n : BitVec 8)
  | inOut (i0o1 : Bool)
  | fence

def InsData.type : InsData → InsType
  | .movToReg _ _ => .movToReg
  | .saveReg _ => .saveReg
  | .rdmsr _ _ => .rdmsr
  | .wrmsr _ _ _ => .wrmsr
  | .cpuid _ _ => .cpuid
  | .rFsGs _ _ _ => .rFsGs
  | .wFsGs _ _ _ _ => .wFsGs
  | .vmx => .vmx
  | .sys => .sys
  | .ud2Int13o => .ud2Int13o
  | .invd => .invd
  | .invlpg _ => .invlpg
  | .far _ => .far
  | .int _ => .int
  | .inOut _ => .inOut
  | .fence => .fence

/-- The head without packet_type, which the packet's kind tells. -/
structure Head where
  packetId : BitVec 32
  tid : BitVec 32
  rip : BitVec 64
  deriving DecidableEq

section Layout

def uint8 : Member := ⟨1, 1, by decide⟩
def uint32 : Member := ⟨4, 4, by decide⟩
def uint64 : Member := ⟨8, 8, by decide⟩

/-- SEND_PACKET_HEAD: packet_type, packet_id, tid, rip. -/
def headMembers : List Member := [uint8, uint32, uint32, uint64]

/-- The members of SEND_PACKET_INS_DATA_*, in their order. -/
def InsType.members : InsType → List Member
  | .movToReg => [uint64, uint64]
  | .saveReg => [uint64]
  | .rdmsr | .cpuid => [uint32, uint64]
  | .wrmsr => [uint32, uint64, uint64]
  | .rFsGs => [uint64, uint32, uint64]
  | .wFsGs => [uint64, uint32, uint64, uint64]
  | .vmx | .sys | .ud2Int13o | .invd | .fence => []
  | .invlpg => [uint64]
  | .far => [⟨6, 1, by decide⟩]
  | .int | .inOut => [uint8]

/-- SEND_PACKET_ins: head, ins_type, ins_data and the instruction `ins[0]`. -/
def InsType.packetMembers (t : InsType) : List Member :=
  [nested headMembers, uint8, nested t.members, ⟨0, 1, by decide⟩]

/-- SEND_PACKET_exit and SEND_PACKET_error: head and one UINT64. -/
def wordPacketMembers : List Member := [nested headMembers, uint64]

def packetTypeOffset : Nat := offsetOf headMembers 0
def packetIdOffset : Nat := offsetOf headMembers 1
def tidOffset : Nat := offsetOf headMembers 2
def ripOffset : Nat := offsetOf headMembers 3

/-- from_add and errcode. -/
def wordOffset : Nat := offsetOf wordPacketMembers 1

/-- Where ins_data begins. -/
def InsType.insData (t : InsType) : Nat := offsetOf t.packetMembers 2

/-- Member `i` of ins_data. -/
def InsType.dataOffset (t : InsType) (i : Nat) : Nat := t.insData + offsetOf t.members i

/-- Where the instruction bytes begin. -/
def InsType.insOffset (t : InsType) : Nat := offsetOf t.packetMembers 3

end Layout

end LMalz.Send
