import LMalz.Send.Send
import Mathlib.Data.List.Perm.Basic

/- The stores of a call are to fields that share no byte, all inside its region and none
on ins_type. -/
namespace LMalz.Send
open StructLayout (finish nested structSize spans spans_inside spans_apart finish_le_structSize)
open Bytes (Memory FieldAt)

/-- The offset the reader takes ins_type from, that of SEND_PACKET_ins<int>. -/
def insTypeOffset : Nat :=
  StructLayout.offsetOf [nested headMembers, uint8, uint32, ⟨0, 1, Nat.one_pos⟩] 1

theorem insTypeOffset_eq : insTypeOffset = 24 := by decide
theorem packetTypeOffset_eq : packetTypeOffset = 0 := by decide
theorem packetIdOffset_eq : packetIdOffset = 4 := by decide
theorem tidOffset_eq : tidOffset = 8 := by decide
theorem ripOffset_eq : ripOffset = 16 := by decide
theorem wordOffset_eq : wordOffset = 24 := by decide

/-- Head, ins_type, ins_data and the instruction follow each other. -/
theorem InsType.order (t : InsType) :
    25 ≤ t.insData ∧ t.insData + structSize t.members ≤ t.insOffset ∧
      t.insOffset ≤ structSize t.packetMembers ∧ structSize t.packetMembers ≤ 64 := by
  cases t <;> decide

section Data
variable {d : InsData} {f : FieldAt}

/-- The fields of ins_data are its members, shifted to where ins_data begins. -/
theorem InsData.fields_perm (d : InsData) : (d.fields.map FieldAt.span).Perm
    ((spans 0 d.type.members).map fun s => (d.type.insData + s.1, s.2)) := by
  cases d with
  | movToReg oldV newV => exact .swap _ _ _
  | wrmsr num oldV newV => exact .cons _ (.swap _ _ _)
  | wFsGs base offset oldV newV => exact .cons _ (.cons _ (.swap _ _ _))
  | _ => exact .refl _

theorem InsData.fields_apart (d : InsData) : d.fields.Pairwise FieldAt.Apart := by
  have shifted : ((spans 0 d.type.members).map fun s => (d.type.insData + s.1, s.2)).Pairwise
      fun s t => s.1 + s.2 ≤ t.1 ∨ t.1 + t.2 ≤ s.1 := by
    rw [List.pairwise_map]
    have ordered : (spans 0 d.type.members).Pairwise fun s t => s.1 + s.2 ≤ t.1 := spans_apart
    exact ordered.imp fun order => .inl (by omega)
  have fields := (d.fields_perm.pairwise_iff Or.symm).mpr shifted
  rw [List.pairwise_map] at fields
  exact fields

theorem InsData.fields_inside (hf : f ∈ d.fields) :
    d.type.insData ≤ f.offset ∧ f.offset + f.width ≤ d.type.insOffset := by
  have order := d.type.order
  have hs : FieldAt.span f ∈ (spans 0 d.type.members).map fun s => (d.type.insData + s.1, s.2) :=
    d.fields_perm.mem_iff.mp (List.mem_map_of_mem hf)
  obtain ⟨s, hs, same⟩ := List.mem_map.mp hs
  obtain ⟨offset, width⟩ := Prod.mk.inj same
  have inside := (spans_inside hs).2
  have size : finish 0 d.type.members ≤ structSize d.type.members := finish_le_structSize
  omega

theorem InsData.stores_eq (d : InsData) : d.stores = d.fields.flatMap FieldAt.bytes := by
  cases d with
  | far v => rw [InsData.stores, memCopyData_eq]; simp [InsData.fields, FieldAt.bytes, InsData.type]
  | _ => rfl

end Data

/-- The instruction bytes as fields of one byte. -/
def codeFields (offset : Nat) (code : List (BitVec 8)) : List FieldAt :=
  (List.range code.length).map fun k => ⟨offset + k, 1, (code.getD k 0).toNat⟩

namespace Message
variable {msg : Message} {h : Head} {f : FieldAt}

/-- What a call stores behind the head. -/
def payload : Message → List FieldAt
  | .enter => []
  | .exit fromAdd => [⟨wordOffset, 8, fromAdd.toNat⟩]
  | .error errcode => [⟨wordOffset, 8, errcode.toNat⟩]
  | .ins data code => data.fields ++ codeFields data.type.insOffset code

def fields (msg : Message) (h : Head) : List FieldAt := msg.headFields h ++ msg.payload

theorem stores_eq (msg : Message) (h : Head) :
    msg.stores h = (msg.fields h).flatMap FieldAt.bytes := by
  unfold stores fields
  rw [List.flatMap_append]
  congr 1
  cases msg with
  | enter => rfl
  | exit fromAdd | error errcode => exact (List.append_nil _).symm
  | ins data code =>
      dsimp only
      rw [payload, List.flatMap_append, InsData.stores_eq, memCopyData_eq]
      congr 1
      simp only [codeFields, List.flatMap_map]
      refine List.map_eq_flatMap.trans (List.flatMap_congr fun k _ => ?_)
      simp [FieldAt.bytes]

theorem headFields_inside (hf : f ∈ msg.headFields h) : f.offset + f.width ≤ 24 := by
  simp only [headFields, packetIdOffset_eq, packetTypeOffset_eq, tidOffset_eq, ripOffset_eq,
    List.mem_cons, List.not_mem_nil, or_false] at hf
  rcases hf with rfl | rfl | rfl | rfl <;> simp

theorem headFields_apart : (msg.headFields h).Pairwise FieldAt.Apart := by
  simp [headFields, packetIdOffset_eq, packetTypeOffset_eq, tidOffset_eq, ripOffset_eq,
    FieldAt.Apart]

theorem codeFields_inside {offset : Nat} {code : List (BitVec 8)} (hf : f ∈ codeFields offset code) :
    offset ≤ f.offset ∧ f.offset + f.width ≤ offset + code.length := by
  obtain ⟨k, hk, rfl⟩ := List.mem_map.mp hf
  have below := List.mem_range.mp hk
  dsimp only
  omega

theorem codeFields_apart (offset : Nat) (code : List (BitVec 8)) :
    (codeFields offset code).Pairwise FieldAt.Apart := by
  rw [codeFields, List.pairwise_map]
  refine List.pairwise_lt_range.imp ?_
  intro k l order
  exact .inl (by dsimp only; omega)

/-- The fields of an instruction packet leave the byte of ins_type out. -/
theorem ins_low {data : InsData} {code : List (BitVec 8)} (hf : f ∈ (ins data code).payload) :
    25 ≤ f.offset := by
  have order := data.type.order
  rcases List.mem_append.mp hf with hf | hf
  · have low := (InsData.fields_inside hf).1
    omega
  · have low := (codeFields_inside hf).1
    omega

theorem payload_low (hf : f ∈ msg.payload) : 24 ≤ f.offset := by
  cases msg with
  | enter => cases hf
  | exit fromAdd | error errcode =>
      obtain rfl := List.mem_singleton.mp hf
      exact wordOffset_eq.ge
  | ins data code => exact Nat.le_of_succ_le (ins_low hf)

theorem payload_apart : msg.payload.Pairwise FieldAt.Apart := by
  cases msg with
  | enter => exact .nil
  | exit fromAdd | error errcode => exact List.pairwise_singleton _ _
  | ins data code =>
      refine List.pairwise_append.mpr ⟨data.fields_apart, codeFields_apart _ _, ?_⟩
      intro f hf g hg
      have high := (InsData.fields_inside hf).2
      have low := (codeFields_inside hg).1
      exact .inl (by omega)

theorem fields_apart (msg : Message) (h : Head) : (msg.fields h).Pairwise FieldAt.Apart := by
  refine List.pairwise_append.mpr ⟨headFields_apart, payload_apart, ?_⟩
  intro f hf g hg
  have high := headFields_inside hf
  have low := payload_low hg
  exact .inl (by omega)

theorem fields_fit (short : ∀ data code, msg = .ins data code → code.length ≤ 16)
    (hf : f ∈ msg.fields h) : f.offset + f.width ≤ msg.size := by
  have size : 24 ≤ msg.size := by
    cases msg with
    | enter => decide
    | exit fromAdd | error errcode => exact (by decide : 24 ≤ structSize wordPacketMembers % 2^16)
    | ins data code =>
        have order := data.type.order
        have few := short data code rfl
        rw [Message.size]
        omega
  rcases List.mem_append.mp hf with hf | hf
  · exact (headFields_inside hf).trans size
  · cases msg with
    | enter => cases hf
    | exit fromAdd | error errcode =>
        obtain rfl := List.mem_singleton.mp hf
        exact (by decide : wordOffset + 8 ≤ structSize wordPacketMembers % 2^16)
    | ins data code =>
        have order := data.type.order
        have few := short data code rfl
        have whole : (ins data code).size = structSize data.type.packetMembers + code.length := by
          rw [Message.size]
          omega
        rw [whole]
        rcases List.mem_append.mp hf with hf | hf
        · have high := (InsData.fields_inside hf).2
          omega
        · have high := (codeFields_inside hf).2
          omega

end Message
end LMalz.Send
