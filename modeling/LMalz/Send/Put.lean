import LMalz.Send.Fields

/- The reader's handler: what put_func makes of the bytes of a packet. -/
namespace LMalz.Send
open Bytes (Memory FieldAt store SameOn)

inductive Put where
  | enter (head : Head)
  | exit (head : Head) (fromAdd : BitVec 64)
  | error (head : Head) (errcode : BitVec 64)
  | ins (head : Head) (data : InsData) (code : List (BitVec 8))

/-- The packet as the memory its pointer is cast to. -/
def packetView (bytes : List (BitVec 8)) : Memory := fun x => bytes.getD x.toNat 0

def loadHead (m : Memory) : Head :=
  ⟨.ofNat 32 (Bytes.read m packetIdOffset 4), .ofNat 32 (Bytes.read m tidOffset 4),
    .ofNat 64 (Bytes.read m ripOffset 8)⟩

/-- ins_data behind a cast to SEND_PACKET_ins of the type. -/
def InsType.load (t : InsType) (m : Memory) : InsData :=
  let member i width := Bytes.read m (t.dataOffset i) width
  match t with
  | .movToReg => .movToReg (.ofNat 64 (member 0 8)) (.ofNat 64 (member 1 8))
  | .saveReg => .saveReg (.ofNat 64 (member 0 8))
  | .rdmsr => .rdmsr (.ofNat 32 (member 0 4)) (.ofNat 64 (member 1 8))
  | .wrmsr => .wrmsr (.ofNat 32 (member 0 4)) (.ofNat 64 (member 1 8)) (.ofNat 64 (member 2 8))
  | .cpuid => .cpuid (.ofNat 32 (member 0 4)) (.ofNat 64 (member 1 8))
  | .rFsGs => .rFsGs (.ofNat 64 (member 0 8)) (.ofNat 32 (member 1 4)) (.ofNat 64 (member 2 8))
  | .wFsGs => .wFsGs (.ofNat 64 (member 0 8)) (.ofNat 32 (member 1 4)) (.ofNat 64 (member 2 8))
      (.ofNat 64 (member 3 8))
  | .vmx => .vmx
  | .sys => .sys
  | .ud2Int13o => .ud2Int13o
  | .invd => .invd
  | .invlpg => .invlpg (.ofNat 64 (member 0 8))
  | .far => .far (.ofNat 48 (member 0 6))
  | .int => .int (.ofNat 8 (member 0 1))
  | .inOut => .inOut (member 0 1 != 0)
  | .fence => .fence

/-- The handler `put`; a type without a case gives `none`. The instruction is handed to
the disassembler from its offset on. -/
def put (bytes : List (BitVec 8)) : Option Put :=
  let m := packetView bytes
  let packetType := Bytes.read m packetTypeOffset 1
  if packetType = PacketType.enter.code then some (.enter (loadHead m))
  else if packetType = PacketType.exit.code then
    some (.exit (loadHead m) (.ofNat 64 (Bytes.read m wordOffset 8)))
  else if packetType = PacketType.error.code then
    some (.error (loadHead m) (.ofNat 64 (Bytes.read m wordOffset 8)))
  else if packetType = PacketType.ins.code then
    InsType.all[Bytes.read m insTypeOffset 1]?.map fun t =>
      .ins (loadHead m) (t.load m) (bytes.drop t.insOffset)
  else none

/-- The handler finds what the call has sent. -/
def Message.Decodes (msg : Message) (h : Head) (bytes : List (BitVec 8)) : Prop :=
  match msg with
  | .enter => put bytes = some (.enter h)
  | .exit fromAdd => put bytes = some (.exit h fromAdd)
  | .error errcode => put bytes = some (.error h errcode)
  | .ins data code => ∃ rest, put bytes = some (.ins h data rest) ∧ code <+: rest

theorem InsType.all_iff {i : Nat} {t : InsType} : InsType.all[i]? = some t ↔ i = t.code := by
  constructor
  · intro found
    obtain ⟨inside, rfl⟩ := List.getElem?_eq_some_iff.mp found
    exact (List.Nodup.idxOf_getElem (by decide) i inside).symm
  · rintro rfl
    cases t <;> rfl

section Decoding
variable {msg : Message} {h : Head} {data : InsData} {m content : Memory}
  {bytes : List (BitVec 8)}

/-- A cast to the packet's own type reads the members that were stored. -/
theorem InsData.load_eq (d : InsData)
    (read : ∀ f ∈ d.fields, Bytes.read m f.offset f.width = f.value) : d.type.load m = d := by
  cases d with
  | inOut i0o1 =>
      have only := read ⟨InsType.inOut.dataOffset 0, 1, i0o1.toNat⟩ List.mem_cons_self
      cases i0o1 <;> simp_all [InsType.load, InsData.type]
  | _ => simp_all [InsData.fields, InsData.type, InsType.load]

/-- The bytes of a region with the stores of a call over earlier contents. -/
def Stored (msg : Message) (h : Head) (content : Memory) (bytes : List (BitVec 8)) : Prop :=
  ∀ k : Nat, k < msg.size → bytes[k]? = some (store content (msg.stores h) k)

theorem InsData.values_small (d : InsData) : ∀ f ∈ d.fields, f.value < 256 ^ f.width := by
  cases d with
  | inOut i0o1 => cases i0o1 <;> simp [InsData.fields]
  | _ =>
      simp only [InsData.fields, List.forall_mem_cons, List.not_mem_nil, false_implies,
        implies_true, and_true]
      try bv_omega

section Reading
variable (short : ∀ data code, msg = .ins data code → code.length ≤ 16)
  (stored : Stored msg h content bytes)

include stored in
theorem view_byte {x : Nat} (inside : x < msg.size) :
    packetView bytes x = store content (msg.stores h) x := by
  simp [packetView, List.getD_eq_getElem?_getD, stored x inside]

include short stored

theorem view_field {f : FieldAt} (hf : f ∈ msg.fields h) :
    Bytes.read (packetView bytes) f.offset f.width = f.value % 256 ^ f.width := by
  have fits := Message.fields_fit short hf
  have same : SameOn (store content (msg.stores h)) (packetView bytes) f.offset
      (f.offset + f.width) := by
    intro x low high
    obtain ⟨k, rfl⟩ : ∃ k : Nat, x = k := ⟨x.toNat, by omega⟩
    exact view_byte stored (by omega)
  rw [Bytes.read_congr same, Message.stores_eq, Bytes.read_store_fields (msg.fields_apart h) hf]

end Reading
end Decoding
end LMalz.Send
