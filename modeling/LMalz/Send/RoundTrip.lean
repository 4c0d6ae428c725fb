import LMalz.Send.Put
import LMalz.Buffer.Delivery

/- Which packets the reader decodes to what was sent. -/
namespace LMalz.Send
open Function (update)
open Bytes (Memory FieldAt store)
open Buffer (State Event Step Packet Delivery Initial Tiled view writesTo newPacket)
open Transition (Run)

theorem ofNat_stored {n k : Nat} (v : BitVec n) (wide : 2^n ≤ 256 ^ k) :
    BitVec.ofNat n (v.toNat % 256 ^ k) = v := by
  rw [Nat.mod_eq_of_lt (v.isLt.trans_le wide), BitVec.ofNat_toNat, BitVec.setWidth_eq]

section Decoding
variable {msg : Message} {h : Head} {content : Memory} {bytes : List (BitVec 8)}
  (short : ∀ data code, msg = .ins data code → code.length ≤ 16)
  (stored : Stored msg h content bytes)
include short stored

theorem view_head : Bytes.read (packetView bytes) packetTypeOffset 1 = msg.type.code ∧
    loadHead (packetView bytes) = h := by
  have field : ∀ f ∈ msg.headFields h,
      Bytes.read (packetView bytes) f.offset f.width = f.value % 256 ^ f.width :=
    fun f hf => view_field short stored (List.mem_append_left _ hf)
  simp only [Message.headFields, List.forall_mem_cons, List.not_mem_nil, false_implies,
    implies_true, and_true] at field
  obtain ⟨packetId, packetType, tid, rip⟩ := field
  refine ⟨?_, ?_⟩
  · rw [packetType]
    cases msg <;> rfl
  · rw [loadHead, packetId, tid, rip, ofNat_stored _ (by decide), ofNat_stored _ (by decide),
      ofNat_stored _ (by decide)]

theorem view_word {v : BitVec 64} (last : msg.payload = [⟨wordOffset, 8, v.toNat⟩]) :
    BitVec.ofNat 64 (Bytes.read (packetView bytes) wordOffset 8) = v := by
  have stores : FieldAt.mk wordOffset 8 v.toNat ∈ msg.fields h :=
    List.mem_append_right _ (by simp [last])
  have field := view_field short stored stores
  dsimp only at field
  rw [field, ofNat_stored v (by decide)]

end Decoding

section Ins
variable {data : InsData} {code : List (BitVec 8)} {h : Head} {content : Memory}
  {bytes : List (BitVec 8)}

/-- No store of an instruction packet touches ins_type. -/
theorem view_insType (stored : Stored (.ins data code) h content bytes) (few : code.length ≤ 16) :
    Bytes.read (packetView bytes) insTypeOffset 1 = (content insTypeOffset).toNat := by
  have order := data.type.order
  have inside : insTypeOffset < (Message.ins data code).size := by
    rw [insTypeOffset_eq, Message.size]
    omega
  have kept : store content ((Message.ins data code).stores h) insTypeOffset =
      content insTypeOffset := by
    rw [Message.stores_eq]
    refine Bytes.store_fields_outside fun f hf => ?_
    rw [insTypeOffset_eq]
    rcases List.mem_append.mp hf with hf | hf
    · have high := Message.headFields_inside hf
      omega
    · have low := Message.ins_low hf
      omega
  simp only [Bytes.read, view_byte stored inside, kept, Nat.mul_zero, Nat.add_zero]

theorem code_prefix (stored : Stored (.ins data code) h content bytes) (few : code.length ≤ 16) :
    code <+: bytes.drop data.type.insOffset := by
  have order := data.type.order
  have short : ∀ data' code', Message.ins data code = .ins data' code' → code'.length ≤ 16 := by
    rintro _ _ ⟨⟩
    exact few
  rw [List.prefix_iff_getElem?]
  intro k inside
  have hf : FieldAt.mk (data.type.insOffset + k) 1 (code.getD k 0).toNat ∈
      (Message.ins data code).fields h := by
    refine List.mem_append_right _ (List.mem_append_right _ ?_)
    exact List.mem_map.mpr ⟨k, List.mem_range.mpr inside, rfl⟩
  have fits := Message.fields_fit short hf
  have byte := view_field short stored hf
  have within : data.type.insOffset + k < (Message.ins data code).size := by
    dsimp only at fits
    omega
  have present := stored _ within
  have same : store content ((Message.ins data code).stores h) ↑(data.type.insOffset + k) =
      code[k] := by
    have seen := view_byte stored within
    simp only [Bytes.read, seen, Nat.mul_zero, Nat.add_zero, Nat.pow_one] at byte
    apply BitVec.eq_of_toNat_eq
    rw [byte, Nat.mod_eq_of_lt (BitVec.isLt _), List.getD_eq_getElem?_getD,
      List.getElem?_eq_getElem inside, Option.getD_some]
  rw [List.getElem?_drop, present, same]

end Ins

/-- A packet decodes to what was sent, unless it is an instruction packet and the region
held another ins_type before. -/
theorem decodes_iff {msg : Message} {h : Head} {content : Memory} {bytes : List (BitVec 8)}
    (short : ∀ data code, msg = .ins data code → code.length ≤ 16)
    (stored : Stored msg h content bytes) :
    msg.Decodes h bytes ↔ ∀ data code, msg = .ins data code →
      (content insTypeOffset).toNat = data.type.code := by
  obtain ⟨packetType, head⟩ := view_head short stored
  cases msg with
  | enter =>
      refine iff_of_true ?_ (fun _ _ same => by cases same)
      simp [Message.Decodes, put, packetType, head, Message.type]
  | exit fromAdd =>
      refine iff_of_true ?_ (fun _ _ same => by cases same)
      have word := view_word short stored rfl
      simp [Message.Decodes, put, packetType, head, word, Message.type, PacketType.code]
  | error errcode =>
      refine iff_of_true ?_ (fun _ _ same => by cases same)
      have word := view_word short stored rfl
      simp [Message.Decodes, put, packetType, head, word, Message.type, PacketType.code]
  | ins data code =>
      have few := short data code rfl
      have insType := view_insType stored few
      have decoded : put bytes = InsType.all[(content insTypeOffset).toNat]?.map fun t =>
          .ins h (t.load (packetView bytes)) (bytes.drop t.insOffset) := by
        simp [put, packetType, head, insType, Message.type, PacketType.code]
      have loaded : data.type.load (packetView bytes) = data := by
        refine data.load_eq fun f hf => ?_
        rw [view_field short stored (List.mem_append_right _ (List.mem_append_left _ hf)),
          Nat.mod_eq_of_lt (data.values_small f hf)]
      constructor
      · rintro ⟨rest, found, -⟩ data' code' ⟨⟩
        rw [decoded, Option.map_eq_some_iff] at found
        obtain ⟨t, ht, same⟩ := found
        cases same
        have own : (t.load (packetView bytes)).type = t := by
          cases t <;> rfl
        rw [InsType.all_iff.mp ht, own]
      · intro recycled
        refine ⟨bytes.drop data.type.insOffset, ?_, code_prefix stored few⟩
        rw [decoded, InsType.all_iff.mpr (recycled data code rfl), Option.map_some, loaded]

section Runs
variable {bufferSize : Int} {s : State} {cs : List Buffer.Chunk} {rest : List Packet}

theorem write_run {m : Memory} {ws : List (Nat × BitVec 8)} {p : Packet} (unsent : p.sent = false)
    (fits : ∀ w ∈ ws, w.1 < p.len) :
    ∃ q : Packet, q.data = p.data ∧ q.sent = false ∧
      Run (Step bufferSize) ⟨m, p :: rest⟩ (ws.map fun w => .write p.data w.1 w.2)
        ⟨storeAt m p.data ws, q :: rest⟩ := by
  induction ws generalizing m p with
  | nil => exact ⟨p, rfl, unsent, .nil _⟩
  | cons w ws ih =>
      have here : w.1 < p.len := fits w List.mem_cons_self
      have split : State.packets ⟨m, p :: rest⟩ = [] ++ p :: rest := rfl
      have later : ∃ q : Packet, q.data = p.data ∧ q.sent = false ∧
          Run (Step bufferSize) ⟨update m (p.data + w.1) w.2,
              { p with written := update p.written w.1 (some w.2) } :: rest⟩
            (ws.map fun w => .write p.data w.1 w.2) ⟨storeAt m p.data (w :: ws), q :: rest⟩ :=
        ih (p := { p with written := update p.written w.1 (some w.2) }) unsent
          fun w' hw' => fits w' (List.mem_cons_of_mem w hw')
      obtain ⟨q, data, still, run⟩ := later
      exact ⟨q, data, still, .cons (.write split unsent here) run⟩

theorem stores_fit {msg : Message} {h : Head}
    (short : ∀ data code, msg = .ins data code → code.length ≤ 16) :
    ∀ w ∈ msg.stores h, w.1 < msg.size := by
  rw [Message.stores_eq]
  intro w hw
  obtain ⟨f, hf, hw⟩ := List.mem_flatMap.mp hw
  obtain ⟨k, hk, rfl⟩ := List.mem_map.mp hw
  have fits := Message.fields_fit short hf
  have below := List.mem_range.mp hk
  dsimp only
  omega

/-- The events of a call on the region it was given. -/
def Call.events (c : Call) (id : BitVec 32) (region : Int) : List Event :=
  ((c.message.stores (c.head id)).map fun w => .write region w.1 w.2) ++ [.send region]

theorem Call.events_writes (c : Call) (id : BitVec 32) (region : Int) :
    (c.events id region).filterMap (writesTo region) = c.message.stores (c.head id) := by
  simp [Call.events, List.filterMap_append, List.filterMap_map, Function.comp_def, writesTo]

theorem Call.events_keep (c : Call) (id : BitVec 32) (region : Int) :
    ∀ k, .prepare k (some region) ∉ c.events id region := by
  simp [Call.events]

theorem Call.fills (c : Call) (id : BitVec 32) {region : Int} {m : Memory}
    (short : ∀ data code, c.message = .ins data code → code.length ≤ 16) :
    ∃ q : Packet, q.data = region ∧ q.sent = true ∧
      Run (Step bufferSize) ⟨m, newPacket region c.message.size :: rest⟩ (c.events id region)
        ⟨(Buffer.sendData (storeAt m region (c.message.stores (c.head id))) region).2,
          q :: rest⟩ := by
  have filled : ∃ q : Packet, q.data = region ∧ q.sent = false ∧
      Run (Step bufferSize) ⟨m, newPacket region c.message.size :: rest⟩
        ((c.message.stores (c.head id)).map fun w => .write region w.1 w.2)
        ⟨storeAt m region (c.message.stores (c.head id)), q :: rest⟩ :=
    write_run (p := newPacket region c.message.size) rfl (stores_fit short)
  obtain ⟨q, rfl, unsent, run⟩ := filled
  have split : State.packets ⟨storeAt m q.data (c.message.stores (c.head id)), q :: rest⟩ =
      [] ++ q :: rest := rfl
  exact ⟨{ q with sent := true }, rfl, rfl, run.snoc (.send split unsent)⟩

/-- A call that returns 1 takes a region and runs through its events. -/
theorem Call.run_events {c : Call} {fuel : Nat} {pkId id : BitVec 32} {m : Memory}
    (short : ∀ data code, c.message = .ins data code → code.length ≤ 16)
    (done : c.run bufferSize fuel pkId s.mem = some (true, id, m)) :
    id = pkId + 1 ∧ ∃ region s' t, Step bufferSize s (.prepare c.message.size (some region)) s' ∧
      Run (Step bufferSize) s' (c.events id region) t ∧ t.mem = m := by
  simp only [Call.run] at done
  split at done
  · cases done
  · cases done
  · next plAdd m' ran =>
      have small : c.message.size < 2^16 := by
        cases c.message <;> exact Nat.mod_lt _ (by decide)
      obtain ⟨-, rest⟩ := Prod.mk.inj (Option.some.inj done)
      obtain ⟨rfl, rfl⟩ := Prod.mk.inj rest
      obtain ⟨q, -, -, run⟩ := c.fills (pkId + 1) short
      exact ⟨rfl, plAdd, _, _, .prepare small ran, run, rfl⟩

theorem Call.steps (c : Call) (id : BitVec 32) {fuel fuel' : Nat} {region : Int} {m m' : Memory}
    {ds : List Delivery} (short : ∀ data code, c.message = .ins data code → code.length ≤ 16)
    (prepared : Buffer.prepareData bufferSize c.message.size fuel s.mem = some (some region, m))
    (read : Buffer.readData bufferSize fuel'
      (Buffer.sendData (storeAt m region (c.message.stores (c.head id))) region).2 = some (ds, m')) :
    ∃ s' t u, Step bufferSize s (.prepare c.message.size (some region)) s' ∧ s'.mem = m ∧
      Run (Step bufferSize) s' (c.events id region) t ∧ Step bufferSize t (.read ds) u := by
  have small : c.message.size < 2^16 := by
    cases c.message <;> exact Nat.mod_lt _ (by decide)
  obtain ⟨q, -, -, run⟩ := c.fills id short
  exact ⟨_, _, _, .prepare small prepared, rfl, run, .read read⟩

end Runs

/-- For every call, over any run of whole buffer operations: the packet handed to the
reader decodes to what was sent exactly when it is no instruction packet or the region
held the right ins_type before. -/
theorem packet_decodes_iff {bufferSize : Nat} {o s s' t u : State} {es es' : List Event}
    {region : Int} {ds : List Delivery} {d : Delivery} (c : Call) (id : BitVec 32)
    (low : Buffer.headSize ≤ bufferSize) (high : bufferSize < 2^31)
    (start : Initial bufferSize o) (reach : Run (Step bufferSize) o es s)
    (short : ∀ data code, c.message = .ins data code → code.length ≤ 16)
    (took : Step bufferSize s (.prepare c.message.size (some region)) s')
    (run : Run (Step bufferSize) s' es' t) (own : ∀ k, .prepare k (some region) ∉ es')
    (wrote : es'.filterMap (writesTo region) = c.message.stores (c.head id))
    (read : Step bufferSize t (.read ds) u) (hd : d ∈ ds) (here : d.data = region) :
    c.message.Decodes (c.head id) d.bytes ↔ ∀ data code, c.message = .ins data code →
      (s'.mem (region + insTypeOffset)).toNat = data.type.code := by
  obtain ⟨-, -, bytes⟩ :=
    Buffer.delivered_contents low high start reach took run own read hd here
  rw [wrote] at bytes
  exact decodes_iff short bytes

theorem packet_decodes_iff_first :
    ∃ ds d, d ∈ ds ∧ (∃ t u, Step 0x200000 t (.read ds) u) ∧
      (sdSendInsMovToReg 7 0x1000 [0x0f, 0x22, 0xc0] 2 3).message.Decodes ⟨1, 7, 0x1000⟩ d.bytes := by
  have computed : ((Buffer.prepareData 0x200000 51 1 (Buffer.freshState 0x200000).mem).bind fun r =>
      r.1.bind fun region => (Buffer.readData 0x200000 3 (Buffer.sendData (storeAt r.2 region
        ((sdSendInsMovToReg 7 0x1000 [0x0f, 0x22, 0xc0] 2 3).message.stores ⟨1, 7, 0x1000⟩))
        region).2).map fun q => (region, (r.2 (region + 24)).toNat, q.1.map Delivery.data)) =
      some (13, 0, [13]) := by
    decide +kernel
  obtain ⟨⟨_, m⟩, prepared, rest⟩ := Option.bind_eq_some_iff.mp computed
  obtain ⟨region, rfl, rest⟩ := Option.bind_eq_some_iff.mp rest
  obtain ⟨⟨ds, m'⟩, read, found⟩ := Option.map_eq_some_iff.mp rest
  obtain ⟨rfl, seen⟩ := Prod.mk.inj found
  obtain ⟨recycled, places⟩ := Prod.mk.inj seen
  obtain ⟨d, hd, here⟩ : ∃ d ∈ ds, d.data = 13 := List.mem_map.mp (by simp [places])
  have short : ∀ data code, (sdSendInsMovToReg 7 0x1000 [0x0f, 0x22, 0xc0] 2 3).message =
      .ins data code → code.length ≤ 16 := by
    rintro _ _ ⟨⟩
    decide
  obtain ⟨s', t, u, took, rfl, run, delivered⟩ := Call.steps _ 1 short prepared read
  refine ⟨ds, d, hd, ⟨t, u, delivered⟩, (packet_decodes_iff _ 1 (by decide) (by decide)
    (Buffer.freshState_initial 0x200000) (.nil _) short took run (Call.events_keep _ 1 13)
    (Call.events_writes _ 1 13) delivered hd here).mpr ?_⟩
  rintro _ _ ⟨⟩
  exact recycled

/-- The first packet of a zeroed buffer, a rdmsr: its ins_type reads as mov_to_reg. -/
theorem rdmsr_decodes_as_mov :
    ∃ s' t u es ds d, Initial 0x200000 (Buffer.freshState 0x200000) ∧
      Step 0x200000 (Buffer.freshState 0x200000) (.prepare 50 (some 13)) s' ∧
      Run (Step 0x200000) s' es t ∧ (∀ k, .prepare k (some 13) ∉ es) ∧
      es.filterMap (writesTo 13) =
        (sdSendInsRdmsr 7 0x1000 [0x0f, 0x32] 2 3).message.stores ⟨1, 7, 0x1000⟩ ∧
      Step 0x200000 t (.read ds) u ∧ d ∈ ds ∧ d.data = 13 ∧
      ¬ (sdSendInsRdmsr 7 0x1000 [0x0f, 0x32] 2 3).message.Decodes ⟨1, 7, 0x1000⟩ d.bytes := by
  have computed : ((Buffer.prepareData 0x200000 50 1 (Buffer.freshState 0x200000).mem).bind fun r =>
      r.1.bind fun region => (Buffer.readData 0x200000 3 (Buffer.sendData (storeAt r.2 region
        ((sdSendInsRdmsr 7 0x1000 [0x0f, 0x32] 2 3).message.stores ⟨1, 7, 0x1000⟩))
        region).2).map fun q => (region, q.1.map Delivery.data, q.1.map fun d =>
          match put d.bytes with
          | some (.ins _ data _) => data.type = .movToReg
          | _ => false)) =
      some (13, [13], [true]) := by
    decide +kernel
  obtain ⟨⟨_, m⟩, prepared, rest⟩ := Option.bind_eq_some_iff.mp computed
  obtain ⟨region, rfl, rest⟩ := Option.bind_eq_some_iff.mp rest
  obtain ⟨⟨ds, m'⟩, read, found⟩ := Option.map_eq_some_iff.mp rest
  obtain ⟨rfl, seen⟩ := Prod.mk.inj found
  obtain ⟨places, kinds⟩ := Prod.mk.inj seen
  have single : ds.length = 1 := by simpa using congrArg List.length places
  obtain ⟨d, rfl⟩ := List.length_eq_one_iff.mp single
  have short : ∀ data code, (sdSendInsRdmsr 7 0x1000 [0x0f, 0x32] 2 3).message =
      .ins data code → code.length ≤ 16 := by
    rintro _ _ ⟨⟩
    decide
  obtain ⟨s', t, u, took, rfl, run, delivered⟩ := Call.steps _ 1 short prepared read
  refine ⟨s', t, u, _, _, d, Buffer.freshState_initial 0x200000, took, run,
    Call.events_keep _ 1 13, Call.events_writes _ 1 13, delivered, List.mem_singleton_self d,
    by simpa using places, ?_⟩
  rintro ⟨rest, decoded, -⟩
  simp [decoded, InsData.type] at kinds

end LMalz.Send
