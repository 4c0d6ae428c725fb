import LMalz.Buffer.Delivery
import LMalz.Buffer.Order
import LMalz.Send.RoundTrip

/- Whole calls of the ALsdSend functions and whole reads: what was sent is handed over in its order.
-/
namespace LMalz.Send
open Function (update)
open Bytes (Memory store)
open Buffer
open Transition (Run Guarded)

/-- The pool of send.cpp and g_pk_id. -/
structure Pool where
  mem : Memory
  pkId : BitVec 32

/-- A call with the packet_id it took and what it returned. -/
structure Sending where
  call : Call
  id : BitVec 32
  sent : Bool

inductive PoolEvent where
  | send (s : Sending)
  | read (ds : List Delivery)

inductive PoolStep (bufferSize : Int) : Pool → PoolEvent → Pool → Prop
  | send {o : Pool} {c : Call} {fuel : Nat} {id : BitVec 32} {m : Memory} {sent : Bool} :
      (∀ data code, c.message = .ins data code → code.length ≤ 16) →
      c.run bufferSize fuel o.pkId o.mem = some (sent, id, m) →
        PoolStep bufferSize o (.send ⟨c, id, sent⟩) ⟨m, id⟩
  | read {o : Pool} {fuel : Nat} {ds : List Delivery} {m : Memory} :
      readData bufferSize fuel o.mem = some (ds, m) → PoolStep bufferSize o (.read ds)
        { o with mem := m }

namespace PoolEvent

def sendings : PoolEvent → List Sending
  | .send s => [s]
  | .read _ => []

def accepted (e : PoolEvent) : List Sending := e.sendings.filter Sending.sent

def delivered : PoolEvent → List Delivery
  | .send _ => []
  | .read ds => ds

/-- The call finds a counter that the reader still takes for a nonnegative number when it has sent
its packet. -/
def Fits (o : Pool) : PoolEvent → Prop
  | .send _ => existing o.mem < 0x8000
  | .read _ => True

end PoolEvent

section Filling
variable {bufferSize : Int} {m : Memory} {rest : List Packet} {p : Packet}
  {ws : List (Nat × BitVec 8)}

/-- A packet with the stores of its producer. -/
def fill (p : Packet) (ws : List (Nat × BitVec 8)) : Packet :=
  ws.foldl (fun p w => { p with written := update p.written w.1 (some w.2) }) p

theorem fill_kept (p : Packet) (ws : List (Nat × BitVec 8)) :
    (fill p ws).data = p.data ∧ (fill p ws).len = p.len ∧ (fill p ws).sent = p.sent := by
  induction ws generalizing p with
  | nil => exact ⟨rfl, rfl, rfl⟩
  | cons w ws ih => exact ih { p with written := update p.written w.1 (some w.2) }

theorem fill_written (content : Memory) (k : Nat) :
    store (fun x => (p.written x.toNat).getD (content x)) ws k =
      ((fill p ws).written k).getD (content k) := by
  induction ws generalizing p with
  | nil => rfl
  | cons w ws ih =>
      rw [fill, List.foldl_cons, ← fill, ← ih, store, List.foldl_cons, ← store]
      apply Bytes.store_congr
      by_cases here : k = w.1
      · simp [here]
      · have apart : (k : Int) ≠ w.1 := by omega
        simp [here, apart]

theorem ordered_filled (h : ∃ cs, Ordered bufferSize ⟨m, p :: rest⟩ cs)
    (fits : ∀ w ∈ ws, w.1 < p.len) :
    ∃ cs, Ordered bufferSize ⟨storeAt m p.data ws, fill p ws :: rest⟩ cs := by
  induction ws generalizing m p with
  | nil => exact h
  | cons w ws ih =>
      obtain ⟨cs, h⟩ := h
      have split : State.packets ⟨m, p :: rest⟩ = [] ++ p :: rest := rfl
      have stored := h.exchange split fun k j _ here => by
        obtain ⟨stored, out⟩ := here.written (fits w List.mem_cons_self) w.2
        exact ⟨stored, fun a b _ apart => out a b apart⟩
      exact ih stored fun v later => fits v (List.mem_cons_of_mem w later)

theorem existing_storeAt {data : Int} (inside : headSize ≤ data) :
    existing (storeAt m data ws) = existing m := by
  induction ws generalizing m with
  | nil => rfl
  | cons w ws ih =>
      have head : headSize = 13 := rfl
      rw [storeAt, List.foldl_cons, ← storeAt, ih]
      exact Bytes.read_congr (Bytes.sameOn_update (by omega))

/-- What the reader gets of a filled region. -/
def Holds (d : Delivery) (s : Sending) : Prop :=
  Stored s.call.message (s.call.head s.id) (packetView d.bytes) d.bytes

/-- What the reader will get of a packet. -/
def Carries (p : Packet) (s : Sending) : Prop := ∀ d, Matches d p → Holds d s

theorem carries_filled (s : Sending) (region : Int) {q : Packet}
    (hq : q = fill (newPacket region s.call.message.size)
    (s.call.message.stores (s.call.head s.id))) :
    Carries { q with sent := true } s := by
  intro d matched k inside
  obtain ⟨-, len, -⟩ := fill_kept (newPacket region s.call.message.size)
    (s.call.message.stores (s.call.head s.id))
  have long : k < d.bytes.length := by
    rw [matched.bytes, hq, len]
    exact inside
  have content : store (packetView d.bytes) (s.call.message.stores (s.call.head s.id)) k =
      (q.written k).getD (packetView d.bytes k) := by
    rw [hq]
    exact fill_written (p := newPacket region s.call.message.size) (packetView d.bytes) k
  rw [content]
  cases written : q.written k with
  | none => simp [packetView, long]
  | some v => exact matched.written k v written

end Filling

section Calls
variable {bufferSize : Int} {o t : Pool} {e : PoolEvent} {es : List PoolEvent}

/-- The packets in the pool are those of the calls `ss`, the oldest first. -/
structure Waiting (bufferSize : Int) (m : Memory) (ss : List Sending)
    (packets : List Packet) : Prop where
  ordered : ∃ cs, Ordered bufferSize ⟨m, packets⟩ cs
  sent : ∀ p ∈ packets, p.sent = true
  carries : List.Forall₂ Carries packets.reverse ss

theorem Waiting.call {c : Call} {fuel : Nat} {id : BitVec 32} {m m' : Memory} {sent : Bool}
    {ss : List Sending}
    {packets : List Packet} {pkId : BitVec 32} (h : Waiting bufferSize m ss packets)
    (small : bufferSize < 2^31)
    (short : ∀ data code, c.message = .ins data code → code.length ≤ 16)
    (ran : c.run bufferSize fuel pkId m = some (sent, id, m')) :
    ∃ packets', Waiting bufferSize m' (ss ++ [⟨c, id, sent⟩].filter Sending.sent) packets' ∧
      ∃ k ≤ 1, packets'.length = packets.length + k ∧ existing m' = (existing m + k) % 2^16 := by
  obtain ⟨cs, ordered⟩ := h.ordered
  have short16 : c.message.size < 2^16 := by
    cases c.message <;> exact Nat.mod_lt _ (by decide)
  simp only [Call.run] at ran
  split at ran
  · cases ran
  · next m₁ prepared =>
      cases ran
      obtain ⟨-, -, head⟩ := prepareData_placed small short16 ordered.laid prepared
      have counter : existing m' = existing m := Bytes.read_congr (head.sub (by decide) (by decide))
      refine ⟨packets, ⟨⟨_, ordered.prepared small short16 prepared⟩, h.sent, ?_⟩, 0,
        Nat.zero_le 1, rfl, ?_⟩
      · simpa using h.carries
      · rw [counter]
        exact (Nat.mod_eq_of_lt Bytes.read_lt).symm
  · next region m₁ prepared =>
      obtain ⟨q, hq⟩ : ∃ q, q = fill (newPacket region c.message.size)
        (c.message.stores (c.head (pkId + 1))) :=
        ⟨_, rfl⟩
      obtain ⟨data, -, -⟩ := fill_kept (newPacket region c.message.size)
        (c.message.stores (c.head (pkId + 1)))
      have filled : ∃ cs,
        Ordered bufferSize ⟨storeAt m₁ region (c.message.stores (c.head (pkId + 1))),
        q :: packets⟩ cs := by
        rw [hq]
        exact ordered_filled ⟨_, ordered.prepared small short16 prepared⟩ (stores_fit short)
      rw [← hq] at data
      obtain rfl : region = q.data := data.symm
      obtain ⟨cs', filled⟩ := filled
      have inside : headSize ≤ q.data := (filled.tiled.wellFormed.inside q List.mem_cons_self).1
      have split : State.packets ⟨storeAt m₁ q.data (c.message.stores (c.head (pkId + 1))),
        q :: packets⟩ =
        [] ++ q :: packets := rfl
      have handed := filled.exchange split fun k j low here => here.sent low
      have done : (Buffer.sendData (storeAt m₁ q.data (c.message.stores (c.head (pkId + 1))))
        q.data).1 = true := by
        simp [Buffer.sendData]
      obtain ⟨rfl, later⟩ := Prod.mk.inj (Option.some.inj ran)
      obtain ⟨rfl, rfl⟩ := Prod.mk.inj later
      obtain ⟨-, -, head⟩ := prepareData_placed small short16 ordered.laid prepared
      have counter : existing m₁ = existing m := Bytes.read_congr (head.sub (by decide) (by decide))
      refine ⟨{ q with sent := true } :: packets,
        ⟨handed, List.forall_mem_cons.mpr ⟨rfl, h.sent⟩, ?_⟩, 1,
        Nat.le_refl 1, rfl, ?_⟩
      · rw [List.reverse_cons, List.filter_cons_of_pos (p := Sending.sent) done]
        exact List.rel_append h.carries (.cons (carries_filled ⟨c, pkId + 1, _⟩ q.data hq) .nil)
      · have still : existing (storeAt m₁ q.data (c.message.stores (c.head (pkId + 1)))) =
          existing m :=
          (existing_storeAt inside).trans counter
        rw [← still]
        exact existing_send (s := ⟨_, []⟩) inside

theorem handed_over {ds : List Delivery} {ps : List Packet} {ss : List Sending}
    (calls : List.Forall₂ Matches ds ps)
    (carries : List.Forall₂ Carries ps ss) : List.Forall₂ Holds ds ss := by
  induction calls generalizing ss with
  | nil =>
      cases carries
      exact .nil
  | cons first rest ih =>
      cases carries with
      | cons carried later => exact .cons (carried _ first) (ih later)

/-- ReadData hands over everything, or the counter refuses and nothing. -/
theorem Waiting.read {fuel : Nat} {m m' : Memory} {ds : List Delivery} {ss : List Sending}
    {packets : List Packet}
    (h : Waiting bufferSize m ss packets) (ran : readData bufferSize fuel m = some (ds, m')) :
    (0x8000 ≤ (existing m + 0xffff) % 2^16 ∧ ds = [] ∧ existing m' = existing m ∧
      Waiting bufferSize m' ss packets) ∨
      ((existing m + 0xffff) % 2^16 < 0x8000 ∧ List.Forall₂ Holds ds ss ∧
        existing m' = (existing m + 0xffff) % 2^16 ∧
        Waiting bufferSize m' [] []) := by
  obtain ⟨cs, ordered⟩ := h.ordered
  rcases ordered.read ran h.sent with ⟨gate, none, counter, still⟩ | ⟨gate, calls, counter, empty⟩
  · exact .inl ⟨gate, none, counter, ⟨_, still⟩, h.sent, h.carries⟩
  · exact .inr ⟨gate, handed_over calls h.carries, counter, ⟨_, empty⟩,
      fun _ none => absurd none List.not_mem_nil, .nil⟩

/-- The reader has got the first of the calls `ss` and the others wait; `ok` if the counter never
passed 0x8000. -/
def Handed (bufferSize : Int) (ok : Prop) (ss : List Sending) (ds : List Delivery)
    (m : Memory) : Prop :=
  ∃ got rest packets, ss = got ++ rest ∧ List.Forall₂ Holds ds got ∧
    Waiting bufferSize m rest packets ∧
    (ok → packets.length ≤ existing m ∧ existing m ≤ 0x8000)

theorem Handed.step {ok : Prop} {ss : List Sending} {ds : List Delivery}
    (h : Handed bufferSize ok ss ds o.mem)
    (small : bufferSize < 2^31) (step : PoolStep bufferSize o e t) (fits : ok → e.Fits o) :
    Handed bufferSize ok (ss ++ e.accepted) (ds ++ e.delivered) t.mem := by
  obtain ⟨got, rest, packets, rfl, held, waiting, counted⟩ := h
  cases step with
  | @send c fuel id m sent short ran =>
      obtain ⟨packets', waiting', k, few, long, counter⟩ := waiting.call small short ran
      refine ⟨got, _, packets', List.append_assoc _ _ _, ?_, waiting', fun isOk => ?_⟩
      · simpa [PoolEvent.delivered] using held
      · obtain ⟨covers, -⟩ := counted isOk
        have room : existing o.mem < 0x8000 := fits isOk
        change packets'.length ≤ existing m ∧ existing m ≤ 0x8000
        omega
  | @read fuel ds' m ran =>
      have none : PoolEvent.accepted (.read ds') = [] := rfl
      rw [none, List.append_nil]
      rcases waiting.read ran with ⟨gate, rfl, counter, still⟩ | ⟨gate, all, counter, empty⟩
      · refine ⟨got, rest, packets, rfl, ?_, still, fun isOk => ?_⟩
        · simpa [PoolEvent.delivered] using held
        · rw [counter]
          exact counted isOk
      · refine ⟨got ++ rest, [], [], (List.append_nil _).symm, List.rel_append held all, empty,
          fun isOk => ?_⟩
        obtain ⟨-, below⟩ := counted isOk
        change 0 ≤ existing m ∧ existing m ≤ 0x8000
        omega

theorem Handed.read {ss : List Sending} {ds ds' : List Delivery} {t : Pool}
    (h : Handed bufferSize True ss ds o.mem)
    (step : PoolStep bufferSize o (.read ds') t) : List.Forall₂ Holds (ds ++ ds') ss := by
  obtain ⟨got, rest, packets, rfl, held, waiting, counted⟩ := h
  obtain ⟨covers, below⟩ := counted trivial
  cases step with
  | @read fuel ds m ran =>
      rcases waiting.read ran with ⟨gate, rfl, -, -⟩ | ⟨-, all, -, -⟩
      · have none : packets = [] := List.eq_nil_of_length_eq_zero (by omega)
        have carries := waiting.carries
        rw [none] at carries
        cases carries
        simpa using held
      · exact List.rel_append held all

theorem Handed.run {ok : Prop} {ss : List Sending} {ds : List Delivery}
    (run : Run (Guarded (PoolStep bufferSize) fun o e => ok → e.Fits o) o es t)
    (small : bufferSize < 2^31)
    (h : Handed bufferSize ok ss ds o.mem) :
    Handed bufferSize ok (ss ++ es.flatMap PoolEvent.accepted)
      (ds ++ es.flatMap PoolEvent.delivered) t.mem := by
  induction run generalizing ss ds with
  | nil o => simpa using h
  | cons first rest ih =>
      rw [List.flatMap_cons, List.flatMap_cons, ← List.append_assoc, ← List.append_assoc]
      exact ih (h.step small first.2 first.1)

theorem Handed.start {bufferSize : Nat} {m : Memory} {ok : Prop} (low : headSize ≤ bufferSize)
    (high : bufferSize < 2^31)
    (start : Initial bufferSize ⟨m, []⟩) : Handed bufferSize ok [] [] m := by
  have empty : existing m = 0 := start.existing
  refine ⟨[], [], [], rfl, .nil,
    ⟨⟨_, start.ordered low high⟩, fun _ none => absurd none List.not_mem_nil, .nil⟩,
    fun _ => ?_⟩
  rw [empty]
  exact ⟨Nat.le_refl 0, Nat.zero_le _⟩

/-- Every call takes the next packet_id, refused ones included. -/
theorem ids_count (run : Run (PoolStep bufferSize) o es t) (k : Nat) {s : Sending}
    (found : (es.flatMap PoolEvent.sendings)[k]? = some s) : s.id =
    o.pkId + BitVec.ofNat 32 (k + 1) := by
  induction run generalizing k with
  | nil o => cases found
  | @cons o u t e es first rest ih =>
      cases first with
      | @send c fuel id m sent short ran =>
          have next : id = o.pkId + 1 := by
            simp only [Call.run] at ran
            split at ran <;> cases ran <;> rfl
          cases k with
          | zero =>
              obtain rfl : ⟨c, id, sent⟩ = s := Option.some.inj found
              exact next
          | succ k =>
              have later := ih k found
              change s.id = id + _ at later
              rw [later, next, BitVec.add_assoc, BitVec.ofNat_add (k + 1) 1,
                BitVec.add_comm (BitVec.ofNat 32 (k + 1))]
              rfl
      | read ran => exact ih k found

end Calls

/-- What the handler makes of a packet that is no instruction packet. -/
def Sending.put (s : Sending) : Option Put :=
  match s.call.message with
  | .enter => some (.enter (s.call.head s.id))
  | .exit fromAdd => some (.exit (s.call.head s.id) fromAdd)
  | .error errcode => some (.error (s.call.head s.id) errcode)
  | .ins _ _ => none

theorem Holds.put {d : Delivery} {s : Sending} (h : Holds d s)
    (plain : ∀ data code, s.call.message ≠ .ins data code) :
    Send.put d.bytes = s.put := by
  have decodes := (decodes_iff (fun data code same => absurd same (plain data code)) h).mpr
    fun data code same => absurd same (plain data code)
  rw [Sending.put]
  cases message : s.call.message with
  | enter =>
      rw [message] at decodes
      exact decodes
  | exit fromAdd =>
      rw [message] at decodes
      exact decodes
  | error errcode =>
      rw [message] at decodes
      exact decodes
  | ins data code => exact absurd message (plain data code)

end LMalz.Send
