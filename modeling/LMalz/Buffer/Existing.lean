import LMalz.Buffer.Delivery

/- When `existing` is the number of packets in the buffer. -/
namespace LMalz.Buffer
open Bytes (Memory)
open Transition (Run Guarded)

/-- `existing` is the number of chunks marked valid, and 0 once every packet sent was read. -/
structure Counts (bufferSize : Int) (s : State) : Prop where
  marked : ∀ hs, Walk s.mem dataArea hs bufferSize →
    existing s.mem = hs.countP fun h => valid s.mem h = 1
  read : (∀ p ∈ s.packets, p.sent = false) → existing s.mem = 0

/-- A ReadData that finds no packet counted, or one, or a counter it takes for a negative
number, or a SendData that does not make the counter wrap. -/
def CountStays (s : State) : Event → Prop
  | .send _ => existing s.mem < 0xffff
  | .read _ => existing s.mem ≤ 1 ∨ 0x8000 < existing s.mem
  | _ => True

section Walk
variable {m : Memory} {i e : Int} {hs ks : List Int} {cs : List Chunk}

theorem Walk.le (w : Walk m i hs e) : i ≤ e := by
  have header : dataHeader = 10 := rfl
  induction w with
  | done e => exact Int.le_refl e
  | next nonneg _ ih => omega

theorem Walk.unique (w : Walk m i hs e) (v : Walk m i ks e) : hs = ks := by
  have header : dataHeader = 10 := rfl
  induction w generalizing ks with
  | done e =>
      cases v with
      | done => rfl
      | next nonneg rest =>
          have back := rest.le
          omega
  | next nonneg rest ih =>
      cases v with
      | done =>
          have back := rest.le
          omega
      | next _ rest' => rw [ih rest']

theorem Use.Holds.marked {u : Use} {capacity : Nat} (h : u.Holds m i capacity) :
    valid m i = 1 ↔ ∃ p, u = .packet p ∧ p.sent = true := by
  cases u with
  | free => simp [h.1]
  | lost => simp [h.1]
  | packet p =>
      have mark := h.2.2.2.1
      cases sent : p.sent with
      | false => simp [mark, sent]
      | true => simp [mark, sent]

theorem Layout.count_valid (h : Layout m i cs e) :
    (headersOf i cs).countP (fun j => valid m j = 1) = (packetsOf cs).countP Packet.sent := by
  induction cs generalizing i with
  | nil => rfl
  | cons c cs ih =>
      obtain ⟨here, after⟩ := h
      have marked := here.used.marked
      obtain ⟨k, use⟩ := c
      rw [headersOf, List.countP_cons, ih after]
      cases use with
      | free => simp_all [packetsOf_free]
      | lost => simp_all [packetsOf_lost]
      | packet p => simp_all [packetsOf_packet, List.countP_cons]

end Walk

section Steps
variable {bufferSize : Int} {s t : State} {cs : List Chunk}

theorem Tiled.counts_iff (h : Tiled bufferSize s cs) :
    Counts bufferSize s ↔ existing s.mem = s.packets.countP Packet.sent := by
  have number : (headersOf dataArea cs).countP (fun j => valid s.mem j = 1) =
      s.packets.countP Packet.sent := by
    rw [h.1.count_valid, h.2.countP_eq]
  constructor
  · intro counts
    rw [counts.marked _ h.1.walk, number]
  · intro counts
    refine ⟨fun hs walk => ?_, fun unsent => ?_⟩
    · rw [walk.unique h.1.walk, number, counts]
    · rw [counts, List.countP_eq_zero]
      intro p hp
      simp [unsent p hp]

/-- From a state that counts, a step leads to another one just when the guard holds. -/
theorem counts_step {e : Event} (small : bufferSize < 2^31) (h : Tiled bufferSize s cs)
    (counts : existing s.mem = s.packets.countP Packet.sent) (step : Step bufferSize s e t) :
    existing t.mem = t.packets.countP Packet.sent ↔ CountStays s e := by
  have bound : existing s.mem < 2^16 := Bytes.read_lt
  cases step with
  | refused short ran =>
      have counter : existing _ = existing s.mem := Bytes.read_congr
        ((prepareData_placed small short h.1 ran).2.2.sub (by decide) (by decide))
      simpa only [CountStays, counter, iff_true] using counts
  | prepare short ran =>
      have counter : existing _ = existing s.mem := Bytes.read_congr
        ((prepareData_placed small short h.1 ran).2.2.sub (by decide) (by decide))
      rw [counter, List.countP_cons_of_neg (by simp)]
      simpa only [CountStays, iff_true] using counts
  | @write before after p i v split unsent inside =>
      have counter := existing_write (s := s) (i := i) (v := v)
        (h.wellFormed.inside p (by simp [split])).1
      rw [split] at counts
      rw [counter]
      simpa [CountStays, List.countP_append, List.countP_cons] using counts
  | @send before after p split unsent =>
      have counter := existing_send (s := s) (h.wellFormed.inside p (by simp [split])).1
      rw [split] at counts
      simp only [List.countP_append, List.countP_cons, unsent, Bool.false_eq_true, if_false]
        at counts
      simp only [CountStays, counter, List.countP_append, List.countP_cons, if_true]
      omega
  | @read fuel ds m ran =>
      rcases readData_outcome h ran with ⟨gate, rfl, counter, -⟩ | ⟨gate, delivered, counter, -⟩
      · have same : unread [] s.packets = s.packets := by simp [unread]
        simp only [CountStays, counter, same]
        omega
      · have none : (unread ds s.packets).countP Packet.sent = 0 := by
          rw [unread_delivered delivered, List.countP_eq_zero]
          intro p hp
          simpa using (List.mem_filter.mp hp).2
        simp only [CountStays, counter, none]
        omega

end Steps

section Runs
variable {bufferSize : Nat} {s t : State} {es : List Event}

/-- `existing` is the number of packets at the start, and then in every state of a run just
when each of its steps meets the guard. -/
theorem existing_counts_iff (low : headSize ≤ bufferSize) (high : bufferSize < 2^31)
    (start : Initial bufferSize s) :
    Counts bufferSize s ∧ (Run (fun s e t => Step bufferSize s e t ∧ Counts bufferSize t) s es t ↔
      Run (Guarded (Step bufferSize) CountStays) s es t) := by
  have small : (bufferSize : Int) < 2^31 := by omega
  have empty : s.packets = [] := by
    obtain ⟨m, -, rfl⟩ := start
    rfl
  have whole := start.tiled low high
  have tiled : ∃ cs, Tiled bufferSize s cs := ⟨_, whole⟩
  have counts : existing s.mem = s.packets.countP Packet.sent := by
    rw [start.existing, empty]
    rfl
  refine ⟨whole.counts_iff.mpr counts, ?_⟩
  clear start empty whole
  constructor
  · intro run
    induction run with
    | nil s => exact .nil s
    | @cons s t u e es first rest ih =>
        obtain ⟨cs, h⟩ := tiled
        obtain ⟨cs', h'⟩ := tiled_step small ⟨cs, h⟩ first.1
        have after := h'.counts_iff.mp first.2
        exact .cons ⟨(counts_step small h counts first.1).mp after, first.1⟩ (ih ⟨cs', h'⟩ after)
  · intro run
    induction run with
    | nil s => exact .nil s
    | @cons s t u e es first rest ih =>
        obtain ⟨cs, h⟩ := tiled
        obtain ⟨cs', h'⟩ := tiled_step small ⟨cs, h⟩ first.2
        have after := (counts_step small h counts first.2).mpr first.1
        exact .cons ⟨first.2, h'.counts_iff.mpr after⟩ (ih ⟨cs', h'⟩ after)

theorem existing_counts_one_packet :
    ∃ es t, es.length = 3 ∧
      Run (fun s e t => Step (0x1000 : Nat) s e t ∧ Counts (0x1000 : Nat) t)
        (freshState 0x1000) es t := by
  have start := freshState_initial 0x1000
  obtain ⟨t, took, tiled, counter, packets⟩ :=
    (start.tiled (by decide) (by decide)).prepare_step (n := 16) (by decide) (by decide)
  rw [place_divide rfl (by decide)] at took packets
  have split : t.packets = [] ++ newPacket (dataArea + dataHeader) 16 :: [] := packets
  have inside := (tiled.wellFormed.inside _ (by rw [split]; exact List.mem_singleton_self _)).1
  have first : existing t.mem = 0 := counter.trans start.existing
  have second := existing_send (s := t) inside
  rw [first] at second
  obtain ⟨_, _, _, _, sent⟩ := tiled.sent split
  obtain ⟨fuel, ⟨ds, m⟩, ran⟩ := readData_ends sent
  refine ⟨_, _, ?_, (existing_counts_iff (by decide) (by decide) start).2.mpr
    (.cons ⟨?_, took⟩ (.cons ⟨?_, .send split rfl⟩ (.cons ⟨?_, .read ran⟩ (.nil _))))⟩
  · rfl
  · exact trivial
  · show existing t.mem < 0xffff
    omega
  · exact .inl second.le

theorem existing_left_over :
    ∃ es u, Run (Step 0x200000) (freshState 0x200000) es u ∧ u.packets = [] ∧
      existing u.mem = 1 ∧ ¬ Counts 0x200000 u := by
  obtain ⟨es, t, busy, run, tiled, -, counter, number, allSent⟩ := fill_buffer 2 (by decide)
  obtain ⟨fuel, ⟨ds, m⟩, ran⟩ := readData_ends tiled
  rcases readData_outcome tiled ran with ⟨gate, -⟩ | ⟨-, delivered, left, -⟩
  · omega
  · have empty : unread ds t.packets = [] := by
      rw [unread_delivered delivered, List.filter_eq_nil_iff]
      intro p hp
      simp [allSent p hp]
    have one : existing m = 1 := by omega
    refine ⟨_, _, run.snoc (.read ran), empty, one, fun counts => ?_⟩
    have zero : existing m = 0 := counts.read fun p hp => absurd (empty ▸ hp) (by simp)
    omega

end Runs
end LMalz.Buffer
