import LMalz.Buffer.Representation

/- Which ReadData calls hand over every packet that was sent. -/
namespace LMalz.Buffer
open Function (update)
open Bytes (Memory)
open Transition (Run Guarded)

/-- A SendData that finds a counter the reader still takes for a nonnegative number after it
has counted this packet. -/
def SendFits (s : State) : Event → Prop
  | .send _ => existing s.mem < 0x8000
  | _ => True

/-- `existing` counts at least the packets to be read, and not more than the reader's
signed test admits. -/
structure Counted (s : State) : Prop where
  covers : s.packets.countP Packet.sent ≤ existing s.mem
  positive : existing s.mem ≤ 0x8000

section Counter
variable {bufferSize : Int} {s t : State} {cs : List Chunk}

theorem existing_write {p : Packet} {i : Nat} {v : BitVec 8} (inside : headSize ≤ p.data) :
    existing (update s.mem (p.data + i) v) = existing s.mem := by
  have head : headSize = 13 := rfl
  exact Bytes.read_congr (Bytes.sameOn_update (by omega))

theorem existing_send {p : Packet} (inside : headSize ≤ p.data) :
    existing (sendData s.mem p.data).2 = (existing s.mem + 1) % 2^16 := by
  have head : headSize = 13 := rfl
  have header : dataHeader = 10 := rfl
  have same : existing (setValid s.mem (p.data - dataHeader) 1) = existing s.mem :=
    Bytes.read_write_apart (by omega)
  have back : p.data - dataHeader + dataHeader = p.data := by omega
  rw [sendData, if_neg (not_not_intro back)]
  simp only [same]
  exact Bytes.read_write

theorem Counted.delivers (counted : Counted s) (h : Tiled bufferSize s cs) {fuel : Nat}
    {ds : List Delivery} {m : Memory} (ran : readData bufferSize fuel s.mem = some (ds, m)) :
    Delivers ds s.packets ∧ existing m + 1 = max 1 (existing s.mem) := by
  have covers := counted.covers
  have positive := counted.positive
  rcases readData_outcome h ran with ⟨gate, rfl, counter, -⟩ | ⟨gate, delivered, counter, -⟩
  · have none : s.packets.countP Packet.sent = 0 := by omega
    have empty : s.packets.filter Packet.sent = [] := by
      rw [List.countP_eq_length_filter] at none
      exact List.eq_nil_of_length_eq_zero none
    refine ⟨⟨[], by rw [empty], .nil⟩, by omega⟩
  · exact ⟨delivered, by omega⟩

theorem counted_step {e : Event} (small : bufferSize < 2^31)
    (h : (∃ cs, Tiled bufferSize s cs) ∧ Counted s)
    (step : Guarded (Step bufferSize) SendFits s e t) :
    (∃ cs, Tiled bufferSize t cs) ∧ Counted t := by
  refine ⟨tiled_step small h.1 step.2, ?_⟩
  obtain ⟨⟨cs, h⟩, counted⟩ := h
  obtain ⟨fits, step⟩ := step
  have covers := counted.covers
  have positive := counted.positive
  cases step with
  | refused short ran =>
      have counter : existing _ = existing s.mem := Bytes.read_congr
        ((prepareData_placed small short h.1 ran).2.2.sub (by decide) (by decide))
      exact ⟨by rw [counter]; exact covers, by rw [counter]; exact positive⟩
  | prepare short ran =>
      have counter : existing _ = existing s.mem := Bytes.read_congr
        ((prepareData_placed small short h.1 ran).2.2.sub (by decide) (by decide))
      refine ⟨?_, by rw [counter]; exact positive⟩
      rw [counter, List.countP_cons_of_neg (by simp)]
      exact covers
  | @write before after p i v split unsent inside =>
      have counter := existing_write (s := s) (i := i) (v := v)
        (h.wellFormed.inside p (by simp [split])).1
      rw [split] at covers
      refine ⟨?_, by rw [counter]; exact positive⟩
      rw [counter]
      simpa [List.countP_append, List.countP_cons] using covers
  | @send before after p split unsent =>
      have counter := existing_send (s := s) (h.wellFormed.inside p (by simp [split])).1
      have room : existing s.mem < 0x8000 := fits
      rw [split] at covers
      simp only [List.countP_append, List.countP_cons, unsent] at covers
      refine ⟨?_, by rw [counter]; omega⟩
      simp only [counter, List.countP_append, List.countP_cons]
      simp only [Bool.false_eq_true, if_false, if_true] at covers ⊢
      omega
  | @read fuel ds m ran =>
      obtain ⟨delivered, counter⟩ := counted.delivers h ran
      have below : existing m ≤ 0x8000 := by omega
      refine ⟨?_, below⟩
      have none : (unread ds s.packets).countP Packet.sent = 0 := by
        rw [unread_delivered delivered, List.countP_eq_zero]
        intro p hp
        simpa using (List.mem_filter.mp hp).2
      rw [none]
      exact Nat.zero_le _

end Counter

/-- No packet is lost or duplicated while no SendData finds the counter at 0x8000. -/
theorem no_packet_lost {bufferSize : Nat} {s t : State} {es : List Event}
    (low : headSize ≤ bufferSize) (high : bufferSize < 2^31) (start : Initial bufferSize s)
    (run : Run (Guarded (Step bufferSize) SendFits) s es t) :
    (∃ fuel r, readData bufferSize fuel t.mem = some r) ∧
      ∀ ds u, Step bufferSize t (.read ds) u → Delivers ds t.packets := by
  have small : (bufferSize : Int) < 2^31 := by omega
  have first : (∃ cs, Tiled bufferSize s cs) ∧ Counted s := by
    have empty : s.packets = [] := by
      obtain ⟨m, -, rfl⟩ := start
      rfl
    exact ⟨⟨_, start.tiled low high⟩, by simp [empty], by simp [start.existing]⟩
  obtain ⟨⟨cs, h⟩, counted⟩ := run.invariant
    (I := fun s => (∃ cs, Tiled bufferSize s cs) ∧ Counted s) (counted_step small) first
  refine ⟨readData_ends h, fun ds u step => ?_⟩
  cases step with
  | read ran => exact (counted.delivers h ran).1

theorem no_packet_lost_one_packet :
    ∃ t : State, t.packets.length = 1 ∧
      (∃ fuel r, readData 0x200000 fuel t.mem = some r) ∧
      ∀ ds u, Step 0x200000 t (.read ds) u → Delivers ds t.packets := by
  have start := freshState_initial 0x200000
  obtain ⟨t, took, -, counter, packets⟩ :=
    (start.tiled (by decide) (by decide)).prepare_step (n := 1) (by decide) (by decide)
  rw [place_divide rfl (by decide)] at took packets
  have split : t.packets = [] ++ newPacket (dataArea + dataHeader) 1 :: [] := packets
  have room : existing t.mem < 0x8000 := by
    rw [counter, start.existing]
    decide
  refine ⟨_, rfl, no_packet_lost (by decide) (by decide) start
    (.cons ⟨?_, took⟩ (.cons ⟨?_, .send split rfl⟩ (.nil _)))⟩
  · exact trivial
  · exact room

theorem place_passes (n : Nat) (i : Int) (pre : List Chunk) {busy rest : List Chunk}
    (inUse : ∀ c ∈ busy, c.use ≠ .free) :
    ∃ j, place n i pre (busy ++ rest) = place n j (pre ++ busy) rest := by
  induction busy generalizing i pre with
  | nil => exact ⟨i, by simp⟩
  | cons c busy ih =>
      obtain ⟨j, passed⟩ := ih (i + dataHeader + c.size) (pre ++ [c])
        fun d hd => inUse d (List.mem_cons_of_mem c hd)
      refine ⟨j, ?_⟩
      rw [List.cons_append, place_busy (inUse c List.mem_cons_self), passed]
      simp

theorem split_before_last {as pre post : List Chunk} {c last : Chunk}
    (h : as ++ [last] = pre ++ c :: post) (other : last ≠ c) :
    ∃ post', post = post' ++ [last] ∧ as = pre ++ c :: post' := by
  rcases List.eq_nil_or_concat post with rfl | ⟨post', d, rfl⟩
  · exact absurd (List.cons.inj (List.append_inj' h rfl).2).1 other
  · rw [List.concat_eq_append] at h ⊢
    rw [← List.cons_append, ← List.append_assoc] at h
    obtain ⟨front, back⟩ := List.append_inj' h rfl
    exact ⟨post', by rw [(List.cons.inj back).1], front⟩

theorem fill_buffer (k : Nat) (fits : k ≤ 0x8001) :
    ∃ es t busy, Run (Step 0x200000) (freshState 0x200000) es t ∧
      Tiled 0x200000 t (busy ++ [⟨0x200000 - 13 - 11 * k, .free⟩]) ∧
      (∀ c ∈ busy, c.use ≠ .free) ∧ existing t.mem = k ∧ t.packets.length = k ∧
      ∀ p ∈ t.packets, p.sent = true := by
  induction k with
  | zero =>
      have start := freshState_initial 0x200000
      exact ⟨[], _, [], .nil _, start.tiled (by decide) (by decide), by simp, start.existing, rfl,
        by simp [freshState]⟩
  | succ k ih =>
      obtain ⟨es, s, busy, run, tiled, inUse, counter, number, allSent⟩ := ih (by omega)
      obtain ⟨t, took, tiled, counter', packets⟩ :=
        tiled.prepare_step (n := 1) (by decide) (by decide)
      obtain ⟨j, passed⟩ := place_passes 1 dataArea [] inUse
      rw [passed, place_divide rfl (by simp only; omega)] at took tiled packets
      have split : t.packets = [] ++ newPacket (j + dataHeader) 1 :: s.packets := packets
      have inside := (tiled.wellFormed.inside (newPacket (j + dataHeader) 1) (by simp [split])).1
      obtain ⟨pre, l, post, chunks, tiled⟩ := tiled.sent split
      have chunks : busy ++ [⟨1, .packet (newPacket (j + dataHeader) 1)⟩] ++
          [⟨0x200000 - 13 - 11 * k - 1 - 10, .free⟩] =
            pre ++ ⟨l, .packet (newPacket (j + dataHeader) 1)⟩ :: post := by
        simpa using chunks
      obtain ⟨post, rfl, front⟩ := split_before_last chunks (by simp)
      refine ⟨_, _, pre ++ ⟨l, .packet { newPacket (j + dataHeader) 1 with sent := true }⟩ :: post,
        run.append (.cons took (.cons (.send split rfl) (.nil _))), ?_, ?_, ?_, by simp [number], ?_⟩
      · have left : 0x200000 - 13 - 11 * k - 1 - 10 = 0x200000 - 13 - 11 * (k + 1) := by omega
        rw [← left, List.append_assoc, List.cons_append]
        exact tiled
      · intro c hc
        have old : ∀ c ∈ pre ++ post, c.use ≠ .free := by
          intro c hc
          have mem : c ∈ busy ++ [⟨1, .packet (newPacket (j + dataHeader) 1)⟩] := by
            rw [front]
            rcases List.mem_append.mp hc with h | h <;> simp [h]
          rcases List.mem_append.mp mem with h | h
          · exact inUse c h
          · simp [List.mem_singleton.mp h]
        rcases List.mem_append.mp hc with h | h
        · exact old c (List.mem_append_left _ h)
        · rcases List.mem_cons.mp h with rfl | h
          · simp
          · exact old c (List.mem_append_right _ h)
      · rw [existing_send inside, counter', counter]
        omega
      · simpa using allSent

/-- With 0x8001 packets outstanding ReadData hands over none of them. -/
theorem packets_stuck :
    ∃ es t u, Run (Step 0x200000) (freshState 0x200000) es t ∧ Step 0x200000 t (.read []) u ∧
      (t.packets.filter Packet.sent).length = 0x8001 ∧ ¬ Delivers [] t.packets := by
  obtain ⟨es, t, busy, run, -, -, counter, number, allSent⟩ := fill_buffer 0x8001 (by decide)
  have sent : (t.packets.filter Packet.sent).length = 0x8001 := by
    rw [List.filter_eq_self.mpr allSent, number]
  have refused : ∃ m, readData 0x200000 0 t.mem = some ([], m) := by
    have negative : ¬ existing (setExisting t.mem (existing t.mem + 0xffff)) < 0x8000 := by
      rw [existing, setExisting, Bytes.read_write, counter]
      decide
    simp only [readData, if_neg negative]
    exact ⟨_, rfl⟩
  obtain ⟨m, ran⟩ := refused
  refine ⟨es, t, _, run, .read ran, sent, ?_⟩
  rintro ⟨qs, perm, calls⟩
  obtain rfl : qs = [] := by
    cases calls
    rfl
  have length := perm.length_eq
  rw [sent] at length
  cases length

end LMalz.Buffer
