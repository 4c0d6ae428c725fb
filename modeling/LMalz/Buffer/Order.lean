import LMalz.Buffer.Representation

/- The order in which packets are handed over: that of PrepareData, if no packet is being prepared
during a ReadData. -/
namespace LMalz.Buffer
open Function (update)
open Bytes (Memory SameOn)
open Transition (Run Guarded)

/-- Packets lie before free chunks, and these before lost ones. -/
def Use.rank : Use → Nat
  | .packet _ => 0
  | .free => 1
  | .lost => 2

def Stacked (cs : List Chunk) : Prop := cs.Pairwise fun c d => c.use.rank ≤ d.use.rank

section Place
variable {n : Nat} {i : Int} {pre rest cs : List Chunk} {c d : Chunk}

theorem Use.rank_cases {u : Use} (busy : u ≠ .free) : u.rank = 0 ∨ u.rank = 2 := by
  cases u with
  | free => exact absurd rfl busy
  | lost => exact .inr rfl
  | packet p => exact .inl rfl

theorem Use.rank_le (u : Use) : u.rank ≤ 2 := by
  cases u <;> simp [Use.rank]

/-- Behind a lost chunk lie lost chunks only. -/
theorem Stacked.lost (h : Stacked (pre ++ c :: rest)) (lost : c.use.rank = 2) : ∀ e ∈ c :: rest,
    e.use.rank = 2 := by
  intro e he
  obtain ⟨-, second, -⟩ := List.pairwise_append.mp h
  rcases List.mem_cons.mp he with rfl | he
  · exact lost
  · have low := (List.pairwise_cons.mp second).1 e he
    exact Nat.le_antisymm e.use.rank_le (lost ▸ low)

theorem packetsOf_ranked (ranked : ∀ c ∈ cs, c.use.rank ≠ 0) : packetsOf cs = [] := by
  rw [packetsOf, List.filterMap_eq_nil_iff]
  intro c hc
  obtain ⟨k, use⟩ := c
  cases use with
  | free => rfl
  | lost => rfl
  | packet p => exact absurd rfl (ranked _ hc)

theorem Stacked.replace (h : Stacked (pre ++ c :: rest)) (same : d.use.rank = c.use.rank) :
    Stacked (pre ++ d :: rest) := by
  obtain ⟨first, second, between⟩ := List.pairwise_append.mp h
  obtain ⟨least, later⟩ := List.pairwise_cons.mp second
  refine List.pairwise_append.mpr ⟨first, List.pairwise_cons.mpr ⟨fun e he => ?_, later⟩,
    fun a ha => ?_⟩
  · rw [same]
    exact least e he
  · obtain ⟨here, behind⟩ := List.forall_mem_cons.mp (between a ha)
    refine List.forall_mem_cons.mpr ⟨?_, behind⟩
    rw [same]
    exact here

theorem Stacked.front (h : Stacked (pre ++ c :: rest)) (packets : ∀ b ∈ pre, b.use.rank = 0)
    (below : d.use.rank ≤ c.use.rank) : Stacked (pre ++ d :: rest) := by
  obtain ⟨first, second, -⟩ := List.pairwise_append.mp h
  obtain ⟨least, later⟩ := List.pairwise_cons.mp second
  refine List.pairwise_append.mpr ⟨first, List.pairwise_cons.mpr ⟨fun e he => ?_, later⟩,
    fun a ha b _ => ?_⟩
  · exact Nat.le_trans below (least e he)
  · rw [packets a ha]
    exact Nat.zero_le _

theorem Stacked.insert (h : Stacked (pre ++ rest)) (packets : ∀ b ∈ pre, b.use.rank = 0)
    (packet : c.use.rank = 0) :
    Stacked (pre ++ c :: rest) := by
  obtain ⟨first, second, -⟩ := List.pairwise_append.mp h
  refine List.pairwise_append.mpr ⟨first, List.pairwise_cons.mpr ⟨fun e _ => ?_, second⟩,
    fun a ha b _ => ?_⟩
  · rw [packet]
    exact Nat.zero_le _
  · rw [packets a ha]
    exact Nat.zero_le _

theorem Stacked.behind (h : Stacked (pre ++ c :: rest)) (free : c.use = .free) :
    packetsOf rest = [] := by
  apply packetsOf_ranked
  intro e he packet
  obtain ⟨-, second, -⟩ := List.pairwise_append.mp h
  have low := (List.pairwise_cons.mp second).1 e he
  rw [packet, free] at low
  exact absurd low (by decide)

/-- PrepareData on a stack takes the place behind the last packet. -/
theorem place_stacked (h : Stacked (pre ++ rest))
    (passed : (∀ c ∈ pre, c.use.rank = 0) ∨ ∀ c ∈ rest, c.use.rank = 2) :
    Stacked (place n i pre rest).2 ∧
      packetsOf (place n i pre rest).2 =
        packetsOf (pre ++ rest) ++ handedOut n (place n i pre rest).1 := by
  have reached {pre rest : List Chunk} {c : Chunk} (free : c.use = .free)
      (passed : (∀ c ∈ pre, c.use.rank = 0) ∨ ∀ e ∈ c :: rest, e.use.rank = 2) :
      ∀ c ∈ pre, c.use.rank = 0 := by
    rcases passed with packets | lost
    · exact packets
    · have rank := lost c List.mem_cons_self
      rw [free] at rank
      cases rank
  induction i, pre, rest using place.induct n with
  | case1 i pre =>
      rw [place]
      exact ⟨by simpa using h, by simp [handedOut]⟩
  | case2 i pre c rest free fits =>
      have packets := reached free passed
      have left : Stacked (pre ++ ⟨c.size - n - 10, .free⟩ :: rest) :=
        h.front packets (by rw [free])
      rw [place_divide free fits]
      refine ⟨left.insert packets rfl, ?_⟩
      rw [packetsOf_append, packetsOf_append, packetsOf_packet, packetsOf_free,
        packetsOf_cons_free free, h.behind free,
        List.append_nil]
      rfl
  | case3 i pre c rest free big fits =>
      rw [place_reuse free big fits]
      refine ⟨h.front (reached free passed) (Nat.zero_le _), ?_⟩
      rw [packetsOf_append, packetsOf_append, packetsOf_packet, packetsOf_cons_free free,
        h.behind free, List.append_nil]
      rfl
  | case4 i pre c free big fits =>
      have packets := reached free passed
      rw [place_last free big fits]
      refine ⟨List.pairwise_append.mpr ⟨(List.pairwise_append.mp h).1, List.pairwise_singleton _ _,
        fun a ha b _ => ?_⟩, ?_⟩
      · rw [packets a ha]
        exact Nat.zero_le _
      · rw [packetsOf_append, packetsOf_append, packetsOf_lost, packetsOf_cons_free free, handedOut,
          List.append_nil]
  | case5 i pre c free big fits d rest dfree ih =>
      have dfree := Use.isFree_iff.mp dfree
      have merged : Stacked (pre ++ ⟨c.size + d.size + 10, .free⟩ :: rest) := by
        have both : Stacked ((pre ++ [c]) ++ d :: rest) := by simpa using h
        have without : Stacked (pre ++ c :: rest) := by
          refine List.Pairwise.sublist ?_ h
          exact (List.Sublist.refl pre).append ((List.sublist_cons_self d rest).cons_cons c)
        exact without.front (reached free passed) (by rw [free])
      rw [place_merge free big fits dfree]
      obtain ⟨stacked, order⟩ := ih merged (.inl fun _ none => absurd none List.not_mem_nil)
      refine ⟨stacked, ?_⟩
      rw [order, List.nil_append, packetsOf_append, packetsOf_append, packetsOf_free,
        packetsOf_cons_free free,
        packetsOf_cons_free dfree]
  | case6 i pre c free big fits d rest dfree ih =>
      have next : d.use ≠ .free := fun hd => dfree (Use.isFree_iff.mpr hd)
      rw [place_blocked free big fits next]
      have append : (pre ++ [c]) ++ d :: rest = pre ++ c :: d :: rest := by simp
      have later : c.use.rank ≤ d.use.rank := by
        obtain ⟨-, second, -⟩ := List.pairwise_append.mp h
        exact (List.pairwise_cons.mp second).1 d List.mem_cons_self
      rw [free] at later
      rw [← append] at h ⊢
      rcases Use.rank_cases next with packet | lost
      · rw [packet] at later
        exact absurd later (by decide)
      · exact ih h (.inr (h.lost lost))
  | case7 i pre c rest busy ih =>
      rw [place_busy busy]
      have append : (pre ++ [c]) ++ rest = pre ++ c :: rest := by simp
      refine append ▸ ih (append ▸ h) ?_
      rcases passed with packets | lost
      · rcases Use.rank_cases busy with packet | lost
        · exact .inl (List.forall_mem_append.mpr ⟨packets, List.forall_mem_singleton.mpr packet⟩)
        · exact .inr fun e he => h.lost lost e (List.mem_cons_of_mem c he)
      · exact .inr fun e he => lost e (List.mem_cons_of_mem c he)

end Place

/-- The chunks are stacked and carry the packets, which the state lists from the youngest on. -/
structure Ordered (bufferSize : Int) (s : State) (cs : List Chunk) : Prop where
  laid : Layout s.mem dataArea cs bufferSize
  order : packetsOf cs = s.packets.reverse
  stacked : Stacked cs

/-- Nothing is being prepared or filled during a ReadData. -/
def QuietRead (s : State) : Event → Prop
  | .read _ => ∀ p ∈ s.packets, p.sent = true
  | _ => True

section Steps
variable {bufferSize : Int} {s t : State} {cs : List Chunk}

theorem Ordered.tiled (h : Ordered bufferSize s cs) : Tiled bufferSize s cs := by
  refine ⟨h.laid, ?_⟩
  rw [h.order]
  exact (List.reverse_perm _).symm

theorem Ordered.prepared {n fuel : Nat} {r : Option Int} {m : Memory} (h : Ordered bufferSize s cs)
    (small : bufferSize < 2^31) (short : n < 2^16)
    (ran : prepareData bufferSize n fuel s.mem = some (r, m)) :
    Ordered bufferSize ⟨m, handedOut n r ++ s.packets⟩ (place n dataArea [] cs).2 := by
  obtain ⟨rfl, laid, -⟩ := prepareData_placed small short h.laid ran
  have start : Stacked ([] ++ cs) := h.stacked
  obtain ⟨stacked, order⟩ := place_stacked start (.inl fun _ none => absurd none List.not_mem_nil)
  refine ⟨laid, ?_, stacked⟩
  have one : (handedOut n (place n dataArea [] cs).1).reverse =
    handedOut n (place n dataArea [] cs).1 := by
    cases (place n dataArea [] cs).1 <;> rfl
  rw [order, List.nil_append, h.order, List.reverse_append, one]

theorem Ordered.exchange {before after : List Packet} {p q : Packet} {m : Memory}
    (h : Ordered bufferSize s cs)
    (split : s.packets = before ++ p :: after)
    (store : ∀ k j, dataArea ≤ j → ChunkAt s.mem j ⟨k, .packet p⟩ → ChunkAt m j ⟨k, .packet q⟩ ∧
      ∀ a b, dataArea ≤ a → b ≤ j ∨ j + dataHeader + k ≤ a → SameOn s.mem m a b) :
    ∃ cs, Ordered bufferSize ⟨m, before ++ q :: after⟩ cs := by
  have order := h.order
  rw [split, List.reverse_append, List.reverse_cons, List.append_assoc,
    List.singleton_append, packetsOf,
    List.filterMap_eq_append_iff] at order
  obtain ⟨pre, rest, rfl, older, order⟩ := order
  obtain ⟨between, c, post, rfl, none, packet, younger⟩ := List.filterMap_eq_cons_iff.mp order
  obtain ⟨k, hc⟩ : ∃ k, c = ⟨k, .packet p⟩ := by
    obtain ⟨k, use⟩ := c
    cases use with
    | free => cases packet
    | lost => cases packet
    | packet o =>
        cases packet
        exact ⟨k, rfl⟩
  subst hc
  have front : pre ++ (between ++ ⟨k, .packet p⟩ :: post) =
    (pre ++ between) ++ ⟨k, .packet p⟩ :: post := by simp
  have empty : packetsOf between = [] := List.filterMap_eq_nil_iff.mpr none
  have laid := h.laid
  have stacked := h.stacked
  rw [front] at laid stacked
  refine ⟨(pre ++ between) ++ ⟨k, .packet q⟩ :: post,
    laid.replace fun j low _ here => store k j low here, ?_,
    stacked.replace rfl⟩
  rw [packetsOf_append, packetsOf_append, packetsOf_packet, empty, List.append_nil,
    List.reverse_append,
    List.reverse_cons, List.append_assoc, List.singleton_append, packetsOf, packetsOf,
      older, younger]

theorem Stacked.afterRead (h : Stacked cs) (quiet : ∀ p ∈ packetsOf cs, p.sent = true) :
    Stacked (cs.map Chunk.afterRead) := by
  have ranked : ∀ c ∈ cs, c.afterRead.use.rank = max 1 c.use.rank := by
    intro c hc
    obtain ⟨k, use⟩ := c
    cases use with
    | free => rfl
    | lost => rfl
    | packet p =>
        have sent : p.sent = true := quiet p (List.mem_filterMap.mpr ⟨_, hc, rfl⟩)
        rw [Chunk.afterRead]
        dsimp only
        rw [if_pos sent]
        rfl
  refine List.pairwise_map.mpr (h.imp_of_mem fun {c d} hc hd low => ?_)
  rw [ranked c hc, ranked d hd]
  exact max_le_max (Nat.le_refl 1) low

/-- ReadData calls its handler for the packets from the oldest on, or not at all. -/
theorem Ordered.read {fuel : Nat} {ds : List Delivery} {m : Memory} (h : Ordered bufferSize s cs)
    (ran : readData bufferSize fuel s.mem = some (ds, m)) (quiet : ∀ p ∈ s.packets, p.sent = true) :
    (0x8000 ≤ (existing s.mem + 0xffff) % 2^16 ∧ ds = [] ∧ existing m = existing s.mem ∧
        Ordered bufferSize ⟨m, s.packets⟩ cs) ∨
      ((existing s.mem + 0xffff) % 2^16 < 0x8000 ∧ List.Forall₂ Matches ds s.packets.reverse ∧
        existing m = (existing s.mem + 0xffff) % 2^16 ∧
          Ordered bufferSize ⟨m, []⟩ (cs.map Chunk.afterRead)) := by
  have carried : ∀ p ∈ packetsOf cs, p.sent = true := by
    rw [h.order]
    exact fun p hp => quiet p (List.mem_reverse.mp hp)
  rcases readData_handed h.laid ran with ⟨gate, none, counter, same⟩ | ⟨gate, calls, counter, laid⟩
  · exact .inl ⟨gate, none, counter, h.laid.frame same, h.order, h.stacked⟩
  · rw [List.filter_eq_self.mpr carried, h.order] at calls
    refine .inr ⟨gate, calls, counter, laid, ?_, h.stacked.afterRead carried⟩
    rw [packetsOf_afterRead, List.filter_eq_nil_iff.mpr fun p hp => by simp [carried p hp]]
    rfl

end Steps

/-- Where a packet lies and the length asked for. -/
def Packet.region (p : Packet) : Int × Nat := (p.data, p.len)
def Delivery.region (d : Delivery) : Int × Nat := (d.data, d.length)

/-- The region that PrepareData hands out. -/
def Event.prepares : Event → List (Int × Nat)
  | .prepare n region => region.toList.map fun data => (data, n)
  | _ => []

/-- The regions with which the handler is called. -/
def Event.delivers : Event → List (Int × Nat)
  | .read ds => ds.map Delivery.region
  | _ => []

/-- The packets in the buffer, from the oldest on. -/
def State.waiting (s : State) : List (Int × Nat) := s.packets.reverse.map Packet.region

section Order
variable {bufferSize : Int} {s t : State} {e : Event} {es : List Event} {cs : List Chunk}

theorem Matches.region {d : Delivery} {p : Packet} (h : Matches d p) : d.region = p.region :=
  Prod.ext h.data h.length

theorem Ordered.step (h : Ordered bufferSize s cs) (small : bufferSize < 2^31)
    (step : Guarded (Step bufferSize) QuietRead s e t) :
    e.delivers ++ t.waiting = s.waiting ++ e.prepares ∧ ∃ cs, Ordered bufferSize t cs := by
  obtain ⟨quiet, step⟩ := step
  cases step with
  | refused short ran => exact ⟨(List.append_nil _).symm, _, h.prepared small short ran⟩
  | prepare short ran =>
      refine ⟨?_, _, h.prepared small short ran⟩
      simp [State.waiting, Event.prepares, Event.delivers, Packet.region]
  | @write before after p i v split unsent inside =>
      refine ⟨?_, h.exchange split fun k j low here => ?_⟩
      · simp [State.waiting, Event.prepares, Event.delivers, Packet.region, split]
      · obtain ⟨stored, out⟩ := here.written inside v
        exact ⟨stored, fun a b _ apart => out a b apart⟩
  | @send before after p split unsent =>
      refine ⟨?_, h.exchange split fun k j low here => here.sent low⟩
      simp [State.waiting, Event.prepares, Event.delivers, Packet.region, split]
  | @read fuel ds m ran =>
      rcases h.read ran quiet with ⟨-, rfl, -, ordered⟩ | ⟨-, calls, -, ordered⟩
      · have all : unread [] s.packets = s.packets := by simp [unread]
        rw [all]
        exact ⟨(List.append_nil _).symm, cs, ordered⟩
      · have sent : s.packets.filter Packet.sent = s.packets := List.filter_eq_self.mpr quiet
        have delivers : Delivers ds s.packets := ⟨_, sent.symm ▸ List.reverse_perm _, calls⟩
        have none : unread ds s.packets = [] := by
          rw [unread_delivered delivers]
          exact List.filter_eq_nil_iff.mpr fun p hp => by simp [quiet p hp]
        have same : ds.map Delivery.region = s.packets.reverse.map Packet.region := by
          rw [← List.forall₂_eq_eq_eq]
          exact (List.forall₂_map_left_iff.mpr
            (List.forall₂_map_right_iff.mpr (calls.imp fun _ _ h => h.region)))
        rw [none]
        refine ⟨?_, _, ordered⟩
        simpa [State.waiting, Event.delivers, Event.prepares] using same

/-- What the handler gets and what is still in the buffer is what was asked for, in its order. -/
theorem Ordered.run (run : Run (Guarded (Step bufferSize) QuietRead) s es t)
    (small : bufferSize < 2^31)
    (h : ∃ cs, Ordered bufferSize s cs) :
    es.flatMap Event.delivers ++ t.waiting = s.waiting ++ es.flatMap Event.prepares := by
  induction run with
  | nil s => simp
  | @cons s u t e es first rest ih =>
      obtain ⟨cs, h⟩ := h
      obtain ⟨here, later⟩ := h.step small first
      rw [List.flatMap_cons, List.append_assoc, ih later, ← List.append_assoc, here,
        List.append_assoc, List.flatMap_cons]

end Order

theorem Initial.ordered {bufferSize : Nat} {s : State} (low : headSize ≤ bufferSize)
    (high : bufferSize < 2^31)
    (start : Initial bufferSize s) : Ordered bufferSize s [⟨bufferSize - 13, .free⟩] := by
  have tiled := start.tiled low high
  obtain ⟨m, -, rfl⟩ := start
  exact ⟨tiled.1, rfl, List.pairwise_singleton _ _⟩

/-- The reader gets the packets in the order in which PrepareData handed out their regions, if it
never reads while one of them is prepared and not sent. -/
theorem delivered_in_order {bufferSize : Nat} {s t : State} {es : List Event}
    (low : headSize ≤ bufferSize)
    (high : bufferSize < 2^31) (start : Initial bufferSize s)
    (run : Run (Guarded (Step bufferSize) QuietRead) s es t) :
    es.flatMap Event.delivers ++ t.waiting = es.flatMap Event.prepares := by
  have small : (bufferSize : Int) < 2^31 := by omega
  have empty : s.waiting = [] := by
    obtain ⟨m, -, rfl⟩ := start
    rfl
  have ends := Ordered.run run small ⟨_, start.ordered low high⟩
  rwa [empty, List.nil_append] at ends

theorem delivered_in_order_one_packet : ∃ es t, es.flatMap Event.prepares = [(13, 1)] ∧
    Run (Guarded (Step 0x200000) QuietRead) (freshState 0x200000) es t ∧
    es.flatMap Event.delivers ++ t.waiting = es.flatMap Event.prepares := by
  have start := freshState_initial 0x200000
  obtain ⟨s, took, -, -, packets⟩ :=
    (start.tiled (by decide) (by decide)).prepare_step (n := 1) (by decide) (by decide)
  rw [place_divide rfl (by decide)] at took packets
  have split : s.packets = [] ++ newPacket (dataArea + dataHeader) 1 :: [] := packets
  have first : Guarded (Step 0x200000) QuietRead (freshState 0x200000)
    (.prepare 1 (some (dataArea + dataHeader))) s :=
    ⟨trivial, took⟩
  have second : Guarded (Step 0x200000) QuietRead s (.send (dataArea + dataHeader)) _ :=
    ⟨trivial, .send split rfl⟩
  obtain ⟨-, cs, prepared⟩ := Ordered.step (start.ordered (by decide) (by decide)) (by decide) first
  obtain ⟨-, cs, sent⟩ := prepared.step (by decide) second
  obtain ⟨fuel, ⟨ds, m⟩, ran⟩ := readData_ends sent.tiled
  have run : Run (Guarded (Step 0x200000) QuietRead) (freshState 0x200000)
      [.prepare 1 (some (dataArea + dataHeader)), .send (dataArea + dataHeader), .read ds] _ :=
    .cons first (.cons second (.cons ⟨List.forall_mem_singleton.mpr rfl, .read ran⟩ (.nil _)))
  exact ⟨_, _, rfl, run, delivered_in_order (by decide) (by decide) start run⟩

end LMalz.Buffer
