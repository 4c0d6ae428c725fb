import LMalz.Buffer.Representation
import LMalz.Lib.Fields

/- What the reader finds in a region: the stores of its producer over what the region
held when it was handed out. -/
namespace LMalz.Buffer
open Function (update)
open Bytes (Memory store)
open Transition (Run)

/-- The bytes behind an address. -/
def view (m : Memory) (data : Int) : Memory := fun x => m (data + x)

def writesTo (data : Int) : Event → Option (Nat × BitVec 8)
  | .write d i v => if d = data then some (i, v) else none
  | _ => none

/-- The packet with all the bytes of its region taken as written. -/
def Packet.observe (m : Memory) (p : Packet) : Packet :=
  { p with written := fun k => if k < p.len then some (m (p.data + k)) else none }

def Chunk.observe (m : Memory) (c : Chunk) : Chunk :=
  match c.use with
  | .packet p => ⟨c.size, .packet (p.observe m)⟩
  | _ => c

section Observed
variable {bufferSize : Int} {s t : State} {cs : List Chunk} {m : Memory} {i e : Int}

theorem packetsOf_observe :
    packetsOf (cs.map (Chunk.observe m)) = (packetsOf cs).map (Packet.observe m) := by
  induction cs with
  | nil => rfl
  | cons c cs ih =>
      obtain ⟨k, use⟩ := c
      cases use with
      | free => exact ih
      | lost => exact ih
      | packet p => exact congrArg (List.cons (p.observe m)) ih

theorem ChunkAt.observe {c : Chunk} (h : ChunkAt m i c) :
    ChunkAt m i (c.observe m) ∧ (c.observe m).size = c.size := by
  obtain ⟨k, use⟩ := c
  cases use with
  | free => exact ⟨h, rfl⟩
  | lost => exact ⟨h, rfl⟩
  | packet p =>
      obtain ⟨sized, data, fits, prep, val, len, -⟩ := h
      refine ⟨⟨sized, data, fits, prep, val, len, ?_⟩, rfl⟩
      intro j v hj
      simp only [Packet.observe] at hj
      split at hj
      · next inside =>
          cases hj
          exact ⟨inside, rfl⟩
      · cases hj

theorem Layout.observe (h : Layout m i cs e) : Layout m i (cs.map (Chunk.observe m)) e := by
  induction cs generalizing i with
  | nil => exact h
  | cons c cs ih =>
      obtain ⟨here, size⟩ := h.1.observe
      refine ⟨here, ?_⟩
      rw [size]
      exact ih h.2

def State.observe (s : State) : State := ⟨s.mem, s.packets.map (Packet.observe s.mem)⟩

theorem Tiled.observe (h : Tiled bufferSize s cs) :
    Tiled bufferSize s.observe (cs.map (Chunk.observe s.mem)) := by
  refine ⟨h.1.observe, ?_⟩
  rw [packetsOf_observe]
  exact h.2.map _

theorem Tiled.holds {p : Packet} {k : Nat} {v : BitVec 8} (h : Tiled bufferSize s cs)
    (hp : p ∈ s.packets) (written : p.written k = some v) : s.mem (p.data + k) = v := by
  obtain ⟨before, after, split⟩ := List.append_of_mem hp
  obtain ⟨pre, size, post, rfl, -⟩ := h.chunk split
  obtain ⟨j, -, here, -⟩ := Layout.append.mp h.1
  obtain ⟨-, -, -, -, -, bytes⟩ := here.used
  exact (bytes k v written).2

theorem Tiled.others {before after : List Packet} {p q : Packet} (h : Tiled bufferSize s cs)
    (split : s.packets = before ++ p :: after) (hq : q ∈ before ++ after) : q.data ≠ p.data := by
  have disjoint := h.wellFormed.disjoint
  rw [split, List.Perm.pairwise_iff Or.symm List.perm_middle] at disjoint
  have apart := (List.pairwise_cons.mp disjoint).1 q hq
  have header : dataHeader = 10 := rfl
  omega

/-- The region of `q` after an event: its bytes before with the event's store over them. -/
def Followed (s : State) (e : Event) (P : List Packet) (q : Packet) : Prop :=
  (∃ p ∈ s.packets, p.data = q.data ∧ p.len = q.len) ∧
    ∃ q' ∈ P, q'.data = q.data ∧ ∀ k < q.len,
      q'.written k = some (store (view s.mem q.data) (writesTo q.data e).toList k)

theorem followed_still {e : Event} {P : List Packet} {p q' : Packet} (hp : p ∈ s.packets)
    (none : writesTo p.data e = none) (hq : q' ∈ P) (data : q'.data = p.data)
    (written : q'.written = (p.observe s.mem).written) : Followed s e P p := by
  refine ⟨⟨p, hp, rfl, rfl⟩, q', hq, data, ?_⟩
  intro k inside
  rw [none, written]
  simp [Packet.observe, inside, store, view]

theorem observe_mem {before after : List Packet} {p q : Packet} (hq : q ∈ before ++ after) :
    q.observe m ∈ before.map (Packet.observe m) ++ p :: after.map (Packet.observe m) := by
  refine List.perm_middle.mem_iff.mpr (List.mem_cons_of_mem p ?_)
  rw [← List.map_append]
  exact List.mem_map_of_mem hq

/-- A step does to the observed packets what it does to the state. -/
theorem observed_step {e : Event} (h : Tiled bufferSize s cs) (step : Step bufferSize s e t) :
    ∃ P, Step bufferSize s.observe e ⟨t.mem, P⟩ ∧
      ∀ q ∈ t.packets, Followed s e P q ∨ e = .prepare q.len (some q.data) := by
  cases step with
  | refused short ran =>
      refine ⟨_, .refused short ran, fun q hq => .inl ?_⟩
      exact followed_still hq rfl (List.mem_map_of_mem hq) rfl rfl
  | prepare short ran =>
      refine ⟨_, .prepare short ran, fun q hq => ?_⟩
      rcases List.mem_cons.mp hq with rfl | hq
      · exact .inr rfl
      · exact .inl (followed_still hq rfl (List.mem_cons_of_mem _ (List.mem_map_of_mem hq)) rfl rfl)
  | @write before after p i v split unsent inside =>
      have observed : s.observe.packets = before.map (Packet.observe s.mem) ++
          p.observe s.mem :: after.map (Packet.observe s.mem) := by
        simp only [State.observe, split, List.map_append, List.map_cons]
      have written : Step bufferSize s.observe (.write (p.observe s.mem).data i v) _ :=
        .write observed unsent inside
      refine ⟨_, written, fun q hq => .inl ?_⟩
      have hp : p ∈ s.packets := by simp [split]
      rcases List.mem_cons.mp (List.perm_middle.mem_iff.mp hq) with rfl | hq
      · refine ⟨⟨p, hp, rfl, rfl⟩, _, List.mem_append_right _ List.mem_cons_self, rfl, ?_⟩
        intro k below
        by_cases same : k = i
        · subst same
          simp [writesTo, store]
        · have below : k < p.len := below
          have other : (k : Int) ≠ i := by omega
          simp [writesTo, store, same, other, Packet.observe, below, view]
      · have apart := h.others split hq
        have hq' : q ∈ s.packets := by
          rw [split]
          exact List.perm_middle.mem_iff.mpr (List.mem_cons_of_mem p hq)
        have still : writesTo q.data (.write p.data i v) = none := if_neg apart.symm
        exact followed_still hq' still (observe_mem hq) rfl rfl
  | @send before after p split unsent =>
      have observed : s.observe.packets = before.map (Packet.observe s.mem) ++
          p.observe s.mem :: after.map (Packet.observe s.mem) := by
        simp only [State.observe, split, List.map_append, List.map_cons]
      have sent : Step bufferSize s.observe (.send (p.observe s.mem).data) _ :=
        .send observed unsent
      refine ⟨_, sent, fun q hq => .inl ?_⟩
      have hp : p ∈ s.packets := by simp [split]
      rcases List.mem_cons.mp (List.perm_middle.mem_iff.mp hq) with rfl | hq
      · have marked : { p.observe s.mem with sent := true } ∈
            before.map (Packet.observe s.mem) ++ { p.observe s.mem with sent := true } ::
              after.map (Packet.observe s.mem) :=
          List.mem_append_right _ List.mem_cons_self
        obtain ⟨-, followed⟩ := followed_still (e := .send p.data) hp rfl marked rfl rfl
        exact ⟨⟨p, hp, rfl, rfl⟩, followed⟩
      · have hq' : q ∈ s.packets := by
          rw [split]
          exact List.perm_middle.mem_iff.mpr (List.mem_cons_of_mem p hq)
        exact followed_still hq' rfl (observe_mem hq) rfl rfl
  | read ran =>
      refine ⟨_, .read ran, fun q hq => .inl ?_⟩
      obtain ⟨hq', kept⟩ := List.mem_filter.mp hq
      exact followed_still hq' rfl (List.mem_filter.mpr ⟨List.mem_map_of_mem hq', kept⟩) rfl rfl

end Observed

section Regions
variable {bufferSize : Int} {s t : State} {cs : List Chunk} {data : Int} {n : Nat}
  {content : Memory} {ws : List (Nat × BitVec 8)}

/-- A region at `data` is the one that was asked for, and holds `content` under the
stores `ws`. -/
def Contains (s : State) (data : Int) (n : Nat) (content : Memory)
    (ws : List (Nat × BitVec 8)) : Prop :=
  ∀ q ∈ s.packets, q.data = data →
    q.len = n ∧ ∀ k : Nat, k < n → s.mem (data + k) = store content ws k

theorem Contains.step {e : Event} (small : bufferSize < 2^31) (h : Tiled bufferSize s cs)
    (c : Contains s data n content ws) (step : Step bufferSize s e t)
    (own : ∀ k, e ≠ .prepare k (some data)) :
    Contains t data n content (ws ++ (writesTo data e).toList) := by
  obtain ⟨P, followed, regions⟩ := observed_step h step
  obtain ⟨cs', after⟩ := tiled_step small ⟨_, h.observe⟩ followed
  intro q hq hdata
  rcases regions q hq with ⟨⟨p, hp, same, len⟩, q', hq', data', written⟩ | again
  · obtain ⟨hlen, held⟩ := c p hp (same.trans hdata)
    refine ⟨len.symm.trans hlen, ?_⟩
    intro k inside
    have stored := after.holds hq' (written k (by omega))
    rw [data', hdata] at stored
    rw [stored, Bytes.store_append]
    exact Bytes.store_congr (held k inside)
  · rw [hdata] at again
    exact absurd again (own q.len)

theorem Contains.run {es : List Event} (small : bufferSize < 2^31)
    (h : ∃ cs, Tiled bufferSize s cs) (c : Contains s data n content ws)
    (run : Run (Step bufferSize) s es t) (own : ∀ k, .prepare k (some data) ∉ es) :
    Contains t data n content (ws ++ es.filterMap (writesTo data)) := by
  induction run generalizing ws with
  | nil s => simpa using c
  | @cons s t u e es first rest ih =>
      obtain ⟨cs, tiled⟩ := h
      have next := c.step small tiled first fun k same => own k (by simp [same])
      have later := ih (tiled_step small ⟨cs, tiled⟩ first) next fun k hk =>
        own k (List.mem_cons_of_mem e hk)
      have all : (writesTo data e).toList ++ es.filterMap (writesTo data) =
          (e :: es).filterMap (writesTo data) := by
        cases hw : writesTo data e <;> simp [hw]
      rwa [List.append_assoc, all] at later

/-- A handler call finds the length asked for and the bytes of the region. -/
theorem Contains.delivered {ds : List Delivery} {d : Delivery} (h : Tiled bufferSize s cs)
    (c : Contains s data n content ws) (read : Step bufferSize s (.read ds) t) (hd : d ∈ ds)
    (here : d.data = data) :
    d.length = n ∧ d.bytes.length = n ∧
      ∀ k : Nat, k < n → d.bytes[k]? = some (store content ws k) := by
  cases read with
  | read ran =>
      rcases readData_outcome h.observe ran with ⟨-, rfl, -⟩ | ⟨-, ⟨qs, perm, calls⟩, -⟩
      · cases hd
      · obtain ⟨l, inside, rfl⟩ := List.mem_iff_getElem.mp hd
        have matched := calls.get inside (calls.length_eq ▸ inside)
        have among := perm.mem_iff.mp (List.get_mem qs ⟨l, calls.length_eq ▸ inside⟩)
        obtain ⟨p, hp, observed⟩ := List.mem_map.mp (List.mem_filter.mp among).1
        rw [← observed] at matched
        have hdata : p.data = data := matched.data.symm.trans here
        obtain ⟨len, held⟩ := c p hp hdata
        refine ⟨matched.length.trans len, matched.bytes.trans len, ?_⟩
        intro k below
        refine matched.written k _ ?_
        simp [Packet.observe, len, below, hdata, held k below]

theorem Contains.fresh (h : Tiled bufferSize t cs)
    (took : Step bufferSize s (.prepare n (some data)) t) :
    Contains t data n (view t.mem data) [] := by
  cases took with
  | @prepare n fuel data m short ran =>
      intro q hq hdata
      have split : newPacket data n :: s.packets = [] ++ newPacket data n :: s.packets := rfl
      rcases List.mem_cons.mp hq with rfl | hq
      · exact ⟨rfl, fun k _ => rfl⟩
      · exact absurd hdata (h.others split hq)

end Regions

/-- Until the region is handed out again, the reader finds in it the stores of its
producer over what PrepareData left there. -/
theorem delivered_contents {bufferSize : Nat} {o s s' t u : State} {es es' : List Event}
    {n : Nat} {data : Int} {ds : List Delivery} {d : Delivery} (low : headSize ≤ bufferSize)
    (high : bufferSize < 2^31) (start : Initial bufferSize o)
    (reach : Run (Step bufferSize) o es s)
    (took : Step bufferSize s (.prepare n (some data)) s')
    (run : Run (Step bufferSize) s' es' t) (own : ∀ k, .prepare k (some data) ∉ es')
    (read : Step bufferSize t (.read ds) u) (hd : d ∈ ds) (here : d.data = data) :
    d.length = n ∧ d.bytes.length = n ∧ ∀ k : Nat, k < n →
      d.bytes[k]? = some (store (view s'.mem data) (es'.filterMap (writesTo data)) k) := by
  have small : (bufferSize : Int) < 2^31 := by omega
  have tiled : ∃ cs, Tiled bufferSize s' cs :=
    tiled_step small (reach.invariant (I := fun s => ∃ cs, Tiled bufferSize s cs)
      (tiled_step small) ⟨_, start.tiled low high⟩) took
  obtain ⟨cs, prepared⟩ := tiled
  obtain ⟨cs', later⟩ := run.invariant (I := fun s => ∃ cs, Tiled bufferSize s cs)
    (tiled_step small) ⟨cs, prepared⟩
  have contains := (Contains.fresh prepared took).run small ⟨cs, prepared⟩ run own
  exact contains.delivered later read hd here

end LMalz.Buffer
