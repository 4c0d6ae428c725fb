import LMalz.Buffer.Refinement

/- Every reachable buffer is tiled by chunks whose packets are those held or sent. -/
namespace LMalz.Buffer
open Function (update)
open Bytes (Memory SameOn)
open Loop (Returns)
open Transition (Run Guarded)

/-- The invariant: the chunks tile the buffer and carry the packets. -/
def Tiled (bufferSize : Int) (s : State) (cs : List Chunk) : Prop :=
  Layout s.mem dataArea cs bufferSize ∧ s.packets.Perm (packetsOf cs)

section Steps
variable {bufferSize : Int} {s t : State} {cs : List Chunk}

theorem prepareData_placed {n fuel : Nat} {r : Option Int × Memory} (small : bufferSize < 2^31)
    (short : n < 2^16) (laid : Layout s.mem dataArea cs bufferSize)
    (ran : prepareData bufferSize n fuel s.mem = some r) :
    r.1 = (place n dataArea [] cs).1 ∧ Layout r.2 dataArea (place n dataArea [] cs).2 bufferSize ∧
      SameOn s.mem r.2 0 dataArea := by
  obtain ⟨m', ran', laid', head⟩ := place_refined small short (Layout.nil _ _) laid
  obtain rfl : r = _ := Returns.unique ⟨fuel, ran⟩ ran'
  exact ⟨rfl, laid', head⟩

theorem Tiled.prepared {n fuel : Nat} {r : Option Int} {m : Memory} (small : bufferSize < 2^31)
    (short : n < 2^16) (h : Tiled bufferSize s cs)
    (ran : prepareData bufferSize n fuel s.mem = some (r, m)) :
    Tiled bufferSize ⟨m, handedOut n r ++ s.packets⟩ (place n dataArea [] cs).2 := by
  obtain ⟨rfl, laid, -⟩ := prepareData_placed small short h.1 ran
  exact ⟨laid, (h.2.append_left _).trans place_packets.symm⟩

/-- A packet of the state and the chunk that carries it, ready to be changed together. -/
theorem Tiled.chunk {before after : List Packet} {p : Packet} (h : Tiled bufferSize s cs)
    (split : s.packets = before ++ p :: after) :
    ∃ pre k post, cs = pre ++ ⟨k, .packet p⟩ :: post ∧
      ∀ q, (before ++ q :: after).Perm (packetsOf (pre ++ ⟨k, .packet q⟩ :: post)) := by
  have perm := h.2
  rw [split] at perm
  have mem : p ∈ packetsOf cs := perm.mem_iff.mp (by simp)
  obtain ⟨c, hc, hp⟩ := List.mem_filterMap.mp mem
  obtain ⟨pre, post, rfl⟩ := List.append_of_mem hc
  obtain ⟨k, use⟩ := c
  have hu : use = .packet p := by
    cases use with
    | free => cases hp
    | lost => cases hp
    | packet q =>
        obtain rfl : q = p := by simpa [Chunk.packet?] using hp
        rfl
  subst hu
  refine ⟨pre, k, post, rfl, fun q => ?_⟩
  rw [packetsOf_append, packetsOf_packet] at perm ⊢
  have others : (before ++ after).Perm (packetsOf pre ++ packetsOf post) :=
    List.perm_cons p |>.mp (List.perm_middle.symm.trans (perm.trans List.perm_middle))
  exact List.perm_middle.trans ((others.cons q).trans List.perm_middle.symm)

theorem Layout.replace {m m' : Memory} {pre post : List Chunk} {k : Nat} {u u' : Use} {i : Int}
    (laid : Layout m i (pre ++ ⟨k, u⟩ :: post) bufferSize)
    (store : ∀ j, i ≤ j → j + dataHeader + k ≤ bufferSize → ChunkAt m j ⟨k, u⟩ →
      ChunkAt m' j ⟨k, u'⟩ ∧
        ∀ a b, i ≤ a → b ≤ j ∨ j + dataHeader + k ≤ a → SameOn m m' a b) :
    Layout m' i (pre ++ ⟨k, u'⟩ :: post) bufferSize := by
  have header : dataHeader = 10 := rfl
  obtain ⟨j, hpre, here, hpost⟩ := Layout.append.mp laid
  have low := hpre.le
  obtain ⟨here', out⟩ := store j low hpost.le here
  exact Layout.append.mpr ⟨j, hpre.frame (out _ _ (Int.le_refl _) (.inl (Int.le_refl _))), here',
    hpost.frame (out _ _ (by omega) (.inr (Int.le_refl _)))⟩

theorem ChunkAt.written {m : Memory} {k i : Nat} {j : Int} {p : Packet} (here : ChunkAt m j ⟨k, .packet p⟩)
    (inside : i < p.len) (v : BitVec 8) :
    ChunkAt (update m (p.data + i) v) j ⟨k, .packet { p with written := update p.written i (some v) }⟩ ∧
      ∀ a b, b ≤ j ∨ j + dataHeader + k ≤ a → SameOn m (update m (p.data + i) v) a b := by
  have header : dataHeader = 10 := rfl
  obtain ⟨sized, data, fits, prep, val, len, bytes⟩ := here
  have fits : p.len ≤ k := fits
  have out : ∀ a b, b ≤ j + dataHeader ∨ j + dataHeader + k ≤ a →
      SameOn m (update m (p.data + i) v) a b :=
    fun a b apart => Bytes.sameOn_update (by omega)
  have head : SameOn m (update m (p.data + i) v) j (j + dataHeader) :=
    out _ _ (.inl (Int.le_refl _))
  refine ⟨⟨?_, data, fits, ?_, ?_, ?_, ?_⟩, fun a b apart => out a b (by omega)⟩
  · rw [size, Bytes.read_congr (head.sub (by omega) (by omega))]
    exact sized
  · rw [prepare, Bytes.read_congr (head.sub (by omega) (by omega))]
    exact prep
  · rw [valid, Bytes.read_congr (head.sub (by omega) (by omega))]
    exact val
  · rw [length, Bytes.read_congr (head.sub (by omega) (by omega))]
    exact len
  · intro l w hw
    by_cases same : l = i
    · subst same
      obtain rfl : v = w := by simpa using hw
      exact ⟨inside, Function.update_self _ _ _⟩
    · simp only [Function.update_of_ne same] at hw
      obtain ⟨lower, byte⟩ := bytes l w hw
      refine ⟨lower, ?_⟩
      have other : p.data + (l : Int) ≠ p.data + i := by omega
      simp only [Function.update_of_ne other]
      exact byte

theorem Tiled.written {before after : List Packet} {p : Packet} {i : Nat} {v : BitVec 8}
    (h : Tiled bufferSize s cs) (split : s.packets = before ++ p :: after) (inside : i < p.len) :
    ∃ cs, Tiled bufferSize ⟨update s.mem (p.data + i) v,
      before ++ { p with written := update p.written i (some v) } :: after⟩ cs := by
  obtain ⟨pre, k, post, rfl, perm⟩ := h.chunk split
  refine ⟨_, h.1.replace fun j _ _ here => ?_, perm _⟩
  obtain ⟨stored, out⟩ := here.written inside v
  exact ⟨stored, fun a b _ apart => out a b apart⟩

theorem ChunkAt.sent {m : Memory} {k : Nat} {j : Int} {p : Packet} (here : ChunkAt m j ⟨k, .packet p⟩)
    (low : dataArea ≤ j) :
    ChunkAt (sendData m p.data).2 j ⟨k, .packet { p with sent := true }⟩ ∧
      ∀ a b, dataArea ≤ a → b ≤ j ∨ j + dataHeader + k ≤ a → SameOn m (sendData m p.data).2 a b := by
  have header : dataHeader = 10 := rfl
  have area : dataArea = 3 := rfl
  obtain ⟨sized, data, fits, prep, val, len, bytes⟩ := here
  have data : p.data = j + dataHeader := data
  have sent : (sendData m p.data).2 =
      setExisting (setValid m j 1) (existing (setValid m j 1) + 1) := by
    simp [sendData, data]
  rw [sent]
  have out : ∀ x, dataArea ≤ x → x < j ∨ j + 2 ≤ x →
      setExisting (setValid m j 1) (existing (setValid m j 1) + 1) x = m x := by
    intro x hx apart
    simp (disch := omega) only [setExisting, setValid, Bytes.write_outside]
  have same : ∀ a b, dataArea ≤ a → b ≤ j ∨ j + 2 ≤ a → SameOn m
      (setExisting (setValid m j 1) (existing (setValid m j 1) + 1)) a b :=
    fun a b ha apart x hx hx' => out x (by omega) (by omega)
  refine ⟨⟨?_, data, fits, ?_, ?_, ?_, ?_⟩, fun a b ha apart => same a b ha (by omega)⟩
  · rw [size, Bytes.read_congr (same _ _ (by omega) (by omega))]
    exact sized
  · rw [prepare, Bytes.read_congr (same _ _ (by omega) (by omega))]
    exact prep
  · simp (disch := omega) only [valid, setExisting, setValid, Bytes.read_write_apart,
      Bytes.read_write]
    rfl
  · rw [length, Bytes.read_congr (same _ _ (by omega) (by omega))]
    exact len
  · intro l w hw
    obtain ⟨lower, byte⟩ := bytes l w hw
    exact ⟨lower, (out (p.data + l) (by omega) (by omega)).trans byte⟩

theorem Tiled.sent {before after : List Packet} {p : Packet} (h : Tiled bufferSize s cs)
    (split : s.packets = before ++ p :: after) :
    ∃ pre k post, cs = pre ++ ⟨k, .packet p⟩ :: post ∧
      Tiled bufferSize ⟨(sendData s.mem p.data).2, before ++ { p with sent := true } :: after⟩
        (pre ++ ⟨k, .packet { p with sent := true }⟩ :: post) := by
  obtain ⟨pre, k, post, rfl, perm⟩ := h.chunk split
  exact ⟨pre, k, post, rfl, h.1.replace fun j low _ here => here.sent low, perm _⟩

theorem packetsOf_afterRead :
    packetsOf (cs.map Chunk.afterRead) = (packetsOf cs).filter fun p => !p.sent := by
  induction cs with
  | nil => rfl
  | cons c cs ih =>
      obtain ⟨k, use⟩ := c
      cases use with
      | free => exact ih
      | lost => exact ih
      | packet p =>
          cases sent : p.sent with
          | false =>
              have kept : (⟨k, .packet p⟩ : Chunk).afterRead = ⟨k, .packet p⟩ := by
                simp [Chunk.afterRead, sent]
              rw [List.map_cons, kept, packetsOf_packet, packetsOf_packet,
                List.filter_cons_of_pos (by simp [sent]), ih]
          | true =>
              have cleared : (⟨k, .packet p⟩ : Chunk).afterRead = ⟨k, .free⟩ := by
                simp [Chunk.afterRead, sent]
              rw [List.map_cons, cleared, packetsOf_free, packetsOf_packet,
                List.filter_cons_of_neg (by simp [sent]), ih]

/-- The handler calls match the packets that were sent, one call for each. -/
def Delivers (ds : List Delivery) (ps : List Packet) : Prop :=
  ∃ qs, qs.Perm (ps.filter Packet.sent) ∧ List.Forall₂ Matches ds qs

/-- Whoever was handed over is no longer in the buffer; the others stay. -/
theorem unread_delivered {ds : List Delivery} {ps : List Packet} (h : Delivers ds ps) :
    unread ds ps = ps.filter fun p => !p.sent := by
  obtain ⟨qs, perm, calls⟩ := h
  refine List.filter_congr fun p hp => ?_
  cases sent : p.sent with
  | false => rfl
  | true =>
      have mem : p ∈ qs := perm.mem_iff.mpr (List.mem_filter.mpr ⟨hp, sent⟩)
      obtain ⟨l, hl, rfl⟩ := List.mem_iff_getElem.mp mem
      have same := (calls.get (calls.length_eq ▸ hl) hl).data
      have called : qs[l].data ∈ ds.map Delivery.data :=
        List.mem_map.mpr ⟨_, List.get_mem _ _, same⟩
      simp [called]

/-- The two outcomes of ReadData: the counter refuses, or every sent packet is read, in buffer order. -/
theorem readData_handed {fuel : Nat} {ds : List Delivery} {m : Memory}
    (h : Layout s.mem dataArea cs bufferSize) (ran : readData bufferSize fuel s.mem = some (ds, m)) :
    (0x8000 ≤ (existing s.mem + 0xffff) % 2^16 ∧ ds = [] ∧ existing m = existing s.mem ∧
        SameOn s.mem m dataArea bufferSize) ∨
      ((existing s.mem + 0xffff) % 2^16 < 0x8000 ∧ List.Forall₂ Matches ds ((packetsOf cs).filter Packet.sent) ∧
        existing m = (existing s.mem + 0xffff) % 2^16 ∧
        Layout m dataArea (cs.map Chunk.afterRead) bufferSize) := by
  have area : dataArea = 3 := rfl
  have stored : ∀ (m : Memory) v, existing (setExisting m v) = v % 2^16 :=
    fun m v => Bytes.read_write
  have out : ∀ (m : Memory) v a b, dataArea ≤ a → SameOn m (setExisting m v) a b :=
    fun m v a b ha => Bytes.sameOn_write (by omega)
  have bound : existing s.mem < 2^16 := Bytes.read_lt
  simp only [readData, stored] at ran
  split at ran
  · rename_i gate
    right
    have reads : ReadsFrom bufferSize [] (setExisting s.mem (existing s.mem + 0xffff)) dataArea cs :=
      read_refined (h.frame (out _ _ _ _ (Int.le_refl _)))
    obtain ⟨ds', m', ran', laid, calls, kept⟩ := reads
    obtain ⟨rfl, rfl⟩ := Prod.mk.inj (Returns.unique ⟨fuel, ran⟩ ran')
    refine ⟨gate, calls, ?_, laid⟩
    rw [existing, Bytes.read_congr (kept _ _ (by omega))]
    exact stored _ _
  · rename_i gate
    left
    obtain ⟨rfl, rfl⟩ := Prod.mk.inj (Option.some.inj ran)
    refine ⟨by omega, rfl, ?_, (out _ _ _ _ (Int.le_refl _)).trans (out _ _ _ _ (Int.le_refl _))⟩
    rw [stored]
    omega

theorem readData_outcome {fuel : Nat} {ds : List Delivery} {m : Memory}
    (h : Tiled bufferSize s cs) (ran : readData bufferSize fuel s.mem = some (ds, m)) :
    (0x8000 ≤ (existing s.mem + 0xffff) % 2^16 ∧ ds = [] ∧ existing m = existing s.mem ∧
        SameOn s.mem m dataArea bufferSize) ∨
      ((existing s.mem + 0xffff) % 2^16 < 0x8000 ∧ Delivers ds s.packets ∧
        existing m = (existing s.mem + 0xffff) % 2^16 ∧
        Layout m dataArea (cs.map Chunk.afterRead) bufferSize) := by
  rcases readData_handed h.1 ran with refused | ⟨gate, calls, counter, laid⟩
  · exact .inl refused
  · exact .inr ⟨gate, ⟨_, h.2.symm.filter _, calls⟩, counter, laid⟩

theorem Tiled.read {fuel : Nat} {ds : List Delivery} {m : Memory} (h : Tiled bufferSize s cs)
    (ran : readData bufferSize fuel s.mem = some (ds, m)) :
    ∃ cs, Tiled bufferSize ⟨m, unread ds s.packets⟩ cs := by
  rcases readData_outcome h ran with ⟨-, rfl, -, same⟩ | ⟨-, delivered, -, laid⟩
  · exact ⟨cs, h.1.frame same, by simpa [unread] using h.2⟩
  · refine ⟨_, laid, ?_⟩
    rw [unread_delivered delivered, packetsOf_afterRead]
    exact h.2.filter _

theorem tiled_step {e : Event} (small : bufferSize < 2^31) (h : ∃ cs, Tiled bufferSize s cs)
    (step : Step bufferSize s e t) : ∃ cs, Tiled bufferSize t cs := by
  obtain ⟨cs, h⟩ := h
  cases step with
  | refused short ran => exact ⟨_, h.prepared small short ran⟩
  | prepare short ran => exact ⟨_, h.prepared small short ran⟩
  | write split _ inside => exact h.written split inside
  | send split _ =>
      obtain ⟨_, _, _, _, tiled⟩ := h.sent split
      exact ⟨_, tiled⟩
  | read ran => exact h.read ran

/-- PrepareData always ends; it does to the chunks what `place` does. -/
theorem Tiled.prepare_step {n : Nat} (h : Tiled bufferSize s cs) (small : bufferSize < 2^31)
    (short : n < 2^16) :
    ∃ t, Step bufferSize s (.prepare n (place n dataArea [] cs).1) t ∧
      Tiled bufferSize t (place n dataArea [] cs).2 ∧ existing t.mem = existing s.mem ∧
      t.packets = handedOut n (place n dataArea [] cs).1 ++ s.packets := by
  obtain ⟨m', ⟨fuel, ran⟩, -, head⟩ := place_refined small short (Layout.nil _ _) h.1
  have counter : LMalz.Buffer.existing m' = LMalz.Buffer.existing s.mem :=
    Bytes.read_congr (head.sub (by decide) (by decide))
  have tiled := h.prepared small short ran
  cases result : (place n dataArea [] cs).1 with
  | none =>
      rw [result] at ran tiled
      exact ⟨_, .refused short ran, tiled, counter, rfl⟩
  | some data =>
      rw [result] at ran tiled
      exact ⟨_, .prepare short ran, tiled, counter, rfl⟩

end Steps

theorem Initial.zeros {bufferSize : Nat} {s : State} (start : Initial bufferSize s) :
    ∃ m, (∀ (a : Int) (n : Nat), 0 ≤ a → a + n ≤ headSize → Bytes.read m a n = 0) ∧
      s = ⟨orShaIo m bufferSize, []⟩ := by
  obtain ⟨m, zero, rfl⟩ := start
  exact ⟨m, fun a n low high => Bytes.read_zero fun x first last => zero x (by omega) (by omega), rfl⟩

theorem Initial.tiled {bufferSize : Nat} {s : State} (low : headSize ≤ bufferSize)
    (high : bufferSize < 2^31) (start : Initial bufferSize s) :
    Tiled bufferSize s [⟨bufferSize - 13, .free⟩] := by
  obtain ⟨m, zeros, rfl⟩ := start.zeros
  have head : headSize = 13 := rfl
  have area : dataArea = 3 := rfl
  have first : initialization m = 0 := zeros _ _ (by omega) (by omega)
  have stored : ((bufferSize % 2^32 : Nat) - headSize : Int) = (bufferSize - 13 : Nat) := by omega
  refine ⟨⟨⟨?_, ?_, ?_⟩, ?_⟩, .nil⟩
  · simp (disch := omega) only [orShaIo, if_pos first, stored, size, setInitialization, setSize,
      Bytes.read_write_apart, Bytes.read_write]
    exact long_stored (by omega) (by omega)
  · simp (disch := omega) only [orShaIo, if_pos first, valid, setInitialization, setSize,
      Bytes.read_write_apart]
    exact zeros _ _ (by omega) (by omega)
  · simp (disch := omega) only [orShaIo, if_pos first, prepare, setInitialization, setSize,
      Bytes.read_write_apart]
    exact zeros _ _ (by omega) (by omega)
  · change dataArea + dataHeader + (bufferSize - 13 : Nat) = (bufferSize : Int)
    have header : dataHeader = 10 := rfl
    omega

theorem Initial.existing {bufferSize : Nat} {s : State} (start : Initial bufferSize s) :
    existing s.mem = 0 := by
  obtain ⟨m, zeros, rfl⟩ := start.zeros
  have head : headSize = 13 := rfl
  have area : dataArea = 3 := rfl
  have first : initialization m = 0 := zeros _ _ (by omega) (by omega)
  simp (disch := omega) only [orShaIo, if_pos first, LMalz.Buffer.existing, setInitialization,
    setSize, Bytes.read_write_apart]
  exact zeros _ _ (by omega) (by omega)

end LMalz.Buffer
