import LMalz.Buffer.Chunks

/- PrepareData and ReadData on the headers in memory refine their effect on the chunks. -/
namespace LMalz.Buffer
open Function (update)
open Bytes (Memory SameOn)
open Loop (Returns)

section Headers

theorem valid_setPrepare {m : Memory} {i : Int} {v : Nat} :
    valid (setPrepare m i v) i = valid m i := by
  simp (disch := omega) only [setPrepare, valid, Bytes.read_write_apart]

theorem prepare_setPrepare {m : Memory} {i : Int} {v : Nat} (short : v < 2^16) :
    prepare (setPrepare m i v) i = v := by
  rw [prepare, setPrepare, Bytes.read_write]
  omega

/-- A header put back as it was before PrepareData marked it. -/
theorem ChunkAt.released {m : Memory} {i : Int} {c : Chunk} (h : ChunkAt m i c)
    (free : c.use = .free) : ChunkAt (setPrepare (setPrepare m i 1) i 0) i c := by
  have used := h.used
  rw [free] at used
  refine ⟨by rw [size_setPrepare, size_setPrepare, h.sized], ?_⟩
  rw [free]
  exact ⟨by rw [valid_setPrepare, valid_setPrepare, used.1], prepare_setPrepare (by decide)⟩

theorem Use.Holds.prepare_ne {m : Memory} {i : Int} {capacity : Nat} {u : Use}
    (h : u.Holds m i capacity) (busy : u ≠ .free) : prepare m i ≠ 0 := by
  cases u with
  | free => exact absurd rfl busy
  | lost => simp [h.2]
  | packet p => simp [h.2.2.1]

theorem ChunkAt.prepare_zero {m : Memory} {i : Int} {c : Chunk} (h : ChunkAt m i c)
    (free : c.use = .free) : prepare m i = 0 := by
  have used := h.used
  rw [free] at used
  exact used.2

end Headers

section PrepareBody
variable {bufferSize : Int} {n : Nat} {m : Memory} {i : Int} {c d : Chunk}

theorem prepareBody_end (ended : bufferSize ≤ i) :
    prepareBody bufferSize n (m, i) = .inr (none, m) := by
  rw [prepareBody, if_neg (by omega)]

theorem prepareBody_busy (here : ChunkAt m i c) (inside : i < bufferSize) (busy : c.use ≠ .free) :
    prepareBody bufferSize n (m, i) = .inl (m, i + dataHeader + c.size) := by
  rw [prepareBody, if_pos inside, if_neg (here.used.prepare_ne busy), here.sized]

theorem prepareBody_divide (here : ChunkAt m i c) (inside : i < bufferSize) (free : c.use = .free)
    (small : c.size < 2^31) (fits : n + 10 ≤ c.size) :
    prepareBody bufferSize n (m, i) = .inr (some (i + dataHeader), divide (setPrepare m i 1) i n) := by
  have header : dataHeader = 10 := rfl
  rw [prepareBody, if_pos inside, if_pos (here.prepare_zero free)]
  simp only [size_setPrepare, here.sized]
  rw [if_pos (by omega)]

theorem prepareBody_reuse (here : ChunkAt m i c) (inside : i < bufferSize) (free : c.use = .free)
    (big : ¬ n + 10 ≤ c.size) (fits : n ≤ c.size) :
    prepareBody bufferSize n (m, i) =
      .inr (some (i + dataHeader), setLength (setPrepare m i 1) i n) := by
  have header : dataHeader = 10 := rfl
  rw [prepareBody, if_pos inside, if_pos (here.prepare_zero free)]
  simp only [size_setPrepare, here.sized]
  rw [if_neg (by omega), if_pos (by omega)]

/-- A free chunk that is too small: what happens depends on the header behind it. -/
theorem prepareBody_wide (here : ChunkAt m i c) (inside : i < bufferSize) (free : c.use = .free)
    (wide : ¬ n ≤ c.size) :
    prepareBody bufferSize n (m, i) =
      if i + dataHeader + c.size < bufferSize then
        if prepare (setPrepare m i 1) (i + dataHeader + c.size) = 0 then
          .inl (merge (setPrepare m i 1) i (i + dataHeader + c.size), dataArea)
        else .inl (setPrepare (setPrepare m i 1) i 0, i + dataHeader + c.size)
      else .inl (setPrepare m i 1, i + dataHeader + c.size) := by
  have header : dataHeader = 10 := rfl
  rw [prepareBody, if_pos inside, if_pos (here.prepare_zero free)]
  simp only [size_setPrepare, here.sized]
  rw [if_neg (by omega), if_neg (by omega)]

end PrepareBody

section Refinement
variable {bufferSize : Int} {n : Nat} {m : Memory} {i a b : Int}

theorem sameOn_setPrepare {v : Nat} (apart : b ≤ i ∨ i + dataHeader ≤ a) :
    SameOn m (setPrepare m i v) a b := by
  intro x hx hx'
  rw [setPrepare_outside (by omega)]

theorem sameOn_divided (apart : b ≤ i ∨ i + dataHeader + n + dataHeader ≤ a) :
    SameOn m (divide (setPrepare m i 1) i n) a b := by
  have header : dataHeader = 10 := rfl
  intro x hx hx'
  rw [divide_outside (by omega), setPrepare_outside (by omega)]

theorem sameOn_reused (apart : b ≤ i ∨ i + dataHeader ≤ a) :
    SameOn m (setLength (setPrepare m i 1) i n) a b := by
  have header : dataHeader = 10 := rfl
  intro x hx hx'
  rw [setLength, Bytes.write_outside (by omega), setPrepare_outside (by omega)]

theorem sameOn_merged {second : Int} (behind : i + dataHeader ≤ second)
    (apart : b ≤ i ∨ second + dataHeader ≤ a) :
    SameOn m (merge (setPrepare m i 1) i second) a b := by
  have header : dataHeader = 10 := rfl
  intro x hx hx'
  rw [merge_outside (by omega) (by omega), setPrepare_outside (by omega)]

theorem sameOn_released (apart : b ≤ i ∨ i + dataHeader ≤ a) :
    SameOn m (setPrepare (setPrepare m i 1) i 0) a b :=
  (sameOn_setPrepare apart).trans (sameOn_setPrepare apart)

theorem place_refined (small : bufferSize < 2^31) (short : n < 2^16) {i : Int}
    {pre rest : List Chunk} {m : Memory} (before : Layout m dataArea pre i)
    (after : Layout m i rest bufferSize) :
    ∃ m', Returns (prepareBody bufferSize n) (m, i) ((place n i pre rest).1, m') ∧
      Layout m' dataArea (place n i pre rest).2 bufferSize ∧ SameOn m m' 0 dataArea := by
  have header : dataHeader = 10 := rfl
  have area : dataArea = 3 := rfl
  induction i, pre, rest using place.induct n generalizing m with
  | case1 i pre =>
      obtain rfl : i = bufferSize := after
      refine ⟨m, .done ?_, ?_, SameOn.refl _ _ _⟩
      · rw [prepareBody_end le_rfl, place]
      · simpa [place] using before
  | case2 i pre c rest free fits =>
      obtain ⟨here, after⟩ := after
      have low := before.le
      have high := after.le
      have unused := here.used
      rw [free] at unused
      have second : i + dataHeader + n + dataHeader + (c.size - n - 10 : Nat) =
          i + dataHeader + c.size := by omega
      rw [place_divide free fits]
      refine ⟨_, .done (prepareBody_divide here (by omega) free (by omega) fits), ?_,
        sameOn_divided (by omega)⟩
      refine Layout.append.mpr ⟨i, before.frame (sameOn_divided (by omega)),
        divide_first (prepare_setPrepare (by decide)) (valid_setPrepare.trans unused.1) short,
        divide_second (size_setPrepare.trans here.sized) fits (by omega), ?_⟩
      rw [second]
      exact after.frame (sameOn_divided (by omega))
  | case3 i pre c rest free big fits =>
      obtain ⟨here, after⟩ := after
      have low := before.le
      have high := after.le
      have unused := here.used
      rw [free] at unused
      rw [place_reuse free big fits]
      refine ⟨_, .done (prepareBody_reuse here (by omega) free big fits), ?_,
        sameOn_reused (by omega)⟩
      exact Layout.append.mpr ⟨i, before.frame (sameOn_reused (by omega)),
        reuse_chunk here.sized unused.1 fits short, after.frame (sameOn_reused (by omega))⟩
  | case4 i pre c free big fits =>
      obtain ⟨here, after⟩ := after
      have low := before.le
      obtain rfl : i + dataHeader + c.size = bufferSize := after
      have unused := here.used
      rw [free] at unused
      rw [place_last free big fits]
      refine ⟨setPrepare m i 1, .next ?_ (.done (prepareBody_end le_rfl)), ?_,
        sameOn_setPrepare (by omega)⟩
      · rw [prepareBody_wide here (by omega) free fits, if_neg (by omega)]
      · refine (before.frame (sameOn_setPrepare (by omega))).snoc ⟨size_setPrepare.trans here.sized, ?_⟩
        exact ⟨valid_setPrepare.trans unused.1, prepare_setPrepare (by decide)⟩
  | case5 i pre c free big fits d rest dfree ih =>
      obtain ⟨here, next, after⟩ := after
      have low := before.le
      have high := after.le
      have dfree := Use.isFree_iff.mp dfree
      have unused := here.used
      rw [free] at unused
      have next := next.frame (sameOn_setPrepare (i := i) (v := 1) (by omega))
      have merged := merge_chunk (size_setPrepare.trans here.sized) next.sized
        (valid_setPrepare.trans unused.1) (by omega) (by omega)
      have ends : i + dataHeader + (c.size + d.size + 10 : Nat) =
          i + dataHeader + c.size + dataHeader + d.size := by omega
      have same : ∀ {a b : Int}, b ≤ i ∨ i + dataHeader + c.size + dataHeader ≤ a →
          SameOn m (merge (setPrepare m i 1) i (i + dataHeader + c.size)) a b :=
        sameOn_merged (by omega)
      obtain ⟨m', ran, laid, head⟩ := ih (m := merge (setPrepare m i 1) i _) rfl
        (Layout.append.mpr ⟨i, before.frame (same (.inl le_rfl)), merged, by
          rw [ends]
          exact after.frame (same (.inr (by omega)))⟩)
      rw [place_merge free big fits dfree]
      refine ⟨m', .next ?_ ran, laid, (same (.inl low)).trans head⟩
      rw [prepareBody_wide here (by omega) free fits, if_pos (by omega),
        if_pos (next.prepare_zero dfree)]
  | case6 i pre c free big fits d rest dfree ih =>
      obtain ⟨here, after⟩ := after
      have low := before.le
      have high := after.2.le
      have busy : d.use ≠ .free := fun hd => dfree (Use.isFree_iff.mpr hd)
      have next := after.1.frame (sameOn_setPrepare (i := i) (v := 1) (by omega))
      obtain ⟨m', ran, laid, head⟩ := ih
        ((before.frame (sameOn_released (by omega))).snoc (here.released free))
        (after.frame (sameOn_released (by omega)))
      rw [place_blocked free big fits busy]
      refine ⟨m', .next ?_ ran, laid, (sameOn_released (by omega)).trans head⟩
      rw [prepareBody_wide here (by omega) free fits, if_pos (by omega),
        if_neg (next.used.prepare_ne busy)]
  | case7 i pre c rest used ih =>
      obtain ⟨here, after⟩ := after
      have high := after.le
      obtain ⟨m', ran, laid, head⟩ := ih (before.snoc here) after
      rw [place_busy used]
      exact ⟨m', .next (prepareBody_busy here (by omega) used) ran, laid, head⟩

end Refinement
/-- A chunk after ReadData has passed it. -/
def Chunk.afterRead (c : Chunk) : Chunk :=
  match c.use with
  | .packet p => if p.sent then ⟨c.size, .free⟩ else c
  | _ => c

/-- A handler call hands over a packet: its region, the length asked for and the bytes
its producer wrote. -/
structure Matches (d : Delivery) (p : Packet) : Prop where
  data : d.data = p.data
  length : d.length = p.len
  bytes : d.bytes.length = p.len
  written : ∀ k v, p.written k = some v → d.bytes[k]? = some v

section Reader
variable {bufferSize : Int} {m : Memory} {i : Int}

theorem setValid_outside {x : Int} {v : Nat} (out : x < i ∨ i + dataHeader ≤ x) :
    setValid m i v x = m x := by
  have header : dataHeader = 10 := rfl
  exact Bytes.write_outside (by omega)

theorem delivery_matches {p : Packet} {capacity : Nat}
    (h : (Use.packet p).Holds m i capacity) : Matches (delivery (setValid m i 0) i) p := by
  obtain ⟨data, -, -, -, len, bytes⟩ := h
  have len' : length (setValid m i 0) i = p.len := by
    rw [← len]
    simp (disch := omega) only [length, setValid, Bytes.read_write_apart]
  refine ⟨data.symm, len', by simp [delivery, len'], ?_⟩
  intro k v hk
  obtain ⟨inside, byte⟩ := bytes k v hk
  have kept : setValid m i 0 (i + dataHeader + k) = v := by
    rw [setValid_outside (by omega), ← data, byte]
  simp [delivery, len', inside, kept]

theorem ChunkAt.delivered {k : Nat} {p : Packet} (h : ChunkAt m i ⟨k, .packet p⟩) :
    ChunkAt (setPrepare (setValid m i 0) i 0) i ⟨k, .free⟩ := by
  refine ⟨?_, ?_, prepare_setPrepare (by decide)⟩
  · rw [size_setPrepare, ← h.sized]
    simp (disch := omega) only [size, setValid, Bytes.read_write_apart]
  · rw [valid_setPrepare, valid, setValid, Bytes.read_write]
    rfl

/-- A header that ReadData passes over without a handler call. -/
theorem readBody_skip {ds : List Delivery} {c : Chunk} (here : ChunkAt m i c)
    (inside : i < bufferSize) (kept : valid m i = 0) :
    readBody bufferSize (ds, m, i) = .inl (ds, m, i + dataHeader + c.size) := by
  rw [readBody, if_pos inside]
  simp [kept, here.sized]

/-- ReadData from `i` on, behind the calls `ds`: the packets sent are handed over in buffer
order and their chunks freed. -/
def ReadsFrom (bufferSize : Int) (ds : List Delivery) (m : Memory) (i : Int)
    (cs : List Chunk) : Prop :=
  ∃ ds' m', Returns (readBody bufferSize) (ds, m, i) (ds ++ ds', m') ∧
    Layout m' i (cs.map Chunk.afterRead) bufferSize ∧
    List.Forall₂ Matches ds' ((packetsOf cs).filter Packet.sent) ∧
    ∀ a b, b ≤ i → SameOn m m' a b

theorem ReadsFrom.skip {ds : List Delivery} {c : Chunk} {cs : List Chunk} (here : ChunkAt m i c)
    (inside : i < bufferSize) (kept : valid m i = 0) (same : c.afterRead = c)
    (unsent : (packetsOf (c :: cs)).filter Packet.sent = (packetsOf cs).filter Packet.sent)
    (rest : ReadsFrom bufferSize ds m (i + dataHeader + c.size) cs) :
    ReadsFrom bufferSize ds m i (c :: cs) := by
  have header : dataHeader = 10 := rfl
  obtain ⟨ds', m', ran, laid, calls, out⟩ := rest
  refine ⟨ds', m', .next (readBody_skip here inside kept) ran, ?_, ?_, ?_⟩
  · rw [List.map_cons, same]
    exact ⟨here.frame (out _ _ (Int.le_refl _)), laid⟩
  · rw [unsent]
    exact calls
  · intro a b low
    exact out a b (by omega)

theorem ReadsFrom.deliver {ds : List Delivery} {k : Nat} {p : Packet} {cs : List Chunk}
    (here : ChunkAt m i ⟨k, .packet p⟩) (inside : i < bufferSize) (sent : p.sent = true)
    (rest : ReadsFrom bufferSize (ds ++ [delivery (setValid m i 0) i])
      (setPrepare (setValid m i 0) i 0) (i + dataHeader + k) cs) :
    ReadsFrom bufferSize ds m i (⟨k, .packet p⟩ :: cs) := by
  have header : dataHeader = 10 := rfl
  have freed := here.delivered
  have marked : valid m i = 1 := by
    have hv := here.used.2.2.2.1
    rwa [if_pos sent] at hv
  obtain ⟨ds', m', ran, laid, calls, out⟩ := rest
  refine ⟨delivery (setValid m i 0) i :: ds', m', .next ?_ (by simpa using ran), ?_, ?_, ?_⟩
  · rw [readBody, if_pos inside]
    simp [marked, freed.sized]
  · have cleared : (⟨k, .packet p⟩ : Chunk).afterRead = ⟨k, .free⟩ := by
      simp [Chunk.afterRead, sent]
    rw [List.map_cons, cleared]
    exact ⟨freed.frame (out _ _ (Int.le_refl _)), laid⟩
  · rw [packetsOf_packet, List.filter_cons_of_pos sent]
    exact .cons (delivery_matches here.used) calls
  · intro a b low x hx hx'
    rw [out a b (by omega) x hx hx', setPrepare_outside (by omega), setValid_outside (by omega)]

theorem read_refined {ds : List Delivery} {cs : List Chunk} (h : Layout m i cs bufferSize) :
    ReadsFrom bufferSize ds m i cs := by
  have header : dataHeader = 10 := rfl
  induction cs generalizing i m ds with
  | nil =>
      obtain rfl : i = bufferSize := h
      refine ⟨[], m, .done ?_, rfl, .nil, fun a b _ => SameOn.refl _ _ _⟩
      simp [readBody]
  | cons c cs ih =>
      obtain ⟨here, after⟩ := h
      have high := after.le
      have inside : i < bufferSize := by omega
      obtain ⟨k, use⟩ := c
      cases use with
      | free => exact .skip here inside here.used.1 rfl rfl (ih after)
      | lost => exact .skip here inside here.used.1 rfl rfl (ih after)
      | packet p =>
          cases sent : p.sent with
          | false =>
              have kept : valid m i = 0 := by
                have hv := here.used.2.2.2.1
                simpa [sent] using hv
              refine .skip here inside kept ?_ ?_ (ih after)
              · simp [Chunk.afterRead, sent]
              · rw [packetsOf_packet, List.filter_cons_of_neg (by simp [sent])]
          | true =>
              refine .deliver here inside sent (ih (after.frame ?_))
              intro x hx hx'
              rw [setPrepare_outside (by omega), setValid_outside (by omega)]

end Reader
end LMalz.Buffer
