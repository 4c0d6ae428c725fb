import LMalz.Buffer.OrShaIo
import Mathlib.Data.List.Perm.Basic

/- The buffer as a list of chunks: what PrepareData does to the list, and that the loop
over the headers in memory does the same. -/
namespace LMalz.Buffer
open Function (update)
open Bytes (Memory SameOn)

/-- What a chunk is used for. `lost` is a last chunk that PrepareData marked and left. -/
inductive Use where
  | free
  | lost
  | packet (p : Packet)

structure Chunk where
  size : Nat
  use : Use

def Use.isFree : Use → Bool
  | .free => true
  | _ => false

def Chunk.packet? (c : Chunk) : Option Packet :=
  match c.use with
  | .packet p => some p
  | _ => none

/-- The regions held or sent, in buffer order. -/
def packetsOf (cs : List Chunk) : List Packet := cs.filterMap Chunk.packet?

def newPacket (data : Int) (n : Nat) : Packet := ⟨data, n, fun _ => none, false⟩

/-- PrepareData on the chunks: `pre` was passed over, the next header is at `i`. -/
def place (n : Nat) (i : Int) (pre : List Chunk) : List Chunk → Option Int × List Chunk
  | [] => (none, pre)
  | c :: rest =>
      match c.use with
      | .free =>
          if n + 10 ≤ c.size then
            (some (i + dataHeader), pre ++
              ⟨n, .packet (newPacket (i + dataHeader) n)⟩ :: ⟨c.size - n - 10, .free⟩ :: rest)
          else if n ≤ c.size then
            (some (i + dataHeader),
              pre ++ ⟨c.size, .packet (newPacket (i + dataHeader) n)⟩ :: rest)
          else match rest with
            | [] => (none, pre ++ [⟨c.size, .lost⟩])
            | d :: rest =>
                if d.use.isFree then
                  place n dataArea [] (pre ++ ⟨c.size + d.size + 10, .free⟩ :: rest)
                else place n (i + dataHeader + c.size) (pre ++ [c]) (d :: rest)
      | _ => place n (i + dataHeader + c.size) (pre ++ [c]) rest
  termination_by rest => (pre.length + rest.length, rest.length)
  decreasing_by
    all_goals
      simp only [Prod.lex_def, List.length_append, List.length_cons, List.length_nil]
      omega

theorem Use.isFree_iff {u : Use} : u.isFree = true ↔ u = .free := by
  cases u <;> simp [Use.isFree]

section Place
variable {n : Nat} {i : Int} {pre rest : List Chunk} {c d : Chunk}

theorem place_divide (free : c.use = .free) (fits : n + 10 ≤ c.size) :
    place n i pre (c :: rest) = (some (i + dataHeader), pre ++
      ⟨n, .packet (newPacket (i + dataHeader) n)⟩ :: ⟨c.size - n - 10, .free⟩ :: rest) := by
  rw [place.eq_def]
  simp only [free, if_pos fits]

theorem place_reuse (free : c.use = .free) (big : ¬ n + 10 ≤ c.size) (fits : n ≤ c.size) :
    place n i pre (c :: rest) = (some (i + dataHeader),
      pre ++ ⟨c.size, .packet (newPacket (i + dataHeader) n)⟩ :: rest) := by
  rw [place.eq_def]
  simp only [free, if_neg big, if_pos fits]

theorem place_last (free : c.use = .free) (big : ¬ n + 10 ≤ c.size) (fits : ¬ n ≤ c.size) :
    place n i pre [c] = (none, pre ++ [⟨c.size, .lost⟩]) := by
  rw [place.eq_def]
  simp only [free, if_neg big, if_neg fits]

theorem place_merge (free : c.use = .free) (big : ¬ n + 10 ≤ c.size) (fits : ¬ n ≤ c.size)
    (next : d.use = .free) :
    place n i pre (c :: d :: rest) =
      place n dataArea [] (pre ++ ⟨c.size + d.size + 10, .free⟩ :: rest) := by
  rw [place.eq_def]
  simp only [free, if_neg big, if_neg fits, next, Use.isFree, if_true]

theorem place_blocked (free : c.use = .free) (big : ¬ n + 10 ≤ c.size) (fits : ¬ n ≤ c.size)
    (next : d.use ≠ .free) :
    place n i pre (c :: d :: rest) =
      place n (i + dataHeader + c.size) (pre ++ [c]) (d :: rest) := by
  have busy : d.use.isFree = false := by
    rw [← Bool.not_eq_true, Use.isFree_iff]
    exact next
  conv => lhs; rw [place.eq_def]
  simp only [free, if_neg big, if_neg fits, busy, Bool.false_eq_true, if_false]

theorem place_busy (busy : c.use ≠ .free) :
    place n i pre (c :: rest) = place n (i + dataHeader + c.size) (pre ++ [c]) rest := by
  conv => lhs; rw [place.eq_def]
  cases hc : c.use with
  | free => exact absurd hc busy
  | lost => simp only [hc]
  | packet p => simp only [hc]
/-- The regions PrepareData adds with its result. -/
def handedOut (n : Nat) : Option Int → List Packet
  | none => []
  | some data => [newPacket data n]

theorem packetsOf_append {cs ds : List Chunk} :
    packetsOf (cs ++ ds) = packetsOf cs ++ packetsOf ds := List.filterMap_append

theorem packetsOf_free {k : Nat} {cs : List Chunk} :
    packetsOf (⟨k, .free⟩ :: cs) = packetsOf cs := rfl

theorem packetsOf_lost {k : Nat} {cs : List Chunk} :
    packetsOf (⟨k, .lost⟩ :: cs) = packetsOf cs := rfl

theorem packetsOf_packet {k : Nat} {p : Packet} {cs : List Chunk} :
    packetsOf (⟨k, .packet p⟩ :: cs) = p :: packetsOf cs := rfl

theorem packetsOf_cons_free {c : Chunk} {cs : List Chunk} (free : c.use = .free) :
    packetsOf (c :: cs) = packetsOf cs := by
  obtain ⟨k, u⟩ := c
  obtain rfl : u = .free := free
  rfl

/-- PrepareData keeps every region and adds the one it returns. -/
theorem place_packets :
    (packetsOf (place n i pre rest).2).Perm
      (handedOut n (place n i pre rest).1 ++ packetsOf (pre ++ rest)) := by
  induction i, pre, rest using place.induct n with
  | case1 i pre => simp [place, handedOut]
  | case2 i pre c rest free fits =>
      rw [place_divide free fits]
      simp only [handedOut, packetsOf_append, packetsOf_packet, packetsOf_free,
        packetsOf_cons_free free, List.singleton_append]
      exact List.perm_middle
  | case3 i pre c rest free big fits =>
      rw [place_reuse free big fits]
      simp only [handedOut, packetsOf_append, packetsOf_packet, packetsOf_cons_free free,
        List.singleton_append]
      exact List.perm_middle
  | case4 i pre c free big fits =>
      rw [place_last free big fits]
      simp only [handedOut, packetsOf_append, packetsOf_lost, packetsOf_cons_free free]
      exact List.Perm.refl _
  | case5 i pre c free big fits d rest dfree ih =>
      have dfree := Use.isFree_iff.mp dfree
      rw [place_merge free big fits dfree]
      simpa only [packetsOf_append, packetsOf_free, packetsOf_cons_free free,
        packetsOf_cons_free dfree, List.nil_append] using ih
  | case6 i pre c free big fits d rest dfree ih =>
      rw [place_blocked free big fits fun hd => dfree (Use.isFree_iff.mpr hd)]
      simpa only [List.append_assoc, List.singleton_append] using ih
  | case7 i pre c rest used ih =>
      rw [place_busy used]
      simpa only [List.append_assoc, List.singleton_append] using ih

end Place

/-- What the header at `i` and the data behind it hold. -/
def Use.Holds (m : Memory) (i : Int) (capacity : Nat) : Use → Prop
  | .free => valid m i = 0 ∧ prepare m i = 0
  | .lost => valid m i = 0 ∧ prepare m i = 1
  | .packet p =>
      p.data = i + dataHeader ∧ p.len ≤ capacity ∧ prepare m i = 1 ∧
        valid m i = (if p.sent then 1 else 0) ∧ length m i = p.len ∧
        ∀ k v, p.written k = some v → k < p.len ∧ m (p.data + k) = v

structure ChunkAt (m : Memory) (i : Int) (c : Chunk) : Prop where
  sized : size m i = c.size
  used : c.use.Holds m i c.size

/-- The chunks lie one behind the other from `i` up to `e`. -/
def Layout (m : Memory) : Int → List Chunk → Int → Prop
  | i, [], e => i = e
  | i, c :: cs, e => ChunkAt m i c ∧ Layout m (i + dataHeader + c.size) cs e

section Frame
variable {m m' : Memory} {i e : Int}

theorem Use.Holds.frame {u : Use} {capacity : Nat} (h : u.Holds m i capacity)
    (same : SameOn m m' i (i + dataHeader + capacity)) : u.Holds m' i capacity := by
  have header : dataHeader = 10 := rfl
  have hv : valid m' i = valid m i := Bytes.read_congr (same.sub (by omega) (by omega))
  have hp : prepare m' i = prepare m i := Bytes.read_congr (same.sub (by omega) (by omega))
  have hl : length m' i = length m i := Bytes.read_congr (same.sub (by omega) (by omega))
  cases u with
  | free => exact ⟨hv.trans h.1, hp.trans h.2⟩
  | lost => exact ⟨hv.trans h.1, hp.trans h.2⟩
  | packet p =>
      obtain ⟨data, fits, prep, val, len, bytes⟩ := h
      refine ⟨data, fits, hp.trans prep, hv.trans val, hl.trans len, ?_⟩
      intro k v hk
      obtain ⟨inside, byte⟩ := bytes k v hk
      exact ⟨inside, (same _ (by omega) (by omega)).trans byte⟩

theorem ChunkAt.frame {c : Chunk} (h : ChunkAt m i c)
    (same : SameOn m m' i (i + dataHeader + c.size)) : ChunkAt m' i c where
  sized := by
    have header : dataHeader = 10 := rfl
    have hs : Bytes.read m' (i + 6) 4 = Bytes.read m (i + 6) 4 :=
      Bytes.read_congr (same.sub (by omega) (by omega))
    rw [← h.sized, size, size, hs]
  used := h.used.frame same

theorem Layout.nil (m : Memory) (i : Int) : Layout m i [] i := rfl

theorem Layout.le {cs : List Chunk} (h : Layout m i cs e) : i ≤ e := by
  induction cs generalizing i with
  | nil => exact Int.le_of_eq h
  | cons c cs ih =>
      have header : dataHeader = 10 := rfl
      have rest := ih h.2
      omega

theorem Layout.frame {cs : List Chunk} (h : Layout m i cs e) (same : SameOn m m' i e) :
    Layout m' i cs e := by
  induction cs generalizing i with
  | nil => exact h
  | cons c cs ih =>
      have header : dataHeader = 10 := rfl
      have rest := h.2.le
      exact ⟨h.1.frame (same.sub (Int.le_refl _) rest),
        ih h.2 (same.sub (by omega) (Int.le_refl _))⟩

theorem Layout.append {cs ds : List Chunk} :
    Layout m i (cs ++ ds) e ↔ ∃ k, Layout m i cs k ∧ Layout m k ds e := by
  induction cs generalizing i with
  | nil => simp [Layout]
  | cons c cs ih => simp only [List.cons_append, Layout, ih, and_assoc, exists_and_left]

theorem Layout.snoc {cs : List Chunk} {c : Chunk} {k : Int} (h : Layout m i cs k)
    (hc : ChunkAt m k c) : Layout m i (cs ++ [c]) (k + dataHeader + c.size) :=
  Layout.append.mpr ⟨k, h, hc, rfl⟩

end Frame

section Branches
variable {m : Memory} {i x : Int} {k n : Nat}

/-- A size that a `long` can hold is read back as it was stored. -/
theorem long_stored {v : Int} (low : 0 ≤ v) (high : v < 2^31) :
    long ((v % 2^32).toNat % 256^4 : Nat) = v := by
  have small : (((v % 2^32).toNat % 256^4 : Nat) : Int) = v := by omega
  rw [small]
  exact Int.bmod_eq_of_le (by omega) (by omega)

theorem setPrepare_outside {v : Nat} (out : x < i ∨ i + dataHeader ≤ x) :
    setPrepare m i v x = m x := by
  have header : dataHeader = 10 := rfl
  exact Bytes.write_outside (by omega)

theorem size_setPrepare {v : Nat} : size (setPrepare m i v) i = size m i := by
  simp (disch := omega) only [setPrepare, size, Bytes.read_write_apart]

theorem divide_outside (out : x < i ∨ i + dataHeader + n + dataHeader ≤ x) :
    divide m i n x = m x := by
  have header : dataHeader = 10 := rfl
  simp (disch := omega) only [divide, setLength, setValid, setPrepare, setSize, header,
    Bytes.write_outside]

theorem divide_first (hp : prepare m i = 1) (hv : valid m i = 0) (short : n < 2^16) :
    ChunkAt (divide m i n) i ⟨n, .packet (newPacket (i + dataHeader) n)⟩ := by
  refine ⟨?_, rfl, Nat.le_refl n, ?_, ?_, ?_, fun k v hk => by cases hk⟩
  · simp (disch := omega) only [divide, dataHeader, setLength, setValid, setPrepare, setSize, size,
      Bytes.read_write_apart, Bytes.read_write]
    exact long_stored (by omega) (by omega)
  · simp (disch := omega) only [divide, dataHeader, setLength, setValid, setPrepare, setSize,
      prepare, Bytes.read_write_apart]
    exact hp
  · simp (disch := omega) only [divide, dataHeader, setLength, setValid, setPrepare, setSize,
      valid, Bytes.read_write_apart]
    exact hv
  · simp only [divide, setLength, length, Bytes.read_write, newPacket]
    omega

theorem divide_second (hk : size m i = k) (fits : n + 10 ≤ k) (small : k < 2^31) :
    ChunkAt (divide m i n) (i + dataHeader + n) ⟨k - n - 10, .free⟩ := by
  refine ⟨?_, ?_, ?_⟩
  · have stored : long (Bytes.read m (i + 6) 4) - n - 10 = (k - n - 10 : Nat) := by
      rw [size] at hk
      omega
    simp (disch := omega) only [divide, dataHeader, setLength, setValid, setPrepare, setSize, size,
      Bytes.read_write_apart, Bytes.read_write, stored]
    exact long_stored (by omega) (by omega)
  · simp (disch := omega) only [divide, dataHeader, setLength, setValid, setPrepare, setSize,
      valid, Bytes.read_write_apart, Bytes.read_write]
    rfl
  · simp (disch := omega) only [divide, dataHeader, setLength, setValid, setPrepare, setSize,
      prepare, Bytes.read_write_apart, Bytes.read_write]
    rfl

/-- The chunk at `i`, marked by PrepareData, is handed out whole. -/
theorem reuse_chunk (hk : size m i = k) (hv : valid m i = 0) (fits : n ≤ k) (short : n < 2^16) :
    ChunkAt (setLength (setPrepare m i 1) i n) i
      ⟨k, .packet (newPacket (i + dataHeader) n)⟩ := by
  refine ⟨?_, rfl, fits, ?_, ?_, ?_, fun k v hk => by cases hk⟩
  · simp (disch := omega) only [setLength, setPrepare, size, Bytes.read_write_apart]
    exact hk
  · simp (disch := omega) only [setLength, setPrepare, prepare, Bytes.read_write_apart,
      Bytes.read_write]
    rfl
  · simp (disch := omega) only [setLength, setPrepare, valid, Bytes.read_write_apart]
    exact hv
  · simp only [setLength, length, Bytes.read_write, newPacket]
    omega

theorem merge_outside {second : Int}
    (out : x < i ∨ i + dataHeader ≤ x) (out' : x < second ∨ second + dataHeader ≤ x) :
    merge m i second x = m x := by
  have header : dataHeader = 10 := rfl
  simp (disch := omega) only [merge, setPrepare, setSize, Bytes.write_outside]

theorem merge_chunk {second : Int} {l : Nat} (hk : size m i = k) (hl : size m second = l)
    (hv : valid m i = 0) (apart : i + dataHeader ≤ second) (small : k + l + 10 < 2^31) :
    ChunkAt (merge m i second) i ⟨k + l + 10, .free⟩ := by
  have header : dataHeader = 10 := rfl
  refine ⟨?_, ?_, ?_⟩
  · have stored : long (Bytes.read m (i + 6) 4) + (long (Bytes.read m (second + 6) 4) + dataHeader)
        = (k + l + 10 : Nat) := by
      rw [size] at hk hl
      omega
    simp (disch := omega) only [merge, setPrepare, setSize, size,
      Bytes.read_write_apart, Bytes.read_write, stored]
    exact long_stored (by omega) (by omega)
  · simp (disch := omega) only [merge, setPrepare, setSize, valid, Bytes.read_write_apart]
    exact hv
  · simp only [merge, setPrepare, prepare, Bytes.read_write]
    rfl

end Branches

end LMalz.Buffer
