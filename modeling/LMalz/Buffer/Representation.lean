import LMalz.Buffer.Invariant
import Mathlib.Data.List.Pairwise

/- The representation invariant of OR_SHA_IO, read off the headers in memory. -/
namespace LMalz.Buffer
open Bytes (Memory)
open Transition (Run)

/-- `Walk m i hs e`: going by `data + size` from `i` meets the headers `hs` and ends at `e`. -/
inductive Walk (m : Memory) : Int → List Int → Int → Prop
  | done (e : Int) : Walk m e [] e
  | next {i e : Int} {hs : List Int} : 0 ≤ size m i →
      Walk m (i + dataHeader + size m i) hs e → Walk m i (i :: hs) e

structure WellFormed (bufferSize : Int) (s : State) (hs : List Int) : Prop where
  walk : Walk s.mem dataArea hs bufferSize
  apart : hs.Pairwise fun h k => h + dataHeader + size s.mem h ≤ k
  prepared : ∀ h ∈ hs, valid s.mem h = 1 → prepare s.mem h = 1
  capacity : ∀ p ∈ s.packets, ∃ h ∈ hs, p.data = h + dataHeader ∧ (p.len : Int) ≤ size s.mem h
  inside : ∀ p ∈ s.packets, headSize ≤ p.data ∧ p.data + p.len ≤ bufferSize
  headers : ∀ p ∈ s.packets, ∀ h ∈ hs, h + dataHeader ≤ p.data ∨ p.data + p.len ≤ h
  disjoint : s.packets.Pairwise fun p q =>
    p.data + p.len + dataHeader ≤ q.data ∨ q.data + q.len + dataHeader ≤ p.data

def headersOf (i : Int) : List Chunk → List Int
  | [] => []
  | c :: cs => i :: headersOf (i + dataHeader + c.size) cs

section Layout
variable {m : Memory} {i e : Int} {cs : List Chunk}

theorem Layout.walk (h : Layout m i cs e) : Walk m i (headersOf i cs) e := by
  induction cs generalizing i with
  | nil =>
      obtain rfl : i = e := h
      exact .done i
  | cons c cs ih =>
      refine .next ?_ ?_ <;> rw [h.1.sized]
      · omega
      · exact ih h.2

theorem Use.Holds.prepared {u : Use} {capacity : Nat} (h : u.Holds m i capacity)
    (marked : valid m i = 1) : prepare m i = 1 := by
  cases u with
  | free => simp [h.1] at marked
  | lost => exact h.2
  | packet p => exact h.2.2.1

/-- Where a header lies, and what its marks say. -/
theorem Layout.header (h : Layout m i cs e) {j : Int} (hj : j ∈ headersOf i cs) :
    i ≤ j ∧ 0 ≤ size m j ∧ j + dataHeader + size m j ≤ e ∧
      (valid m j = 1 → prepare m j = 1) := by
  have header : dataHeader = 10 := rfl
  induction cs generalizing i with
  | nil => cases hj
  | cons c cs ih =>
      obtain ⟨here, after⟩ := h
      rcases List.mem_cons.mp hj with rfl | later
      · rw [here.sized]
        exact ⟨Int.le_refl _, Int.natCast_nonneg _, after.le, here.used.prepared⟩
      · obtain ⟨low, rest⟩ := ih after later
        exact ⟨by omega, rest⟩

theorem Layout.headers_apart (h : Layout m i cs e) :
    (headersOf i cs).Pairwise fun j k => j + dataHeader + size m j ≤ k := by
  induction cs generalizing i with
  | nil => exact .nil
  | cons c cs ih =>
      refine .cons (fun k hk => ?_) (ih h.2)
      rw [h.1.sized]
      exact (h.2.header hk).1

theorem Layout.packet (h : Layout m i cs e) {p : Packet} (hp : p ∈ packetsOf cs) :
    ∃ j ∈ headersOf i cs, p.data = j + dataHeader ∧ (p.len : Int) ≤ size m j := by
  induction cs generalizing i with
  | nil => cases hp
  | cons c cs ih =>
      obtain ⟨here, after⟩ := h
      have later : p ∈ packetsOf cs → ∃ j ∈ headersOf i (c :: cs),
          p.data = j + dataHeader ∧ (p.len : Int) ≤ size m j := by
        intro hp
        obtain ⟨j, hj, facts⟩ := ih after hp
        exact ⟨j, List.mem_cons_of_mem _ hj, facts⟩
      obtain ⟨k, use⟩ := c
      cases use with
      | free => exact later hp
      | lost => exact later hp
      | packet q =>
          rcases List.mem_cons.mp hp with rfl | hp
          · refine ⟨i, List.mem_cons_self, here.used.1, ?_⟩
            rw [here.sized]
            exact Int.ofNat_le.mpr here.used.2.1
          · exact later hp

theorem Layout.packets_apart (h : Layout m i cs e) :
    (packetsOf cs).Pairwise fun p q => p.data + p.len + dataHeader ≤ q.data := by
  induction cs generalizing i with
  | nil => exact .nil
  | cons c cs ih =>
      obtain ⟨here, after⟩ := h
      obtain ⟨k, use⟩ := c
      cases use with
      | free => exact ih after
      | lost => exact ih after
      | packet p =>
          refine .cons (fun q hq => ?_) (ih after)
          obtain ⟨j, hj, data, -⟩ := after.packet hq
          have low := (after.header hj).1
          have start := here.used.1
          have fits : p.len ≤ k := here.used.2.1
          simp only at low
          omega

theorem Tiled.wellFormed {bufferSize : Int} {s : State} (h : Tiled bufferSize s cs) :
    WellFormed bufferSize s (headersOf dataArea cs) where
  walk := h.1.walk
  apart := h.1.headers_apart
  prepared := fun j hj => (h.1.header hj).2.2.2
  capacity := fun p hp => h.1.packet (h.2.mem_iff.mp hp)
  inside := by
    intro p hp
    obtain ⟨j, hj, data, fits⟩ := h.1.packet (h.2.mem_iff.mp hp)
    obtain ⟨low, -, high, -⟩ := h.1.header hj
    have head : headSize = dataArea + dataHeader := rfl
    omega
  headers := by
    intro p hp k hk
    obtain ⟨j, hj, data, fits⟩ := h.1.packet (h.2.mem_iff.mp hp)
    have sym : Std.Symm fun a b =>
        a + dataHeader + size s.mem a ≤ b ∨ b + dataHeader + size s.mem b ≤ a :=
      ⟨fun _ _ => Or.symm⟩
    have apart := List.Pairwise.forall
      (R := fun a b => a + dataHeader + size s.mem a ≤ b ∨ b + dataHeader + size s.mem b ≤ a)
      (h.1.headers_apart.imp fun order => .inl order)
    have header : dataHeader = 10 := rfl
    by_cases same : k = j
    · omega
    · have order := apart hk hj same
      have nonneg := (h.1.header hk).2.1
      omega
  disjoint := by
    have sym : ∀ {p q : Packet},
        p.data + p.len + dataHeader ≤ q.data ∨ q.data + q.len + dataHeader ≤ p.data →
        q.data + q.len + dataHeader ≤ p.data ∨ p.data + p.len + dataHeader ≤ q.data := Or.symm
    exact (h.2.pairwise_iff sym).mpr (h.1.packets_apart.imp .inl)

end Layout

theorem readData_ends {bufferSize : Int} {s : State} {cs : List Chunk}
    (h : Tiled bufferSize s cs) : ∃ fuel r, readData bufferSize fuel s.mem = some r := by
  have gated : Layout (setExisting s.mem (existing s.mem + 0xffff)) dataArea cs bufferSize :=
    h.1.frame (Bytes.sameOn_write (.inr (Int.le_refl _)))
  have reads : ReadsFrom bufferSize [] _ dataArea cs := read_refined gated
  obtain ⟨ds, m', ⟨fuel, ran⟩, -⟩ := reads
  by_cases gate : existing (setExisting s.mem (existing s.mem + 0xffff)) < 0x8000
  · exact ⟨fuel, _, by rw [readData, if_pos gate, ran]⟩
  · exact ⟨0, _, by rw [readData, if_neg gate]⟩

/-- Representation invariant: after any run the chunks tile the buffer, every region lies
in its own chunk, and both PrepareData and ReadData end. -/
theorem representation_invariant {bufferSize : Nat} {s t : State} {es : List Event}
    (low : headSize ≤ bufferSize) (high : bufferSize < 2^31) (start : Initial bufferSize s)
    (run : Run (Step bufferSize) s es t) :
    (∃ hs, WellFormed bufferSize t hs) ∧
      (∀ n < 2^16, ∃ fuel r, prepareData bufferSize n fuel t.mem = some r) ∧
      ∃ fuel r, readData bufferSize fuel t.mem = some r := by
  have small : (bufferSize : Int) < 2^31 := by omega
  obtain ⟨cs, h⟩ := run.invariant (I := fun s => ∃ cs, Tiled bufferSize s cs)
    (tiled_step small) ⟨_, start.tiled low high⟩
  refine ⟨⟨_, h.wellFormed⟩, fun n short => ?_, readData_ends h⟩
  obtain ⟨m', ⟨fuel, ran⟩, -⟩ := place_refined small short (Layout.nil _ _) h.1
  exact ⟨fuel, _, ran⟩

/-- A buffer of the constructor, on memory that is all zero. -/
def freshState (bufferSize : Nat) : State := ⟨orShaIo (fun _ => 0) bufferSize, []⟩

theorem freshState_initial (bufferSize : Nat) : Initial bufferSize (freshState bufferSize) :=
  ⟨_, fun _ _ _ => rfl, rfl⟩

theorem representation_invariant_one_packet :
    ∃ t : State, t.packets.length = 1 ∧ (∃ hs, WellFormed 0x1000 t hs) ∧
      (∀ n < 2^16, ∃ fuel r, prepareData 0x1000 n fuel t.mem = some r) ∧
      ∃ fuel r, readData 0x1000 fuel t.mem = some r := by
  have start := freshState_initial 0x1000
  obtain ⟨t, took, -, -, packets⟩ :=
    (start.tiled (by decide) (by decide)).prepare_step (n := 16) (by decide) (by decide)
  rw [place_divide rfl (by decide)] at took packets
  have split : t.packets = [] ++ newPacket (dataArea + dataHeader) 16 :: [] := packets
  exact ⟨_, rfl, representation_invariant (by decide) (by decide) start
    (.cons took (.cons (.send split rfl) (.nil _)))⟩

end LMalz.Buffer
