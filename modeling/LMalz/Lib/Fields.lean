import LMalz.Lib.Bytes

/- Stores of whole fields, as the bytes they store one after the other. -/
namespace Bytes
open Function (update)

/-- Byte stores made one after the other. -/
def store (m : Memory) (ws : List (Nat × BitVec 8)) : Memory :=
  ws.foldl (fun m w => update m w.1 w.2) m

structure FieldAt where
  offset : Nat
  width : Nat
  value : Nat

namespace FieldAt

def bytes (f : FieldAt) : List (Nat × BitVec 8) :=
  (List.range f.width).map fun k => (f.offset + k, BitVec.ofNat 8 (f.value / 256 ^ k))

def span (f : FieldAt) : Nat × Nat := (f.offset, f.width)

def Apart (f g : FieldAt) : Prop := f.offset + f.width ≤ g.offset ∨ g.offset + g.width ≤ f.offset

end FieldAt

variable {m m' : Memory} {ws ws' : List (Nat × BitVec 8)} {fs : List FieldAt} {f : FieldAt} {x : Int}

theorem store_append : store m (ws ++ ws') = store (store m ws) ws' := List.foldl_append

theorem store_outside (out : ∀ w ∈ ws, x ≠ w.1) : store m ws x = m x := by
  induction ws generalizing m with
  | nil => rfl
  | cons w ws ih =>
      have first : x ≠ w.1 := out w List.mem_cons_self
      have rest := ih (m := update m w.1 w.2) fun w' hw' => out w' (List.mem_cons_of_mem w hw')
      exact rest.trans (Function.update_of_ne first _ _)

/-- A byte after the stores depends on no other byte before them. -/
theorem store_congr (same : m' x = m x) : store m' ws x = store m ws x := by
  induction ws generalizing m m' with
  | nil => exact same
  | cons w ws ih =>
      refine ih (m := update m w.1 w.2) ?_
      simp only [Function.update_apply, same]

theorem store_bytes : store m f.bytes = write m f.offset f.width f.value := by
  obtain ⟨a, n, v⟩ := f
  induction n generalizing m a v with
  | zero => rfl
  | succ n ih =>
      have later : (FieldAt.mk a (n + 1) v).bytes =
          (a, BitVec.ofNat 8 v) :: (FieldAt.mk (a + 1) n (v / 256)).bytes := by
        simp only [FieldAt.bytes, List.range_succ_eq_map, List.map_cons, List.map_map]
        congr 1
        · simp
        · refine List.map_congr_left fun k _ => ?_
          simp only [Function.comp_apply, Prod.mk.injEq]
          exact ⟨by omega, by rw [Nat.div_div_eq_div_mul, ← Nat.pow_succ']⟩
      have step := ih (m := update m a (BitVec.ofNat 8 v)) (a + 1) (v / 256)
      rw [later]
      exact step

theorem store_fields_outside (out : ∀ f ∈ fs, x < f.offset ∨ f.offset + f.width ≤ x) :
    store m (fs.flatMap FieldAt.bytes) x = m x := by
  refine store_outside ?_
  intro w hw
  obtain ⟨f, hf, hw⟩ := List.mem_flatMap.mp hw
  obtain ⟨k, hk, rfl⟩ := List.mem_map.mp hw
  have below := List.mem_range.mp hk
  have apart := out f hf
  push_cast
  omega

/-- After stores to fields that share no byte each field holds its own value. -/
theorem read_store_fields (apart : fs.Pairwise FieldAt.Apart) (hf : f ∈ fs) :
    read (store m (fs.flatMap FieldAt.bytes)) f.offset f.width = f.value % 256 ^ f.width := by
  induction fs generalizing m with
  | nil => cases hf
  | cons g fs ih =>
      obtain ⟨others, rest⟩ := List.pairwise_cons.mp apart
      rw [List.flatMap_cons, store_append]
      rcases List.mem_cons.mp hf with rfl | later
      · have kept : SameOn (store m f.bytes) (store (store m f.bytes) (fs.flatMap FieldAt.bytes))
            f.offset (f.offset + f.width) := by
          intro x low high
          refine store_fields_outside fun g hg => ?_
          have := others g hg
          unfold FieldAt.Apart at this
          omega
        rw [read_congr kept, store_bytes, read_write]
      · exact ih rest later

end Bytes
