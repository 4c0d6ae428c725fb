import LMalz.Lib.ByteCopy
import LMalz.Lib.Fields
import Mathlib.Data.List.Range

/- ALmemCopyData between two ranges that do not overlap. -/
namespace LMalz.Send

/-- Its loads and stores, as an offset and a number of bytes: eight at a time, four if
they are left, and the last bytes one by one. -/
def copyUnits (size : Nat) : List (Nat × Nat) :=
  (List.range (size / 8)).map (fun i => (8 * i, 8)) ++
    (if 4 ≤ size % 8 then [(size / 8 * 8, 4)] else []) ++
    (List.range (size % 4)).map fun j => (size / 4 * 4 + j, 1)

/-- The bytes ALmemCopyData stores at `dest`, in its order. -/
def memCopyData (dest size : Nat) (src : Nat → BitVec 8) : List (Nat × BitVec 8) :=
  (copyUnits size).flatMap fun (o, n) => (List.range n).map fun k => (dest + (o + k), src (o + k))

theorem copyUnits_tiles (size : Nat) : ByteCopy.Tiles 0 (copyUnits size) size := by
  have eights := ByteCopy.tiles_evenly 0 8 (size / 8)
  have ones := ByteCopy.tiles_evenly (size / 4 * 4) 1 (size % 4)
  simp only [Nat.zero_add] at eights
  rw [Nat.one_mul, show size / 4 * 4 + size % 4 = size by omega] at ones
  simp only [Nat.one_mul] at ones
  have four : ByteCopy.Tiles (8 * (size / 8)) (if 4 ≤ size % 8 then [(size / 8 * 8, 4)] else [])
      (size / 4 * 4) := by
    split_ifs with more
    · exact ⟨Nat.mul_comm _ _, show 8 * (size / 8) + 4 = size / 4 * 4 by omega⟩
    · exact show 8 * (size / 8) = size / 4 * 4 by omega
  exact (eights.append four).append ones

theorem copyUnits_small {size : Nat} {u : Nat × Nat} (unit : u ∈ copyUnits size) : u.2 ≤ 8 := by
  simp only [copyUnits, List.mem_append, List.mem_map, List.mem_ite_nil_right, List.mem_singleton] at unit
  rcases unit with (⟨i, -, rfl⟩ | ⟨-, rfl⟩) | ⟨j, -, rfl⟩
  · exact Nat.le_refl 8
  · exact show 4 ≤ 8 by decide
  · exact show 1 ≤ 8 by decide

/-- The units cover every byte, lowest first. -/
theorem copyUnits_offsets (size : Nat) :
    (copyUnits size).flatMap (fun (o, n) => (List.range n).map (o + ·)) = List.range size := by
  have offsets := (copyUnits_tiles size).offsets
  simp only [List.range'_eq_map_range, Nat.sub_zero, Nat.zero_add, List.map_id'] at offsets
  exact offsets

theorem memCopyData_eq (dest size : Nat) (src : Nat → BitVec 8) :
    memCopyData dest size src = (List.range size).map fun k => (dest + k, src k) := by
  rw [← copyUnits_offsets size, List.map_flatMap, memCopyData]
  simp only [List.map_map]
  rfl

end LMalz.Send
