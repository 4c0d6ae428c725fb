import Mathlib.Logic.Function.Basic
import Mathlib.Tactic.Ring

/- Byte-addressed memory and little-endian fields of any number of bytes. -/
namespace Bytes
open Function (update)

abbrev Memory := Int → BitVec 8

variable {m m' : Memory} {a b : Int} {n k v : Nat}

/-- The `n` bytes from `a` on as a little-endian number. -/
def read (m : Memory) (a : Int) : Nat → Nat
  | 0 => 0
  | n + 1 => (m a).toNat + 256 * read m (a + 1) n

/-- Store the low `n` bytes of `v` from `a` on. -/
def write (m : Memory) (a : Int) : Nat → Nat → Memory
  | 0, _ => m
  | n + 1, v => write (update m a (BitVec.ofNat 8 v)) (a + 1) n (v / 256)

/-- The memories hold the same bytes from `a` up to `b`. -/
def SameOn (m m' : Memory) (a b : Int) : Prop := ∀ x, a ≤ x → x < b → m' x = m x

namespace SameOn

theorem refl (m : Memory) (a b : Int) : SameOn m m a b := fun _ _ _ => rfl

theorem trans {m'' : Memory} (h : SameOn m m' a b) (g : SameOn m' m'' a b) : SameOn m m'' a b :=
  fun x low high => (g x low high).trans (h x low high)

theorem sub {a' b' : Int} (h : SameOn m m' a b) (low : a ≤ a') (high : b' ≤ b) :
    SameOn m m' a' b' :=
  fun x hx hx' => h x (low.trans hx) (hx'.trans_le high)

end SameOn

theorem write_outside {x : Int} (out : x < a ∨ a + n ≤ x) : write m a n v x = m x := by
  induction n generalizing m a v with
  | zero => rfl
  | succ n ih =>
      have other : x ≠ a := by omega
      rw [write, ih (by omega), Function.update_of_ne other]

theorem read_congr (same : SameOn m m' a (a + n)) : read m' a n = read m a n := by
  induction n generalizing a with
  | zero => rfl
  | succ n ih =>
      have first : m' a = m a := same a (by omega) (by omega)
      have rest : SameOn m m' (a + 1) (a + 1 + n) := same.sub (by omega) (by omega)
      rw [read, read, first, ih rest]

theorem read_zero (zero : ∀ x, a ≤ x → x < a + n → m x = 0) : read m a n = 0 := by
  induction n generalizing a with
  | zero => rfl
  | succ n ih =>
      have first : m a = 0 := zero a (by omega) (by omega)
      have rest := ih (a := a + 1) fun x low high => zero x (by omega) (by omega)
      simp [read, first, rest]

theorem read_lt : read m a n < 256 ^ n := by
  induction n generalizing a with
  | zero => simp [read]
  | succ n ih =>
      have byte := (m a).isLt
      have rest := ih (a := a + 1)
      rw [read, Nat.pow_succ]
      omega

theorem read_write : read (write m a n v) a n = v % 256 ^ n := by
  induction n generalizing m a v with
  | zero => simp [read, Nat.mod_one]
  | succ n ih =>
      have first : write (update m a (BitVec.ofNat 8 v)) (a + 1) n (v / 256) a =
          BitVec.ofNat 8 v := by
        rw [write_outside (by omega), Function.update_self]
      have split : v % 256 ^ (n + 1) = v % 256 + 256 * (v / 256 % 256 ^ n) := by
        rw [pow_succ', Nat.mod_mul]
      rw [write, read, first, ih, BitVec.toNat_ofNat, split]

theorem sameOn_write {c d : Int} (out : d ≤ a ∨ a + n ≤ c) : SameOn m (write m a n v) c d :=
  fun _ low high => write_outside (by omega)

/-- A field next to or away from the one written. -/
theorem read_write_apart (apart : b + k ≤ a ∨ a + n ≤ b) :
    read (write m a n v) b k = read m b k :=
  read_congr (sameOn_write apart)

theorem sameOn_update {x c d : Int} {w : BitVec 8} (out : x < c ∨ d ≤ x) :
    SameOn m (update m x w) c d := by
  intro y low high
  have other : y ≠ x := by omega
  exact Function.update_of_ne other _ _

end Bytes
