import LMalz.Lib.Transition
import Mathlib.Algebra.Group.Int.Defs
import Mathlib.Algebra.Group.Nat.Defs
import Mathlib.Logic.Function.Basic

/- The memory pool: two INT64 counters that grow towards each other. -/
namespace LMalz.Pool
open Function (update)

/-- The value an INT64 holds after arithmetic on it. -/
def int64 (x : Int) : Int := x.bmod (2^64)

/-- g_hvMMpoolSize, MB_TO_BYTE(10). -/
def poolSize : Int := 10 * 1024 * 1024

/-- (INT64)ALIGNS_PAGE(value): the sum and the mask are taken on UINT64. -/
def alignsPage (value : Int) : Int := int64 ((value + 0xfff) % 2^64 / 0x1000 * 0x1000)

/-- g_hvMMpoolUsable and g_hvMMpoolBigMemEnd. -/
structure Limits where
  poolUsable : Int
  poolBigMemEnd : Int
  deriving DecidableEq, Repr

/-- An offset from the start of the pool to its end. -/
def InPool (off : Int) : Prop := 0 ≤ off ∧ off ≤ poolSize

/-- Their values before the first request. -/
def Limits.init : Limits := ⟨0, poolSize⟩

/-- A call between its interlocked add and its read of the other limit: what was asked
for, the counter's value before the add, and what was added. -/
structure Request where
  sizeByByte : Int
  oldOff : Int
  added : Int
  deriving DecidableEq, Repr

/-- First half of ALhvMMallocateMemory, up to InterlockedExchangeAdd64. -/
def beginAllocate (lim : Limits) (sizeByByte : Int) : Request × Limits :=
  if 0x1000 ≤ sizeByByte then
    let aSize := alignsPage sizeByByte
    (⟨sizeByByte, lim.poolUsable, aSize⟩,
      { lim with poolUsable := int64 (lim.poolUsable + aSize) })
  else
    (⟨sizeByByte, lim.poolBigMemEnd, -sizeByByte⟩,
      { lim with poolBigMemEnd := int64 (lim.poolBigMemEnd + -sizeByByte) })

/-- Second half: the other limit is read and checked. The result is the offset in the
pool of the returned pointer; `none` is ALhvKill. -/
def finishAllocate (lim : Limits) (r : Request) : Option Int :=
  if 0x1000 ≤ r.sizeByByte then
    if int64 (r.oldOff + r.added) ≤ lim.poolBigMemEnd then some r.oldOff else none
  else
    if lim.poolUsable ≤ int64 (r.oldOff + r.added) then some (int64 (r.oldOff + r.added)) else none

/-- ALhvMMallocateMemory with nothing between its two halves. -/
def alHvMmAllocateMemory (lim : Limits) (sizeByByte : Int) : Option (Int × Limits) :=
  let (r, lim') := beginAllocate lim sizeByByte
  (finishAllocate lim' r).map fun off => (off, lim')

theorem int64_eq {x : Int} (low : -2^63 ≤ x) (high : x < 2^63) : int64 x = x :=
  Int.bmod_eq_of_le (by omega) (by omega)

theorem alignsPage_eq {value : Int} (low : 0 ≤ value) (high : value < 2^63 - 0xfff) :
    alignsPage value = (value + 0xfff) / 0x1000 * 0x1000 := by
  have small : (value + 0xfff) % 2^64 = value + 0xfff := Int.emod_eq_of_lt (by omega) (by omega)
  rw [alignsPage, small]
  exact int64_eq (by omega) (by omega)

/-- One page from a pool whose counters have not met. -/
theorem alHvMmAllocateMemory_page {lim : Limits} (low : 0 ≤ lim.poolUsable)
    (high : lim.poolUsable < 2^62) :
    alHvMmAllocateMemory lim 0x1000 =
      if lim.poolUsable + 0x1000 ≤ lim.poolBigMemEnd then
        some (lim.poolUsable, { lim with poolUsable := lim.poolUsable + 0x1000 })
      else none := by
  have rounded : alignsPage 0x1000 = 0x1000 := alignsPage_eq (by decide) (by decide)
  have exact : int64 (lim.poolUsable + 0x1000) = lim.poolUsable + 0x1000 :=
    int64_eq (by omega) (by omega)
  by_cases room : lim.poolUsable + 0x1000 ≤ lim.poolBigMemEnd <;>
    simp [alHvMmAllocateMemory, beginAllocate, finishAllocate, rounded, exact, room]

/-- A returned block: the pool offset of the pointer and the size asked for. -/
structure Block where
  offset : Int
  size : Int
  deriving DecidableEq, Repr

/-- The pool shared by the cores; `blocks` are those of the completed calls, newest first. -/
structure System (Core : Type) where
  limits : Limits
  mem : Int → BitVec 8
  pending : Core → Option Request
  blocks : List Block
  killed : Bool

inductive Event (Core : Type) where
  | begin (c : Core) (sizeByByte : Int)
  | finish (c : Core)
  | write (b : Block) (i : Int) (v : BitVec 8)

/-- One atomic step of one core. A killed machine takes none. -/
inductive Step {Core : Type} [DecidableEq Core] : System Core → Event Core → System Core → Prop
  | begin {s : System Core} {c : Core} {sizeByByte : Int} : s.killed = false →
      s.pending c = none → 0 < sizeByByte → sizeByByte < 2^63 →
      Step s (.begin c sizeByByte) { s with
        limits := (beginAllocate s.limits sizeByByte).2
        pending := update s.pending c (some (beginAllocate s.limits sizeByByte).1) }
  | ret {s : System Core} {c : Core} {r : Request} {off : Int} : s.killed = false →
      s.pending c = some r → finishAllocate s.limits r = some off →
      Step s (.finish c) { s with
        pending := update s.pending c none
        blocks := ⟨off, r.sizeByByte⟩ :: s.blocks }
  | kill {s : System Core} {c : Core} {r : Request} : s.killed = false →
      s.pending c = some r → finishAllocate s.limits r = none →
      Step s (.finish c) { s with killed := true }
  | write {s : System Core} {b : Block} {i : Int} {v : BitVec 8} : s.killed = false →
      b ∈ s.blocks → 0 ≤ i → i < b.size →
      Step s (.write b i v) { s with mem := update s.mem (b.offset + i) v }

/-- After ALhvMMinitPool: the pool is zeroed and no call is under way. -/
def Initial {Core : Type} (s : System Core) : Prop :=
  s.limits = Limits.init ∧ (∀ i, 0 ≤ i → i < poolSize → s.mem i = 0) ∧
    (∀ c, s.pending c = none) ∧ s.blocks = [] ∧ s.killed = false

end LMalz.Pool
