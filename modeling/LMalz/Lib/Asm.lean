import LMalz.Lib.BitField
import Mathlib.Logic.Function.Basic
import Mathlib.Data.List.Nodup
import Mathlib.Data.List.Pairwise

/- Straight-line code over 64-bit registers and a memory of bytes; registers kept in memory. -/
namespace Asm
open Function (update)

abbrev Address := BitVec 64
abbrev Memory := Address → BitVec 8

def byte (m : Memory) (a : Address) (k : Nat) : BitVec 8 := m (a + BitVec.ofNat 64 k)

/-- The eight bytes from an address on, the lowest first. -/
def load (m : Memory) (a : Address) : BitVec 64 :=
  byte m a 7 ++ byte m a 6 ++ byte m a 5 ++ byte m a 4 ++ byte m a 3 ++ byte m a 2 ++ byte m a 1 ++ byte m a 0

def store (m : Memory) (a : Address) (v : BitVec 64) : Memory := fun x =>
  if x - a < 8 then BitField.get v (8 * (x - a).toNat) 8 else m x

/-- The two words have no byte in common. -/
def Apart (a b : Address) : Prop := 8 ≤ b - a ∧ 8 ≤ a - b

instance (a b : Address) : Decidable (Apart a b) := inferInstanceAs (Decidable (_ ∧ _))

section Words
variable {m m' : Memory} {a b : Address} {v : BitVec 64}

theorem Apart.symm (h : Apart a b) : Apart b a := ⟨h.2, h.1⟩

instance : Std.Symm Apart := ⟨fun _ _ => Apart.symm⟩

theorem Apart.add (h : Apart a b) (base : Address) : Apart (base + a) (base + b) := by
  have moved (x y : Address) : base + x - (base + y) = x - y := by bv_omega
  rw [Apart, moved, moved]
  exact h

/-- The word has no byte among the `size` bytes from `base` on. -/
def Outside (base size a : Address) : Prop := size ≤ a - base ∧ 8 ≤ base - a

instance (base size a : Address) : Decidable (Outside base size a) := inferInstanceAs (Decidable (_ ∧ _))

theorem Outside.apart {base size o : Address} (h : Outside base size a) (fits : 8 ≤ size) (inside : o ≤ size - 8) :
    Apart a (base + o) := by
  obtain ⟨above, below⟩ := h
  exact ⟨by bv_omega, by bv_omega⟩

theorem byte_store_self {k : Nat} (inside : k < 8) :
    byte (store m a v) a k = BitField.get v (8 * k) 8 := by
  have offset : a + BitVec.ofNat 64 k - a = BitVec.ofNat 64 k := by bv_omega
  have small : (BitVec.ofNat 64 k).toNat = k := by
    rw [BitVec.toNat_ofNat]
    omega
  have low : BitVec.ofNat 64 k < 8 := by
    rw [BitVec.lt_def, small]
    exact inside
  rw [byte, store, offset, if_pos low, small]

theorem byte_store_apart (apart : Apart a b) {k : Nat} (inside : k < 8) :
    byte (store m a v) b k = byte m b k := by
  obtain ⟨above, below⟩ := apart
  have outside : ¬ b + BitVec.ofNat 64 k - a < 8 := by bv_omega
  rw [byte, store, if_neg outside, byte]

theorem load_congr (same : ∀ k < 8, byte m' a k = byte m a k) : load m' a = load m a := by
  rw [load, same 0 (by omega), same 1 (by omega), same 2 (by omega), same 3 (by omega),
    same 4 (by omega), same 5 (by omega), same 6 (by omega), same 7 (by omega), ← load]

theorem load_store_self : load (store m a v) a = v := by
  have cell (k : Nat) (inside : k < 8) : byte (store m a v) a k = BitField.get v (8 * k) 8 :=
    byte_store_self inside
  have join (lo len : Nat) := BitField.get_append v lo 8 len
  rw [load, cell 0 (by omega), cell 1 (by omega), cell 2 (by omega), cell 3 (by omega),
    cell 4 (by omega), cell 5 (by omega), cell 6 (by omega), cell 7 (by omega), join 48 8, join 40 16,
    join 32 24, join 24 32, join 16 40, join 8 48, join 0 56]
  exact BitVec.extractLsb'_eq_self

theorem load_store_apart (apart : Apart a b) : load (store m a v) b = load m b :=
  load_congr fun _ inside => byte_store_apart apart inside

theorem store_store (w : BitVec 64) : store (store m a v) a w = store m a w := by
  funext x
  simp only [store]
  split_ifs <;> rfl

/-- Words are stored at displacements from a base, one after the other. -/
def storeAll (m : Memory) (base : Address) (l : List (Address × BitVec 64)) : Memory :=
  l.foldl (fun m w => store m (base + w.1) w.2) m

variable {base : Address} {w : Address × BitVec 64} {l : List (Address × BitVec 64)}

theorem storeAll_append (l l' : List (Address × BitVec 64)) :
    storeAll m base (l ++ l') = storeAll (storeAll m base l) base l' := List.foldl_append

theorem load_storeAll_apart (apart : ∀ w ∈ l, Apart (base + w.1) a) :
    load (storeAll m base l) a = load m a := by
  induction l generalizing m with
  | nil => rfl
  | cons w l ih =>
      have rest : load (storeAll (store m (base + w.1) w.2) base l) a = load (store m (base + w.1) w.2) a :=
        ih fun u mem => apart u (List.mem_cons_of_mem w mem)
      exact rest.trans (load_store_apart (apart w List.mem_cons_self))

/-- Each word is in its place: the later ones are stored elsewhere. -/
theorem load_storeAll (apart : l.Pairwise fun w u => Apart w.1 u.1) (mem : w ∈ l) :
    load (storeAll m base l) (base + w.1) = w.2 := by
  induction l generalizing m with
  | nil => cases mem
  | cons u l ih =>
      obtain ⟨first, rest⟩ := List.pairwise_cons.mp apart
      rcases List.mem_cons.mp mem with rfl | later
      · have kept : load (storeAll (store m (base + w.1) w.2) base l) (base + w.1) =
            load (store m (base + w.1) w.2) (base + w.1) :=
          load_storeAll_apart fun u mem => ((first u mem).add base).symm
        exact kept.trans load_store_self
      · exact ih rest later

end Words

/-- Registers, of which one is the stack pointer, and a memory. -/
structure Cpu (R : Type) where
  reg : R → BitVec 64
  memory : Memory

/-- Displacements are added to a base register. -/
inductive Instr (R : Type) where
  | mov (r s : R)
  | movImm (r : R) (v : BitVec 64)
  | load (r b : R) (o : BitVec 64)
  | store (b : R) (o : BitVec 64) (r : R)
  | storeImm (b : R) (o v : BitVec 64)
  | add (r : R) (v : BitVec 64)
  | sub (r : R) (v : BitVec 64)
  | addMem (b : R) (o v : BitVec 64)
  | subMem (b : R) (o v : BitVec 64)
  | shl (r : R) (n : Nat)
  | or (r s : R)
  | subReg (r s : R)
  | push (r : R)
  | pushImm (v : BitVec 64)
  | pushMem (b : R) (o : BitVec 64)
  | pop (r : R)
  | popMem (b : R) (o : BitVec 64)

section Cpu
variable {R : Type} [DecidableEq R]

def Cpu.set (c : Cpu R) (r : R) (v : BitVec 64) : Cpu R := { c with reg := update c.reg r v }

def Cpu.write (c : Cpu R) (a : Address) (v : BitVec 64) : Cpu R := { c with memory := store c.memory a v }

/-- The value is read before the stack pointer moves. -/
def Cpu.pushed (c : Cpu R) (sp : R) (v : BitVec 64) : Cpu R :=
  (c.write (c.reg sp - 8) v).set sp (c.reg sp - 8)

/-- The stack pointer moves before the register is set. -/
def Cpu.popped (c : Cpu R) (sp r : R) : Cpu R := (c.set sp (c.reg sp + 8)).set r (load c.memory (c.reg sp))

def exec (sp : R) (c : Cpu R) : Instr R → Cpu R
  | .mov r s => c.set r (c.reg s)
  | .movImm r v => c.set r v
  | .load r b o => c.set r (load c.memory (c.reg b + o))
  | .store b o r => c.write (c.reg b + o) (c.reg r)
  | .storeImm b o v => c.write (c.reg b + o) v
  | .add r v => c.set r (c.reg r + v)
  | .sub r v => c.set r (c.reg r - v)
  | .addMem b o v => c.write (c.reg b + o) (load c.memory (c.reg b + o) + v)
  | .subMem b o v => c.write (c.reg b + o) (load c.memory (c.reg b + o) - v)
  | .shl r n => c.set r (c.reg r <<< n)
  | .or r s => c.set r (c.reg r ||| c.reg s)
  | .subReg r s => c.set r (c.reg r - c.reg s)
  | .push r => c.pushed sp (c.reg r)
  | .pushImm v => c.pushed sp v
  | .pushMem b o => c.pushed sp (load c.memory (c.reg b + o))
  | .pop r => c.popped sp r
  | .popMem b o =>
      let d := c.set sp (c.reg sp + 8)
      d.write (d.reg b + o) (load c.memory (c.reg sp))

def run (sp : R) (is : List (Instr R)) (c : Cpu R) : Cpu R := is.foldl (exec sp) c

section Fields
variable (c : Cpu R) (r s : R) (a : Address) (v : BitVec 64)

@[simp] theorem Cpu.reg_set_self : (c.set r v).reg r = v := Function.update_self _ _ _

theorem Cpu.reg_set_of_ne (ne : s ≠ r) : (c.set r v).reg s = c.reg s := Function.update_of_ne ne _ _

omit [DecidableEq R] in
@[simp] theorem Cpu.reg_write : (c.write a v).reg = c.reg := rfl

end Fields

variable {sp b : R} {c : Cpu R} {s : R × BitVec 64} {l : List (R × BitVec 64)}

theorem run_append (is js : List (Instr R)) : run sp (is ++ js) c = run sp js (run sp is c) :=
  List.foldl_append

def pushes (l : List (BitVec 64)) : List (Instr R) := l.map .pushImm

/-- Where pushed words lie below `top`. -/
def pushedWords (top : BitVec 64) : List (BitVec 64) → List (Address × BitVec 64)
  | [] => []
  | v :: l => (top - 8, v) :: pushedWords (top - 8) l

/-- Pushes store words downwards and move the stack pointer. -/
structure Pushed (sp : R) (base top : BitVec 64) (l : List (BitVec 64)) (c d : Cpu R) : Prop where
  memory : d.memory = storeAll c.memory base (pushedWords top l)
  stack : d.reg sp = base + (top - 8 * BitVec.ofNat 64 l.length)
  reg : ∀ r ≠ sp, d.reg r = c.reg r

theorem run_pushes {base top : BitVec 64} {l : List (BitVec 64)} (stack : c.reg sp = base + top) :
    Pushed sp base top l c (run sp (pushes l) c) := by
  induction l generalizing c top with
  | nil =>
      refine ⟨rfl, ?_, fun _ _ => rfl⟩
      rw [List.length_nil]
      exact stack.trans (by simp)
  | cons v l ih =>
      have below : c.reg sp - 8 = base + (top - 8) := by
        rw [stack]
        grind
      have moved : (c.pushed sp v).reg sp = base + (top - 8) := by rw [Cpu.pushed, Cpu.reg_set_self, below]
      have rest := ih moved
      refine ⟨?_, ?_, fun r ne => (rest.reg r ne).trans (Cpu.reg_set_of_ne _ _ _ _ ne)⟩
      · refine rest.memory.trans ?_
        rw [Cpu.pushed, below]
        rfl
      · refine rest.stack.trans ?_
        rw [List.length_cons, BitVec.ofNat_add, BitVec.mul_add]
        grind

/-- Registers are stored at displacements from `b`. -/
def saves (b : R) (l : List (R × BitVec 64)) : List (Instr R) := l.map fun s => .store b s.2 s.1

/-- Registers are loaded from displacements from `b`. -/
def loads (b : R) (l : List (R × BitVec 64)) : List (Instr R) := l.map fun s => .load s.1 b s.2

@[simp] theorem reg_saves : (run sp (saves b l) c).reg = c.reg := by
  induction l generalizing c with
  | nil => rfl
  | cons s l ih => exact ih

theorem memory_saves : (run sp (saves b l) c).memory =
    storeAll c.memory (c.reg b) (l.map fun s => (s.2, c.reg s.1)) := by
  induction l generalizing c with
  | nil => rfl
  | cons s l ih => exact ih

theorem load_saves_apart {a : Address} (apart : ∀ s ∈ l, Apart (c.reg b + s.2) a) :
    load (run sp (saves b l) c).memory a = load c.memory a := by
  rw [memory_saves]
  refine load_storeAll_apart fun w mem => ?_
  obtain ⟨s, slot, rfl⟩ := List.mem_map.mp mem
  exact apart s slot

/-- Each register is in its place. -/
theorem load_saves (apart : l.Pairwise fun s t => Apart s.2 t.2) (mem : s ∈ l) :
    load (run sp (saves b l) c).memory (c.reg b + s.2) = c.reg s.1 := by
  have stored : (s.2, c.reg s.1) ∈ l.map fun s => (s.2, c.reg s.1) := List.mem_map.mpr ⟨s, mem, rfl⟩
  have places : (l.map fun s => (s.2, c.reg s.1)).Pairwise fun w u => Apart w.1 u.1 :=
    List.pairwise_map.mpr apart
  rw [memory_saves]
  exact load_storeAll (w := (s.2, c.reg s.1)) places stored

@[simp] theorem memory_loads : (run sp (loads b l) c).memory = c.memory := by
  induction l generalizing c with
  | nil => rfl
  | cons s l ih => exact ih

theorem reg_loads_other {r : R} (other : r ∉ l.map Prod.fst) : (run sp (loads b l) c).reg r = c.reg r := by
  induction l generalizing c with
  | nil => rfl
  | cons s l ih =>
      rw [List.map_cons, List.mem_cons, not_or] at other
      have rest : (run sp (loads b l) (c.set s.1 (load c.memory (c.reg b + s.2)))).reg r =
          (c.set s.1 (load c.memory (c.reg b + s.2))).reg r := ih other.2
      exact rest.trans (Cpu.reg_set_of_ne _ _ _ _ other.1)

/-- Each register holds its word: no later load sets it again, and none moves the base. -/
theorem reg_loads (once : (l.map Prod.fst).Nodup) (base : b ∉ l.map Prod.fst) (mem : s ∈ l) :
    (run sp (loads b l) c).reg s.1 = load c.memory (c.reg b + s.2) := by
  induction l generalizing c with
  | nil => cases mem
  | cons t l ih =>
      obtain ⟨first, rest⟩ := List.nodup_cons.mp once
      rw [List.map_cons, List.mem_cons, not_or] at base
      obtain ⟨c', hc'⟩ : ∃ c', c' = c.set t.1 (load c.memory (c.reg b + t.2)) := ⟨_, rfl⟩
      have runs : run sp (loads b (t :: l)) c = run sp (loads b l) c' := by
        rw [hc']
        rfl
      have same : c'.reg b = c.reg b := by
        rw [hc']
        exact Cpu.reg_set_of_ne _ _ _ _ base.1
      rw [runs]
      rcases List.mem_cons.mp mem with rfl | later
      · rw [reg_loads_other first, hc', Cpu.reg_set_self]
      · have loaded : (run sp (loads b l) c').reg s.1 = load c'.memory (c'.reg b + s.2) := ih rest base.2 later
        rw [loaded, same, hc']
        rfl

end Cpu

end Asm
