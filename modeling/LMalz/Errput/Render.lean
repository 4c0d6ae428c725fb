import LMalz.Errput.Print
import Mathlib.Tactic.Ring
import Mathlib.Data.List.GetD

/- What print emits, as a text that depends on the format and the arguments only. -/
namespace LMalz.Errput

/-- printchar for each character. -/
def Output.emit (o : Output) (cs : List Byte) : Output := cs.foldl printchar o

def padding (len : Nat) (width : BitVec 32) : Nat :=
  if 0 < width.toInt then (padWidth len width).toInt.toNat else 0

def padded (cs : List Byte) (width : BitVec 32) (pad : Pad) : List Byte :=
  let fill := List.replicate (padding cs.length width) (if pad.zero then chr '0' else chr ' ')
  if pad.right then cs ++ fill else fill ++ cs

/-- The digits that printi puts into print_buf. -/
def digitText (b : Nat) (letbase : Byte) (u : BitVec 64) : List Byte :=
  digitLoop b letbase (PRINT_BUF_LEN - 1) u.toNat []

def numberText (i : BitVec 64) (b : Nat) (sg : Bool) (width : BitVec 32) (pad : Pad) (letbase : Byte) :
    List Byte :=
  if i = 0 then padded [chr '0'] width pad
  else if sg = true ∧ b = 10 ∧ i.toInt < 0 then
    if width ≠ 0 ∧ pad.zero = true then chr '-' :: padded (digitText b letbase (-i)) (width - 1) pad
    else padded (chr '-' :: digitText b letbase (-i)) width pad
  else padded (digitText b letbase i) width pad

section Render
variable (strings : BitVec 64 → List Byte)

/-- The text of a conversion that takes an argument. -/
def conversionText (pad : Pad) (width : BitVec 32) (c : Byte) (arg : BitVec 64) : List Byte :=
  if c = chr 's' then padded (if arg = 0 then nullText else strings arg) width pad
  else if c = chr 'd' then numberText (intArgument arg) 10 true width pad (chr 'a')
  else if c = chr 'x' then numberText (intArgument arg) 16 false width pad (chr 'a')
  else if c = chr 'X' then numberText (intArgument arg) 16 false width pad (chr 'A')
  else if c = chr 'u' then numberText (intArgument arg) 10 false width pad (chr 'a')
  else if c = chr 'p' then chr '0' :: chr 'x' :: numberText arg 16 false 16 ⟨false, true⟩ (chr 'A')
  else padded (if arg.setWidth 8 = (0 : Byte) then [] else [arg.setWidth 8]) width pad

/-- The text of a format, unless its end cuts a conversion off. -/
def renderLoop : Nat → List Byte → (Nat → BitVec 64) → Option (List Byte)
  | 0, _, _ => none
  | steps + 1, format, varg =>
      match scan format with
      | .stop => some []
      | .cut => none
      | .char c rest => (renderLoop steps rest varg).map (c :: ·)
      | .conversion pad width c rest =>
          if takesArgument c then
            (renderLoop steps rest fun n => varg (n + 1)).map
              (conversionText strings pad width c (varg 0) ++ ·)
          else renderLoop steps rest varg

def render (format : List Byte) (varg : Nat → BitVec 64) : Option (List Byte) :=
  renderLoop strings (format.length + 1) format varg

end Render

section Emit
variable {o : Output} {cs ds : List Byte} {m : Memory}

@[simp] theorem emit_nil (o : Output) : o.emit [] = o := rfl

theorem emit_append (o : Output) (cs ds : List Byte) : o.emit (cs ++ ds) = (o.emit cs).emit ds :=
  List.foldl_append

theorem emit_str (o : Output) (cs : List Byte) : (o.emit cs).str = o.str + cs.length := by
  induction cs generalizing o with
  | nil => exact (Int.add_zero _).symm
  | cons c cs ih =>
      change ((printchar o c).emit cs).str = _
      rw [ih, List.length_cons, printchar]
      push_cast
      ring

theorem emit_emitted (o : Output) (cs : List Byte) : (o.emit cs).emitted = o.emitted ++ cs := by
  induction cs generalizing o with
  | nil => exact (List.append_nil _).symm
  | cons c cs ih =>
      change ((printchar o c).emit cs).emitted = _
      rw [ih, printchar, List.append_assoc, List.singleton_append]

/-- The characters go behind each other. -/
theorem mem_emit_writes (o : Output) (cs : List Byte) (a : Int) :
    a ∈ (o.emit cs).writes ↔ a ∈ o.writes ∨ o.str ≤ a ∧ a < o.str + cs.length := by
  induction cs generalizing o with
  | nil =>
      change a ∈ o.writes ↔ a ∈ o.writes ∨ o.str ≤ a ∧ a < o.str + (0 : Nat)
      constructor
      · exact .inl
      · rintro (old | none)
        · exact old
        · omega
  | cons c cs ih =>
      change a ∈ ((printchar o c).emit cs).writes ↔ _
      rw [ih, printchar, List.mem_append, List.mem_singleton, List.length_cons]
      push_cast
      constructor
      · rintro ((old | rfl) | next)
        · exact .inl old
        · exact .inr (by omega)
        · exact .inr (by omega)
      · rintro (old | next)
        · exact .inl (.inl old)
        · by_cases first : a = o.str
          · exact .inl (.inr first)
          · exact .inr (by omega)

theorem emit_memory_frame {a : Int} (outside : a < o.str ∨ o.str + cs.length ≤ a) :
    (o.emit cs).memory a = o.memory a := by
  induction cs generalizing o with
  | nil => rfl
  | cons c cs ih =>
      change ((printchar o c).emit cs).memory a = _
      rw [List.length_cons] at outside
      push_cast at outside
      rw [ih (by dsimp only [printchar]; omega)]
      exact Function.update_of_ne (by omega) _ _

theorem emit_memory_at {k : Nat} (inside : k < cs.length) : (o.emit cs).memory (o.str + k) = cs[k] := by
  induction cs generalizing o k with
  | nil => exact absurd inside (Nat.not_lt_zero k)
  | cons c cs ih =>
      change ((printchar o c).emit cs).memory _ = _
      cases k with
      | zero =>
          rw [emit_memory_frame (.inl (by dsimp only [printchar]; omega))]
          simp [printchar]
      | succ k =>
          have next : o.str + ((k + 1 : Nat) : Int) = (printchar o c).str + (k : Nat) := by
            dsimp only [printchar]
            push_cast
            ring
          rw [next, ih (by simpa using inside)]
          rfl

end Emit

/-- The characters from an address on are those of a text and a NUL. -/
structure IsString (char : Nat → Byte) (cs : List Byte) : Prop where
  text : ∀ k (h : k < cs.length), char k = cs[k]
  plain : 0 ∉ cs
  stop : char cs.length = 0

theorem isString_buffer {cs : List Byte} (m : Memory) (plain : 0 ∉ cs) :
    IsString ((Source.buffer cs).char m) cs where
  text k h := by rw [Source.char, List.getD_eq_getElem _ _ h]
  plain := plain
  stop := by rw [Source.char, List.getD_eq_default _ _ (Nat.le_refl _)]

end LMalz.Errput
