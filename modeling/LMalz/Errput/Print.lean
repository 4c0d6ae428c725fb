import Mathlib.Data.Int.Notation
import Mathlib.Logic.Function.Basic

/- prints, printi and print of hverrput.cpp, which is errput.cpp under another name. -/
namespace LMalz.Errput
open Function (update)

abbrev Byte := BitVec 8

def chr (c : Char) : Byte := BitVec.ofNat 8 c.toNat

abbrev Memory := Int → Byte

/-- The memory behind `*out`, with the characters that printchar was given and the addresses
written. -/
structure Output where
  memory : Memory
  str : Int
  emitted : List Byte
  writes : List Int

def printchar (o : Output) (c : Byte) : Output where
  memory := update o.memory o.str c
  str := o.str + 1
  emitted := o.emitted ++ [c]
  writes := o.writes ++ [o.str]

/-- `**out = '\0'`. -/
def Output.terminate (o : Output) : Output :=
  { o with memory := update o.memory o.str 0, writes := o.writes ++ [o.str] }

/-- PAD_RIGHT and PAD_ZERO. -/
structure Pad where
  right : Bool
  zero : Bool
  deriving DecidableEq

/-- What `string` of prints points to: memory at an argument, or a buffer of the caller's. -/
inductive Source where
  | at (add : Int)
  | buffer (cs : List Byte)

def Source.char (m : Memory) : Source → Nat → Byte
  | .at add, k => m (add + k)
  | .buffer cs, k => cs.getD k 0

/-- `for (ptr = string; *ptr; ++ptr) ++len`. -/
def strlen (char : Nat → Byte) : Nat → Nat → Option Nat
  | 0, _ => none
  | fuel + 1, k => if char k = 0 then some k else strlen char fuel (k + 1)

/-- `for (; width > 0; --width)`. -/
def padLoop (padchar : Byte) : Nat → Output → BitVec 32 → Output × BitVec 32
  | 0, o, pc => (o, pc)
  | n + 1, o, pc => padLoop padchar n (printchar o padchar) (pc + 1)

/-- `for (; *string; ++string)`. -/
def stringLoop (string : Source) : Nat → Nat → Output → BitVec 32 → Option (Output × BitVec 32)
  | 0, _, _, _ => none
  | fuel + 1, k, o, pc =>
      let c := string.char o.memory k
      if c = 0 then some (o, pc) else stringLoop string fuel (k + 1) (printchar o c) (pc + 1)

/-- The width that is left for padding. -/
def padWidth (len : Nat) (width : BitVec 32) : BitVec 32 :=
  let len := BitVec.ofNat 32 len
  if width.sle len then 0 else width - len

/-- prints. `fuel` bounds the loops over the string, which may go on for ever if it is written over
while it is read. -/
def prints (fuel : Nat) (o : Output) (string : Source) (width : BitVec 32) (pad : Pad) :
    Option (Output × BitVec 32) := do
  let positive := 0 < width.toInt
  let width ← if positive then (strlen (string.char o.memory) fuel 0).map (padWidth · width)
    else some width
  let padchar := if positive ∧ pad.zero = true then chr '0' else chr ' '
  let (o, pc) := if pad.right then (o, 0) else padLoop padchar width.toInt.toNat o 0
  let width := if pad.right then width.toInt.toNat else 0
  let (o, pc) ← stringLoop string fuel 0 o pc
  return padLoop padchar width o pc

def PRINT_BUF_LEN : Nat := 64

def digitChar (letbase : Byte) (t : Nat) : Byte :=
  if 10 ≤ t then BitVec.ofNat 8 t + letbase - 10 else BitVec.ofNat 8 t + chr '0'

/-- `while (u)`, with the room that is left in print_buf. -/
def digitLoop (b : Nat) (letbase : Byte) : Nat → Nat → List Byte → List Byte
  | 0, _, s => s
  | room + 1, u, s =>
      if u = 0 then s else digitLoop b letbase room (u / b) (digitChar letbase (u % b) :: s)

def printi (fuel : Nat) (o : Output) (i : BitVec 64) (b : Nat) (sg : Bool) (width : BitVec 32) (pad : Pad)
    (letbase : Byte) : Option (Output × BitVec 32) :=
  if i = 0 then prints fuel o (.buffer [chr '0']) width pad
  else
    let neg := sg = true ∧ b = 10 ∧ i.toInt < 0
    let u := if neg then -i else i
    let s := digitLoop b letbase (PRINT_BUF_LEN - 1) u.toNat []
    if neg then
      if width ≠ 0 ∧ pad.zero = true then
        (prints fuel (printchar o (chr '-')) (.buffer s) (width - 1) pad).map fun (o, k) => (o, 1 + k)
      else prints fuel o (.buffer (chr '-' :: s)) width pad
    else prints fuel o (.buffer s) width pad

/-- `while (*format == '0') pad |= PAD_ZERO`. -/
def takeZeros : List Byte → Bool × List Byte
  | [] => (false, [])
  | c :: cs => if c = chr '0' then (true, (takeZeros cs).2) else (false, c :: cs)

def takeWidth : BitVec 32 → List Byte → BitVec 32 × List Byte
  | width, [] => (width, [])
  | width, c :: cs =>
      if chr '0' ≤ c ∧ c ≤ chr '9' then takeWidth (width * 10 + (c - chr '0').setWidth 32) cs
      else (width, c :: cs)

/-- What the loop of print finds next. A conversion that the end of the format cuts off lets it read
on behind the end. -/
inductive Scan where
  | stop
  | cut
  | char (c : Byte) (rest : List Byte)
  | conversion (pad : Pad) (width : BitVec 32) (c : Byte) (rest : List Byte)

/-- The format up to its NUL. -/
def scan : List Byte → Scan
  | [] => .stop
  | c :: cs =>
      if c = 0 then .stop
      else if c ≠ chr '%' then .char c cs
      else
        match cs with
        | [] => .stop
        | d :: ds =>
            if d = 0 then .stop
            else if d = chr '%' then .char d ds
            else
              let right := d = chr '-'
              let (zero, cs) := takeZeros (if right then ds else d :: ds)
              let (width, cs) := takeWidth 0 cs
              match cs with
              | [] => .cut
              | conv :: rest => if conv = 0 then .cut else .conversion ⟨right, zero⟩ width conv rest

/-- The conversions that take an argument. Others print nothing. -/
def takesArgument (c : Byte) : Bool :=
  c ∈ [chr 's', chr 'd', chr 'x', chr 'X', chr 'u', chr 'p', chr 'c']

/-- `*(int*)(varg++)`, widened to intptr_t. -/
def intArgument (arg : BitVec 64) : BitVec 64 := (arg.setWidth 32).signExtend 64

def nullText : List Byte := [chr '(', chr 'n', chr 'u', chr 'l', chr 'l', chr ')']

/-- One conversion; `c` is one of those of `takesArgument`. -/
def printConversion (fuel : Nat) (o : Output) (pad : Pad) (width : BitVec 32) (c : Byte) (arg : BitVec 64) :
    Option (Output × BitVec 32) :=
  if c = chr 's' then prints fuel o (if arg = 0 then .buffer nullText else .at arg.toNat) width pad
  else if c = chr 'd' then printi fuel o (intArgument arg) 10 true width pad (chr 'a')
  else if c = chr 'x' then printi fuel o (intArgument arg) 16 false width pad (chr 'a')
  else if c = chr 'X' then printi fuel o (intArgument arg) 16 false width pad (chr 'A')
  else if c = chr 'u' then printi fuel o (intArgument arg) 10 false width pad (chr 'a')
  else if c = chr 'p' then
    let o := printchar (printchar o (chr '0')) (chr 'x')
    (printi fuel o arg 16 false 16 ⟨false, true⟩ (chr 'A')).map fun (o, k) => (o, 2 + k)
  else prints fuel o (.buffer [arg.setWidth 8]) width pad

/-- The loop of print over the format. -/
def printLoop (fuel : Nat) :
    Nat → Output → List Byte → (Nat → BitVec 64) → BitVec 32 → Option (Output × BitVec 32)
  | 0, _, _, _, _ => none
  | steps + 1, o, format, varg, pc =>
      match scan format with
      | .stop => some (o.terminate, pc)
      | .cut => none
      | .char c rest => printLoop fuel steps (printchar o c) rest varg (pc + 1)
      | .conversion pad width c rest =>
          if takesArgument c then do
            let (o, k) ← printConversion fuel o pad width c (varg 0)
            printLoop fuel steps o rest (fun n => varg (n + 1)) (pc + k)
          else printLoop fuel steps o rest varg pc

/-- print. Each step of the loop takes a character of the format at least. -/
def print (fuel : Nat) (o : Output) (format : List Byte) (varg : Nat → BitVec 64) :
    Option (Output × BitVec 32) :=
  printLoop fuel (format.length + 1) o format varg 0

end LMalz.Errput
