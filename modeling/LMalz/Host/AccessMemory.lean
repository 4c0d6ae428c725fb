import LMalz.Host.SetAllPa
import LMalz.Lib.ByteCopy
import LMalz.Monitor.SetTarget
import LMalz.Send.CopyData

/- ALhvMMreadVAfromPM and ALhvMMwriteVAfromPM of hvmem.cpp, in host mode. -/
namespace LMalz.Host
open Ept (Entry Frame Index largePage pageFrameNumber pml4Index pdptIndex pdIndex ptIndex)
open Monitor (pagesBefore)
open ByteCopy (copy moveUnits Apart)

/-- Physical memory by bytes. -/
abbrev ByteMemory := BitVec 64 → BitVec 8

/-- The address of byte `b` of entry `a` of a table. -/
def wordByte (f : Frame) (a : Index) (b : Nat) : BitVec 64 :=
  (f.setWidth 64 <<< 12) + BitVec.ofNat 64 (8 * a.toNat + b)

/-- The same memory by frames and 8-byte words. -/
def words (m : ByteMemory) : Memory := fun f a =>
  (m (wordByte f a 7) ++ m (wordByte f a 6) ++ m (wordByte f a 5) ++ m (wordByte f a 4) ++
    m (wordByte f a 3) ++ m (wordByte f a 2) ++ m (wordByte f a 1) ++ m (wordByte f a 0) : BitVec 64)

/-- The address space of the host: hvMMpMemBase, and where its tables send an address. Below 64GB
physical memory stands behind hvMMpMemBase. -/
structure HostSpace where
  memBase : BitVec 64
  translate : BitVec 64 → BitVec 64
  mapped : memBase ≠ 0
  window : ∀ pa, pa.toNat < 2^36 → translate (memBase + pa) = pa

/-- What ALhvMMsetAllPA leaves behind is such a space. -/
def AddsWindow.space {P : Ept.Platform} {k : Nat} {pageTable : Frame} {s t : State} {z : Index}
    (h : AddsWindow P k pageTable s z t) : HostSpace where
  memBase := t.memBase
  translate va := ((walk t.machine.mem pageTable va).map Translation.pa).getD 0
  mapped zero := by
    have upper := h.upper
    have base := toNat_windowBase z
    rw [windowBase_eq upper, ← h.base, zero, BitVec.ofNat_eq_ofNat, BitVec.toNat_ofNat,
      Nat.zero_mod] at base
    omega
  window pa small := by
    have low : Ept.Below512G pa := Nat.lt_trans small (by decide)
    rw [h.base, h.window pa low, if_pos small]
    rfl

section Access
variable (h : HostSpace)

/-- The `k`-th byte behind an address of the host. -/
def HostSpace.byte (add : BitVec 64) (k : Nat) : BitVec 64 := h.translate (add + BitVec.ofNat 64 k)

/-- The units of ALhvMMCopyData are those of ALmemCopyData. -/
def alHvMmCopyData (desAdd souAdd size : BitVec 64) (m : ByteMemory) : ByteMemory :=
  moveUnits (h.byte desAdd) (h.byte souAdd) (Send.copyUnits size.toNat) m

/-- ALhvMMaccessPhysicalMemory in host mode. -/
def alHvMmAccessPhysicalMemory (physicalAddress bufferAddress size : BitVec 64) (isWrite : Bool)
    (m : ByteMemory) : Bool × ByteMemory :=
  if h.memBase ≠ 0 then
    if isWrite then (true, alHvMmCopyData h (h.memBase + physicalAddress) bufferAddress size m)
    else (true, alHvMmCopyData h bufferAddress (h.memBase + physicalAddress) size m)
  else (false, m)

variable (buff : BitVec 64) (cr3 : BitVec 64) (isWrite : Bool)

/-- The loop of ALhvMMaccessMemoryFromPM over the pages in the middle; it ends with buffOffset. -/
def accessMiddlePages : List (BitVec 64) → BitVec 64 → ByteMemory → Bool × BitVec 64 × ByteMemory
  | [], buffOffset, m => (true, buffOffset, m)
  | cur :: rest, buffOffset, m =>
      let pa := alHvMmGetPa (words m) cur cr3
      if pa = 0 then (false, buffOffset, m)
      else
        let (ret, m) := alHvMmAccessPhysicalMemory h pa (buff + buffOffset) 0x1000 isWrite m
        if ret = false then (false, buffOffset, m)
        else accessMiddlePages rest (buffOffset + 0x1000) m

def alHvMmAccessMemoryFromPm (va size : BitVec 64) (m : ByteMemory) : Bool × ByteMemory :=
  if size = 0 then (true, m)
  else
    let va64 := va &&& ~~~0xfff
    let vaOff := va &&& 0xfff
    let stop := va + size
    let stop64 := stop &&& ~~~0xfff
    let stopOff := stop &&& 0xfff
    if vaOff + size ≤ 0x1000 then
      let pa := alHvMmGetPa (words m) va64 cr3
      if pa = 0 then (false, m)
      else alHvMmAccessPhysicalMemory h (pa + vaOff) buff size isWrite m
    else
      let firstPa := alHvMmGetPa (words m) va64 cr3
      if firstPa = 0 then (false, m)
      else
        let firstSize := 0x1000 - vaOff
        let (ret, m) := alHvMmAccessPhysicalMemory h (firstPa + vaOff) buff firstSize isWrite m
        if ret = false then (false, m)
        else
          let (ret, buffOffset, m) :=
            accessMiddlePages h buff cr3 isWrite (pagesBefore stop64 (va64 + 0x1000)) firstSize m
          if ret = false then (false, m)
          else if 0 < stopOff then
            let lastPa := alHvMmGetPa (words m) stop64 cr3
            if lastPa = 0 then (false, m)
            else
              let (ret, m) :=
                alHvMmAccessPhysicalMemory h lastPa (buff + buffOffset) stopOff isWrite m
              if ret = false then (false, m) else (true, m)
          else (true, m)

def alHvMmReadVaFromPm (va size : BitVec 64) (m : ByteMemory) : Bool × ByteMemory :=
  alHvMmAccessMemoryFromPm h buff cr3 false va size m

def alHvMmWriteVaFromPm (va size : BitVec 64) (m : ByteMemory) : Bool × ByteMemory :=
  alHvMmAccessMemoryFromPm h buff cr3 true va size m

variable {h buff cr3 isWrite} {m m' : ByteMemory}

theorem alHvMmCopyData_eq {desAdd souAdd size : BitVec 64}
    (apart : Apart (h.byte desAdd) (h.byte souAdd) size.toNat) :
    alHvMmCopyData h desAdd souAdd size m = copy (h.byte desAdd) (h.byte souAdd) size.toNat m :=
  ByteCopy.moveUnits_tiles apart (Send.copyUnits_tiles size.toNat)

end Access

end LMalz.Host
