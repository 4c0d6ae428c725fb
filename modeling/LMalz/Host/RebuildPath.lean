import LMalz.Ept.Edits
import LMalz.Host.PageTables

/- ALhvMMrebuildPath of hvmem.cpp: the tables on the way to one address are copied, and the copies
are hung into the new tables. -/
namespace LMalz.Host
open Ept (Entry Frame Index Machine Platform Outcome allocatePage largePage pageFrameNumber
  setPageFrameNumber pml4Index pdptIndex pdIndex ptIndex)
open Function (update)

section Setters
variable (pageTable : Frame) (vadd : BitVec 64) (v : Entry) (s : Machine)

def alHvMmSetPdpte : Bool × Machine :=
  let pml4e := alHvMmGetPml4e s.mem pageTable vadd
  if present pml4e = false then (false, s)
  else (true, s.store (pageFrameNumber pml4e) (pdptIndex vadd) v)

def alHvMmSetPde : Bool × Machine :=
  let pdpte := alHvMmGetPdpte s.mem pageTable vadd
  if present pdpte = false then (false, s)
  else (true, s.store (pageFrameNumber pdpte) (pdIndex vadd) v)

def alHvMmSetPte : Bool × Machine :=
  let pde := alHvMmGetPde s.mem pageTable vadd
  if present pde = false then (false, s)
  else (true, s.store (pageFrameNumber pde) (ptIndex vadd) v)

end Setters

section Rebuild
variable (P : Platform)

/-- The copy of a table, where old and new share it; none is the null pointer. -/
def copyShared (old new : Frame) (s : Machine) : Outcome (Option Frame × Machine) :=
  if new = old then do
    let (page, s) ← allocatePage P s
    return (some page, s.fill page (s.mem new))
  else .ok (none, s)

/-- The part on the pde: false is a return of 0. -/
def copyPt (vadd : BitVec 64) (pdeOld pde : Entry) (s : Machine) :
    Outcome (Bool × Option Frame × Machine) :=
  if largePage pde then .ok (true, none, s)
  else if largePage pdeOld then .ok (false, none, s)
  else do
    let (ptNew, s) ← copyShared P (pageFrameNumber pdeOld) (pageFrameNumber pde) s
    match ptNew with
    | some pt => return (present (s.mem pt (ptIndex vadd)), ptNew, s)
    | none => return (true, none, s)

/-- The end of ALhvMMrebuildPath. -/
def relink (pageTable : Frame) (vadd : BitVec 64) (pde pdpte : Entry)
    (ptNew pdtNew pdptNew : Option Frame) (s : Machine) : Machine :=
  let s := match ptNew with
    | some pt => (alHvMmSetPde pageTable vadd (setPageFrameNumber pde pt) s).2
    | none => s
  let s := match pdtNew with
    | some pdt => (alHvMmSetPdpte pageTable vadd (setPageFrameNumber pdpte pdt) s).2
    | none => s
  match pdptNew with
  | some pdpt => s.store pageTable (pml4Index vadd)
      (setPageFrameNumber (s.mem pageTable (pml4Index vadd)) pdpt)
  | none => s

/-- ALhvMMrebuildPath(page_table_old, page_table, vadd). -/
def alHvMmRebuildPath (pageTableOld pageTable : Frame) (vadd : BitVec 64) (s : Machine) :
    Outcome (Bool × Machine) :=
  let pml4e := s.mem pageTable (pml4Index vadd)
  let pml4eOld := s.mem pageTableOld (pml4Index vadd)
  if present pml4e = false ∨ present pml4eOld = false then .ok (false, s)
  else do
    let (pdptNew, s) ← copyShared P (pageFrameNumber pml4eOld) (pageFrameNumber pml4e) s
    let pdpteOld := alHvMmGetPdpte s.mem pageTableOld vadd
    let pdpte := alHvMmGetPdpte s.mem pageTable vadd
    if present pdpteOld = false ∨ present pdpte = false then return (false, s)
    let (pdtNew, s) ← copyShared P (pageFrameNumber pdpteOld) (pageFrameNumber pdpte) s
    let pdeOld := alHvMmGetPde s.mem pageTableOld vadd
    let pde := alHvMmGetPde s.mem pageTable vadd
    if present pdeOld = false ∨ present pde = false then return (false, s)
    let (done, ptNew, s) ← copyPt P vadd pdeOld pde s
    if done = false then return (false, s)
    return (true, relink pageTable vadd pde pdpte ptNew pdtNew pdptNew s)

end Rebuild

end LMalz.Host
