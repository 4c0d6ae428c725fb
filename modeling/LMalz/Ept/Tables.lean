import LMalz.Ept.Entry
import LMalz.Mtrr.MemoryType
import LMalz.Pool.Allocator

/- Building and editing extended page tables: ept.cpp. -/
namespace LMalz.Ept
open Function (update)
open Mtrr (Msrs MtrrData)

/-- Number of pages in the memory pool. -/
def poolPages : Nat := 2560

/-- The page frames of the memory pool. Lookups between physical and virtual addresses of
these pages are exact, so a pointer to a table is the frame of its page; frame 0 is null. -/
structure Platform where
  page : Nat → Frame
  distinct : ∀ j k, j < poolPages → k < poolPages → page j = page k → j = k
  nonzero : ∀ k, k < poolPages → page k ≠ 0

theorem Platform.page_ne (P : Platform) {i j : Nat} (hi : i < poolPages) (hj : j < poolPages)
    (ne : i ≠ j) : P.page i ≠ P.page j :=
  fun same => ne (P.distinct i j hi hj same)

abbrev Memory := Frame → Index → Entry

/-- Table memory, pool counters, MSRs, the static `mtrrs` of ALhvMMgetMemoryType once it is
initialised, and EPT_CLS::const_ept and const_eptp_value. -/
structure Machine where
  mem : Memory
  limits : Pool.Limits
  msrs : Msrs
  mtrrs : Option MtrrData
  constEpt : Frame
  constEptp : BitVec 64

/-- `killed` is ALhvKill, which does not return; `outOfFuel` bounds the recursion. -/
inductive Outcome (α : Type) where
  | outOfFuel
  | killed
  | ok (a : α)

namespace Outcome

def bind {α β : Type} (x : Outcome α) (f : α → Outcome β) : Outcome β :=
  match x with
  | .outOfFuel => .outOfFuel
  | .killed => .killed
  | .ok a => f a

instance : Monad Outcome where
  pure := .ok
  bind := bind

@[simp] theorem ok_bind {α β : Type} (a : α) (f : α → Outcome β) : (Outcome.ok a >>= f) = f a := rfl

@[simp] theorem killed_bind {α β : Type} (f : α → Outcome β) : (Outcome.killed >>= f) = .killed := rfl

/-- What runs to its end ran its first part to its end. -/
theorem of_bind {α β : Type} {x : Outcome α} {f : α → Outcome β} {b : β} (done : (x >>= f) = .ok b) :
    ∃ a, x = .ok a ∧ f a = .ok b := by
  cases x with
  | outOfFuel => cases done
  | killed => cases done
  | ok a => exact ⟨a, rfl, done⟩

@[simp] theorem pure_eq {α : Type} (a : α) : (pure a : Outcome α) = .ok a := rfl

end Outcome

namespace Machine

def store (s : Machine) (f : Frame) (a : Index) (e : Entry) : Machine :=
  { s with mem := update s.mem f (update (s.mem f) a e) }

def fill (s : Machine) (f : Frame) (page : Index → Entry) : Machine :=
  { s with mem := update s.mem f page }

def mtrrData (s : Machine) : MtrrData := s.mtrrs.getD (Mtrr.readMtrrData s.msrs)

/-- The static of ALhvMMgetMemoryType has been initialised. -/
def latch (s : Machine) : Machine := { s with mtrrs := some s.mtrrData }

end Machine

/-- ALhvMMgetMemoryType(address, size, 0), as assigned to a field memory_type. -/
def alHvMmGetMemoryType (s : Machine) (address size : BitVec 64) : BitVec 3 :=
  (Mtrr.calcMtrrMemType s.mtrrData address size).setWidth 3

/-- The entry consulted at a layer: 1 pml4e, 2 pdpte, 3 pde, 4 pte. -/
def alVmxEptPageTableInfo (m : Memory) (gpa : BitVec 64) (layerNumber : Nat) (ept : Frame) :
    Option (Frame × Index) :=
  if 4 < layerNumber ∨ layerNumber < 1 then none
  else if ept = 0 then none
  else
    let pml4e := m ept (pml4Index gpa)
    if pageFrameNumber pml4e = 0 then none
    else if layerNumber = 1 then some (ept, pml4Index gpa)
    else
      let pdpte := m (pageFrameNumber pml4e) (pdptIndex gpa)
      if layerNumber = 2 then some (pageFrameNumber pml4e, pdptIndex gpa)
      else if pageFrameNumber pdpte = 0 then none
      else
        let pde := m (pageFrameNumber pdpte) (pdIndex gpa)
        if layerNumber = 3 then some (pageFrameNumber pdpte, pdIndex gpa)
        else if largePage pde then none
        else if pageFrameNumber pde = 0 then none
        else some (pageFrameNumber pde, ptIndex gpa)

def alVmxEptGetPageTableInfo (m : Memory) (gpa : BitVec 64) (layerNumber : Nat) (ept : Frame) :
    Entry :=
  match alVmxEptPageTableInfo m gpa layerNumber ept with
  | some (f, a) => m f a
  | none => 0

def alVmxEptSetPageTableInfo (gpa : BitVec 64) (layerNumber : Nat) (v : Entry) (ept : Frame)
    (s : Machine) : Bool × Machine :=
  match alVmxEptPageTableInfo s.mem gpa layerNumber ept with
  | some (f, a) => (true, s.store f a v)
  | none => (false, s)

section Building
variable (P : Platform)

/-- ALhvMMallocateMemory(0x1000). -/
def allocatePage (s : Machine) : Outcome (Frame × Machine) :=
  match Pool.alHvMmAllocateMemory s.limits 0x1000 with
  | some (off, lim) => .ok (P.page (off / 0x1000).toNat, { s with limits := lim })
  | none => .killed

/-- An entry that points to a table and allows everything. -/
def tableEntry (page : Frame) : Entry := setPageFrameNumber (setAccess 0 .full) page

/-- Entry `i` of the table that replaces a 2MB page. -/
def demoPte (s : Machine) (gpa : BitVec 64) (pteDemo : Entry) (old : Entry) (i : Index) : Entry :=
  setMemoryType (setPageFrameNumber (setAccess old (access pteDemo))
    (((gpa >>> 12) + i.setWidth 64).setWidth 36))
    (alHvMmGetMemoryType s (gpa + i.setWidth 64 * 0x1000) 0x1000)

def alVmxEptBuildPde (gpa : BitVec 64) (pteDemo : Entry) (s : Machine) : Outcome (Entry × Machine) := do
  let gpa := gpa &&& ~~~(0x200000 - 1)
  let (nPdePage, s) ← allocatePage P s
  if nPdePage = 0 then return (0, s)
  let s := s.latch
  let s := s.fill nPdePage fun i => demoPte s gpa pteDemo (s.mem nPdePage i) i
  return (tableEntry nPdePage, s)

/-- ALvmxEPTsetPDE; missing tables are made and the call starts again. -/
def alVmxEptSetPde : Nat → BitVec 64 → Entry → Frame → Machine → Outcome (Bool × Machine)
  | 0, _, _, _, _ => .outOfFuel
  | fuel + 1, gpa, pde, ept, s =>
      if ept = 0 then .ok (false, s)
      else
        let pdpt := pageFrameNumber (s.mem ept (pml4Index gpa))
        if pdpt ≠ 0 then
          let pd := pageFrameNumber (s.mem pdpt (pdptIndex gpa))
          if pd ≠ 0 then .ok (true, s.store pd (pdIndex gpa) pde)
          else do
            let (newPdePage, s) ← allocatePage P s
            if newPdePage = 0 then return (false, s)
            let s := s.store pdpt (pdptIndex gpa) (tableEntry newPdePage)
            alVmxEptSetPde fuel gpa pde ept s
        else do
          let (newPdptePage, s) ← allocatePage P s
          if newPdptePage = 0 then return (false, s)
          let s := s.store ept (pml4Index gpa) (tableEntry newPdptePage)
          alVmxEptSetPde fuel gpa pde ept s

/-- The end of ALvmxEPTsetPTE: the entry is stored in the table of `pde`. -/
def storePte (gpa : BitVec 64) (pte pde : Entry) (s : Machine) : Bool × Machine :=
  (true, s.store (pageFrameNumber pde) (ptIndex gpa) pte)

/-- ALvmxEPTsetPTE. A 2MB page is replaced by a table with its access, an absent pde by a
table with the access of `pte`, and the call starts again. -/
def alVmxEptSetPte : Nat → BitVec 64 → Entry → Frame → Machine → Outcome (Bool × Machine)
  | 0, _, _, _, _ => .outOfFuel
  | fuel + 1, gpa, pte, ept, s =>
      let pde := alVmxEptGetPageTableInfo s.mem gpa 3 ept
      if access pde ≠ .none then
        if largePage pde then do
          let (newPde, s) ← alVmxEptBuildPde P gpa (setAccess 0 (access pde)) s
          if newPde ≠ 0 then
            let (_, s) ← alVmxEptSetPde P fuel gpa newPde ept s
            alVmxEptSetPte fuel gpa pte ept s
          else return storePte gpa pte pde s
        else .ok (storePte gpa pte pde s)
      else do
        let (newPde, s) ← alVmxEptBuildPde P gpa pte s
        if newPde ≠ 0 then
          let (_, s) ← alVmxEptSetPde P fuel gpa newPde ept s
          alVmxEptSetPte fuel gpa pte ept s
        else return (false, s)

/-- The first loop of ALvmxEPTnewTable: 4KB entries for the first 2MB. -/
def newTablePtes (fuel : Nat) (pdeDemo : Entry) (ept : Frame) :
    List (BitVec 64) → Machine → Outcome (Bool × Machine)
  | [], s => .ok (true, s)
  | i :: is, s => do
      let pte := setPageFrameNumber (setAccess 0 (access pdeDemo)) (BitField.get i 12 36)
      let pte := setMemoryType pte (alHvMmGetMemoryType s i 0x1000)
      let (done, s) ← alVmxEptSetPte P fuel i pte ept s.latch
      if done then newTablePtes fuel pdeDemo ept is s else return (false, s)

/-- The second loop of ALvmxEPTnewTable: 2MB entries for the rest. -/
def newTablePdes (fuel : Nat) (pdeDemo : Entry) (ept : Frame) :
    List (BitVec 64) → Machine → Outcome (Bool × Machine)
  | [], s => .ok (true, s)
  | i :: is, s => do
      let pde := setLargePage (setAccess 0 (access pdeDemo)) true
      let pde := setPageFrameNumber2mb pde (BitField.get i 21 27)
      let pde := setMemoryType pde (alHvMmGetMemoryType s i 0x200000)
      let (done, s) ← alVmxEptSetPde P fuel i pde ept s.latch
      if done then newTablePdes fuel pdeDemo ept is s else return (false, s)

/-- ALvmxEPTnewTable for `size` GB; the second component is the new root. -/
def alVmxEptNewTable (fuel : Nat) (pdeDemo : Entry) (size : Nat) (s : Machine) :
    Outcome (Bool × Frame × Machine) := do
  let (ept, s) ← allocatePage P s
  let (done, s) ← newTablePtes P fuel pdeDemo ept
    ((List.range 512).map fun n => BitVec.ofNat 64 (n * 0x1000)) s
  if !done then return (false, 0, s)
  let (done, s) ← newTablePdes P fuel pdeDemo ept
    ((List.range' 1 (size * 512 - 1)).map fun n => BitVec.ofNat 64 (n * 0x200000)) s
  if !done then return (false, 0, s)
  return (true, ept, s)

def IA32_VMX_EPT_VPID_CAP : BitVec 32 := 0x48C

/-- EptCheckFeatures: execute_only_pages, page_walk_length_4, memory_type_write_back,
pde_2mb_pages and mtrr_enable. -/
def eptCheckFeatures (msrs : Msrs) : Bool :=
  let vpidRegister := msrs IA32_VMX_EPT_VPID_CAP
  let mtrrDefType := msrs Mtrr.IA32_MTRR_DEF_TYPE
  flag vpidRegister 6 && flag vpidRegister 14 && flag vpidRegister 16 && flag vpidRegister 0 &&
    Mtrr.mtrrEnable mtrrDefType

/-- const_ept_size, in GB. -/
def constEptSize : Nat := 512

def init (fuel : Nat) (s : Machine) : Outcome (Bool × Machine) :=
  if s.constEpt ≠ 0 then .ok (false, s)
  else if !eptCheckFeatures s.msrs then .ok (false, s)
  else do
    let (done, root, s) ← alVmxEptNewTable P fuel (setAccess 0 .full) constEptSize s
    if !done then return (false, s)
    let eptp := BitField.set (0 : BitVec 64) 0 (Mtrr.MEMORY_TYPE_WRITE_BACK.setWidth 3)
    let eptp := BitField.set eptp 3 (3 : BitVec 3)
    let eptp := BitField.set eptp 12 root
    return (true, { s with constEpt := root, constEptp := eptp })

end Building

theorem tableEntry_ne_zero {q : Frame} (nonzero : q ≠ 0) : tableEntry q ≠ 0 := by
  intro zero
  have frame := pageFrameNumber_setPageFrameNumber (setAccess 0 .full) q
  rw [← tableEntry, zero] at frame
  exact nonzero (frame.symm.trans pageFrameNumber_zero)

@[simp] theorem access_tableEntry (q : Frame) : access (tableEntry q) = .full := by
  rw [tableEntry, access_setPageFrameNumber, access_setAccess]

@[simp] theorem largePage_tableEntry (q : Frame) : largePage (tableEntry q) = false := by
  rw [tableEntry, largePage_setPageFrameNumber, largePage_setAccess]
  rfl

@[simp] theorem pageFrameNumber_tableEntry (q : Frame) : pageFrameNumber (tableEntry q) = q :=
  pageFrameNumber_setPageFrameNumber _ _

section Setters
variable {P : Platform} {s : Machine} {root : Frame} {gpa : BitVec 64} {pde : Entry}

theorem setPde_put (fuel : Nat) {pdpt pd : Frame} (nonzero : root ≠ 0)
    (hpdpt : pageFrameNumber (s.mem root (pml4Index gpa)) = pdpt) (hpdpt' : pdpt ≠ 0)
    (hpd : pageFrameNumber (s.mem pdpt (pdptIndex gpa)) = pd) (hpd' : pd ≠ 0) :
    alVmxEptSetPde P (fuel + 1) gpa pde root s = .ok (true, s.store pd (pdIndex gpa) pde) := by
  subst hpdpt hpd
  simp only [alVmxEptSetPde, nonzero, hpdpt', hpd', ne_eq, not_false_eq_true, if_true, if_false]

theorem setPde_newPd (fuel : Nat) {pdpt q : Frame} {s' : Machine} (nonzero : root ≠ 0)
    (hpdpt : pageFrameNumber (s.mem root (pml4Index gpa)) = pdpt) (hpdpt' : pdpt ≠ 0)
    (absent : pageFrameNumber (s.mem pdpt (pdptIndex gpa)) = 0)
    (took : allocatePage P s = .ok (q, s')) (hq : q ≠ 0) :
    alVmxEptSetPde P (fuel + 1) gpa pde root s =
      alVmxEptSetPde P fuel gpa pde root (s'.store pdpt (pdptIndex gpa) (tableEntry q)) := by
  subst hpdpt
  simp only [alVmxEptSetPde, nonzero, hpdpt', absent, took, hq, ne_eq, not_false_eq_true,
    not_true_eq_false, if_true, if_false, Outcome.ok_bind]

theorem setPde_newPdpt (fuel : Nat) {q : Frame} {s' : Machine} (nonzero : root ≠ 0)
    (absent : pageFrameNumber (s.mem root (pml4Index gpa)) = 0)
    (took : allocatePage P s = .ok (q, s')) (hq : q ≠ 0) :
    alVmxEptSetPde P (fuel + 1) gpa pde root s =
      alVmxEptSetPde P fuel gpa pde root (s'.store root (pml4Index gpa) (tableEntry q)) := by
  simp only [alVmxEptSetPde, nonzero, absent, took, hq, ne_eq, not_true_eq_false, if_false,
    Outcome.ok_bind]

end Setters

end LMalz.Ept
