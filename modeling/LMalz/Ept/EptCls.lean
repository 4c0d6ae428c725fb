import LMalz.Ept.Tables

/- The class EPT_CLS: copies of the constant table whose pages are copied when written. -/
namespace LMalz.Ept

/-- An EPT_CLS object: ept_pml4, eptp_v and, unless it is null, `clone`. None of these change
after construction. -/
inductive EptCls where
  | root (eptPml4 : Frame) (eptpV : BitVec 64)
  | cloneOf (eptPml4 : Frame) (eptpV : BitVec 64) (clone : EptCls)
  deriving DecidableEq

namespace EptCls

def eptPml4 : EptCls → Frame
  | root p _ => p
  | cloneOf p _ _ => p

def eptpV : EptCls → BitVec 64
  | root _ v => v
  | cloneOf _ v _ => v

/-- ept_pml4 of the objects that the loop of need_remap visits, const_ept last. -/
def sources (constEpt : Frame) : EptCls → List Frame
  | root _ _ => [constEpt]
  | cloneOf _ _ c => c.eptPml4 :: c.sources constEpt

end EptCls

/-- need_remap against one object: the first layer at which both point to the same table,
and the entry there. -/
def needRemapOf (m : Memory) (this target : Frame) (gpa : BitVec 64) : Nat × Entry :=
  let cur := alVmxEptGetPageTableInfo m gpa 1 this
  let cons := alVmxEptGetPageTableInfo m gpa 1 target
  if pageFrameNumber cur = pageFrameNumber cons then (1, cur)
  else
    let cur := alVmxEptGetPageTableInfo m gpa 2 this
    let cons := alVmxEptGetPageTableInfo m gpa 2 target
    if pageFrameNumber cur = pageFrameNumber cons then (2, cur)
    else
      let cur := alVmxEptGetPageTableInfo m gpa 3 this
      let cons := alVmxEptGetPageTableInfo m gpa 3 target
      if largePage cons ∨ largePage cur then (0, 0)
      else if pageFrameNumber cur = pageFrameNumber cons then (3, cur)
      else (0, 0)

/-- The loop of need_remap over the objects behind `clone`. -/
def needRemapLoop (m : Memory) (this : Frame) (gpa : BitVec 64) : List Frame → Nat × Entry
  | [] => (0, 0)
  | target :: rest =>
      let (ret, ptV) := needRemapOf m this target gpa
      if ret ≠ 0 then (ret, ptV) else needRemapLoop m this gpa rest

def needRemap (s : Machine) (this : EptCls) (gpa : BitVec 64) : Nat × Entry :=
  needRemapLoop s.mem this.eptPml4 gpa (this.sources s.constEpt)

def getPte (s : Machine) (this : EptCls) (gpa : BitVec 64) : Entry :=
  alVmxEptGetPageTableInfo s.mem gpa 4 this.eptPml4

section Class
variable (P : Platform)

/-- clone_page_table: a copy of the table that the entry at the layer points to. -/
def clonePageTable (gpa : BitVec 64) (layerNumber : Nat) (ept : Frame) (s : Machine) :
    Outcome (Entry × Machine) :=
  if layerNumber < 1 ∨ 3 < layerNumber then .ok (0, s)
  else do
    let (newPgTb, s) ← allocatePage P s
    let te := alVmxEptGetPageTableInfo s.mem gpa layerNumber ept
    if layerNumber = 3 ∧ largePage te then return (0, s)
    if newPgTb = 0 then return (0, s)
    return (setPageFrameNumber te newPgTb, s.fill newPgTb (s.mem (pageFrameNumber te)))

/-- set_pte(GPA, pte). The branches for the layers 1, 2 and 3 are the same on pml4e, pdpte and
pde: the copied table takes the access of the entry, the entry allows everything. -/
def setPte : Nat → EptCls → BitVec 64 → Entry → Machine → Outcome (Bool × Machine)
  | 0, _, _, _, _ => .outOfFuel
  | fuel + 1, this, gpa, pte, s =>
      let (nP, ptV) := needRemap s this gpa
      if nP = 0 then alVmxEptSetPte P fuel gpa pte this.eptPml4 s
      else do
        let (te, s) ← clonePageTable P gpa nP this.eptPml4 s
        let ptV := setPageFrameNumber ptV (pageFrameNumber te)
        let tb := pageFrameNumber ptV
        let s := s.fill tb fun i => setAccess (s.mem tb i) (access ptV)
        let (_, s) := alVmxEptSetPageTableInfo gpa nP (setAccess ptV .full) this.eptPml4 s
        setPte fuel this gpa pte s

/-- set_pte(GPA, r, w, x). -/
def setPteAccess (fuel : Nat) (this : EptCls) (gpa : BitVec 64) (a : Access) (s : Machine) :
    Outcome (Bool × Machine) :=
  let pte := getPte s this gpa
  if pte = 0 then
    let pte := setPageFrameNumber pte (BitField.get gpa 12 36)
    let pte := setMemoryType pte (alHvMmGetMemoryType s gpa 0x1000)
    setPte P fuel this gpa (setAccess pte a) s.latch
  else setPte P fuel this gpa (setAccess pte a) s

/-- EPT_CLS(EPT_CLS* clone): a copy of the top table of `clone`, or of const_ept. -/
def newClone (clone : Option EptCls) (s : Machine) : Outcome (EptCls × Machine) :=
  let make (p : Frame) (v : BitVec 64) : EptCls :=
    match clone with
    | none => .root p v
    | some c => .cloneOf p v c
  if s.constEptp = 0 then .ok (make 0 0, s)
  else do
    let target := match clone with
      | none => s.constEpt
      | some c => c.eptPml4
    let (newT, s) ← allocatePage P s
    let s := s.fill newT (s.mem target)
    return (make newT (BitField.set s.constEptp 12 newT), s)

/-- EPT_CLS(R, W, X): the table below the first entry is copied too and given the access.
Without const_ept the constructor writes through a null pointer. -/
def newView (a : Access) (s : Machine) : Outcome (EptCls × Machine) := do
  let (this, s) ← newClone P none s
  let pml4e := alVmxEptGetPageTableInfo s.mem 0 1 s.constEpt
  let (pdpt, s) ← allocatePage P s
  let s := s.fill pdpt fun i => setAccess (s.mem (pageFrameNumber pml4e) i) a
  if this.eptPml4 = 0 then .killed
  else
    return (this, s.store this.eptPml4 0 (setPageFrameNumber (s.mem this.eptPml4 0) pdpt))

end Class

end LMalz.Ept
