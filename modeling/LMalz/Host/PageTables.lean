import LMalz.Ept.Entry

/- The page tables of the host and of the system: the getters and ALhvMMgetPA of hvmem.cpp, beside
the walk of the processor. -/
namespace LMalz.Host
open Ept (Entry Frame Index flag largePage pageFrameNumber pageFrameNumber2mb pml4Index pdptIndex
  pdIndex ptIndex)

/-- Physical memory by frames and 8-byte words. A read of a table page, through the window of the
host or through its own address, is a read of this memory. -/
abbrev Memory := Frame → Index → Entry

def present (e : Entry) : Bool := flag e 0
def write (e : Entry) : Bool := flag e 1

/-- page_frame_number of a pdpte_1gb_64. -/
def pageFrameNumber1gb (e : Entry) : BitVec 18 := BitField.get e 30 18

def addressOfPageDirectory (cr3 : BitVec 64) : Frame := BitField.get cr3 12 36

section Getters
variable (m : Memory) (pageTable : Frame) (vadd : BitVec 64)

def alHvMmGetPml4e : Entry := m pageTable (pml4Index vadd)

def alHvMmGetPdpte : Entry :=
  let pml4e := alHvMmGetPml4e m pageTable vadd
  if present pml4e = false then 0 else m (pageFrameNumber pml4e) (pdptIndex vadd)

def alHvMmGetPde : Entry :=
  let pdpte := alHvMmGetPdpte m pageTable vadd
  if present pdpte = false then 0 else m (pageFrameNumber pdpte) (pdIndex vadd)

def alHvMmGetPte : Entry :=
  let pde := alHvMmGetPde m pageTable vadd
  if present pde = false then 0 else m (pageFrameNumber pde) (ptIndex vadd)

variable {m pageTable vadd}

theorem getPdpte_absent (absent : present (m pageTable (pml4Index vadd)) = false) :
    alHvMmGetPdpte m pageTable vadd = 0 := if_pos absent

theorem getPdpte_present (here : present (m pageTable (pml4Index vadd)) = true) :
    alHvMmGetPdpte m pageTable vadd =
      m (pageFrameNumber (m pageTable (pml4Index vadd))) (pdptIndex vadd) :=
  if_neg (by simpa [alHvMmGetPml4e] using here)

theorem getPde_absent (absent : present (alHvMmGetPdpte m pageTable vadd) = false) :
    alHvMmGetPde m pageTable vadd = 0 := if_pos absent

theorem getPde_present (here : present (alHvMmGetPdpte m pageTable vadd) = true) :
    alHvMmGetPde m pageTable vadd =
      m (pageFrameNumber (alHvMmGetPdpte m pageTable vadd)) (pdIndex vadd) :=
  if_neg (by simpa using here)

end Getters

/-- ALhvMMgetPA(add, cr3_) in host mode. -/
def alHvMmGetPa (m : Memory) (add cr3 : BitVec 64) : BitVec 64 :=
  let table := addressOfPageDirectory cr3
  let pde := alHvMmGetPde m table add
  if present pde = false then 0
  else if largePage pde then
    ((pageFrameNumber2mb pde).setWidth 64 <<< 21) + (add &&& 0x1fffff)
  else
    let pte := alHvMmGetPte m table add
    if present pte = false then 0
    else ((pageFrameNumber pte).setWidth 64 <<< 12) + (add &&& 0xfff)

/-- Where the walk of the processor ends: the physical address, and whether every level allows
writes. -/
structure Translation where
  pa : BitVec 64
  write : Bool
  deriving DecidableEq

/-- The byte at the offset of a page of 2^k bytes. -/
def inPage {n k : Nat} (frame : BitVec n) (offset : BitVec k) : BitVec 64 :=
  (frame ++ offset).setWidth 64

/-- The walk of the processor with four levels, of a canonical address. -/
def walk (m : Memory) (table : Frame) (va : BitVec 64) : Option Translation :=
  let pml4e := m table (pml4Index va)
  if present pml4e = false then none
  else
    let pdpte := m (pageFrameNumber pml4e) (pdptIndex va)
    if present pdpte = false then none
    else if largePage pdpte then
      some ⟨inPage (pageFrameNumber1gb pdpte) (BitField.get va 0 30 : BitVec 30),
        write pml4e && write pdpte⟩
    else
      let pde := m (pageFrameNumber pdpte) (pdIndex va)
      if present pde = false then none
      else if largePage pde then
        some ⟨inPage (pageFrameNumber2mb pde) (BitField.get va 0 21 : BitVec 21),
          write pml4e && write pdpte && write pde⟩
      else
        let pte := m (pageFrameNumber pde) (ptIndex va)
        if present pte = false then none
        else
          some ⟨inPage (pageFrameNumber pte) (BitField.get va 0 12 : BitVec 12),
            write pml4e && write pdpte && write pde && write pte⟩

/-- ALhvMMgetPA returns what the walk finds, and 0 when it finds an entry that is not present. -/
def AgreesWithWalk (m : Memory) (va cr3 : BitVec 64) : Prop :=
  alHvMmGetPa m va cr3 =
    ((walk m (addressOfPageDirectory cr3) va).map Translation.pa).getD 0

theorem toNat_inPage {n k : Nat} (frame : BitVec n) (offset : BitVec k) (fits : n + k ≤ 64) :
    (inPage frame offset).toNat = frame.toNat * 2^k + offset.toNat := by
  have whole : (frame ++ offset).toNat = frame.toNat * 2^k + offset.toNat := by
    rw [BitVec.toNat_append, ← Nat.shiftLeft_add_eq_or_of_lt offset.isLt, Nat.shiftLeft_eq]
  rw [inPage, BitVec.toNat_setWidth, whole, ← whole]
  exact Nat.mod_eq_of_lt (Nat.lt_of_lt_of_le (frame ++ offset).isLt (Nat.pow_le_pow_right (by omega) fits))

theorem inPage_eq {n k : Nat} (frame : BitVec n) (va mask : BitVec 64) (fits : n + k ≤ 64)
    (low : mask.toNat = 2^k - 1) :
    (frame.setWidth 64 <<< k) + (va &&& mask) = inPage frame (BitField.get va 0 k : BitVec k) := by
  apply BitVec.eq_of_toNat_eq
  have bound : frame.toNat * 2^k + va.toNat % 2^k < 2^64 := by
    have same := toNat_inPage frame (BitField.get va 0 k : BitVec k) fits
    have lt := (inPage frame (BitField.get va 0 k : BitVec k)).isLt
    rw [same, BitField.toNat_get, Nat.pow_zero, Nat.div_one] at lt
    exact lt
  have small : frame.toNat < 2^64 :=
    Nat.lt_of_lt_of_le frame.isLt (Nat.pow_le_pow_right (by omega) (by omega))
  rw [toNat_inPage frame _ fits, BitVec.toNat_add, BitVec.toNat_shiftLeft, BitVec.toNat_and, low,
    Nat.and_two_pow_sub_one_eq_mod, BitField.toNat_get, Nat.pow_zero, Nat.div_one,
    BitVec.toNat_setWidth, Nat.mod_eq_of_lt small, Nat.shiftLeft_eq,
    Nat.mod_eq_of_lt (show frame.toNat * 2^k < 2^64 by omega), Nat.mod_eq_of_lt bound]

/-- The walk ends at a 1GB page. -/
def GbPage (m : Memory) (table : Frame) (va : BitVec 64) : Prop :=
  let pml4e := m table (pml4Index va)
  let pdpte := m (pageFrameNumber pml4e) (pdptIndex va)
  present pml4e = true ∧ present pdpte = true ∧ largePage pdpte = true

/-- The words of a 1GB page that are taken for a pde, and perhaps for a pte, happen to lead to
the right place. -/
def MapsItself (m : Memory) (va cr3 : BitVec 64) : Prop :=
  let pdpte := m (pageFrameNumber (m (addressOfPageDirectory cr3) (pml4Index va))) (pdptIndex va)
  let right := inPage (pageFrameNumber1gb pdpte) (BitField.get va 0 30 : BitVec 30)
  let pde := m (pageFrameNumber pdpte) (pdIndex va)
  let pte := m (pageFrameNumber pde) (ptIndex va)
  if present pde = false then right = 0
  else if largePage pde then
    right = inPage (pageFrameNumber2mb pde) (BitField.get va 0 21 : BitVec 21)
  else if present pte = false then right = 0
  else right = inPage (pageFrameNumber pte) (BitField.get va 0 12 : BitVec 12)

section Agreement
variable {m : Memory} {va cr3 : BitVec 64}

@[simp] theorem present_zero : present 0#64 = false := rfl

/-- ALhvMMgetPA knows pages of 4KB and of 2MB. -/
theorem getPa_agrees_iff (m : Memory) (va cr3 : BitVec 64) :
    AgreesWithWalk m va cr3 ↔ ¬ GbPage m (addressOfPageDirectory cr3) va ∨ MapsItself m va cr3 := by
  have mb (pde : Entry) : ((pageFrameNumber2mb pde).setWidth 64 <<< 21) + (va &&& 0x1fffff) =
      inPage (pageFrameNumber2mb pde) (BitField.get va 0 21 : BitVec 21) :=
    inPage_eq _ _ _ (by omega) (by decide)
  have kb (pte : Entry) : ((pageFrameNumber pte).setWidth 64 <<< 12) + (va &&& 0xfff) =
      inPage (pageFrameNumber pte) (BitField.get va 0 12 : BitVec 12) :=
    inPage_eq _ _ _ (by omega) (by decide)
  obtain ⟨pml4e, atPml4e⟩ : ∃ e, m (addressOfPageDirectory cr3) (pml4Index va) = e := ⟨_, rfl⟩
  obtain ⟨pdpte, atPdpte⟩ : ∃ e, m (pageFrameNumber pml4e) (pdptIndex va) = e := ⟨_, rfl⟩
  obtain ⟨pde, atPde⟩ : ∃ e, m (pageFrameNumber pdpte) (pdIndex va) = e := ⟨_, rfl⟩
  obtain ⟨pte, atPte⟩ : ∃ e, m (pageFrameNumber pde) (ptIndex va) = e := ⟨_, rfl⟩
  simp only [AgreesWithWalk, alHvMmGetPa, alHvMmGetPte, alHvMmGetPde, alHvMmGetPdpte,
    alHvMmGetPml4e, walk, GbPage, MapsItself, mb, kb, atPml4e, atPdpte, atPde, atPte]
  rcases pml4ePresent : present pml4e
  · simp
  rcases pdptePresent : present pdpte
  · simp [pdptePresent]
  rcases gb : largePage pdpte
  · rcases pdePresent : present pde
    · simp [atPde, pdptePresent, pdePresent]
    rcases large : largePage pde
    · rcases ptePresent : present pte <;>
        simp [atPde, atPte, pdptePresent, pdePresent, large, ptePresent]
    · simp [atPde, pdptePresent, pdePresent, large]
  · rcases pdePresent : present pde
    · simp [atPde, pdptePresent, pdePresent, eq_comm]
    rcases large : largePage pde
    · rcases ptePresent : present pte <;>
        simp [atPde, atPte, pdptePresent, pdePresent, large, ptePresent, eq_comm]
    · simp [atPde, pdptePresent, pdePresent, large, eq_comm]

/-- A pdpte with a page of 1GB at the frame 1 stands behind the first pml4e; nothing else is
mapped. -/
def gbMemory : Memory := fun frame index =>
  if frame = 0 ∧ index = 0 then 0x1003
  else if frame = 1 ∧ index = 0 then 0x40000083
  else 0

/-- The walk maps the address 0 to 1GB, and ALhvMMgetPA returns 0. -/
theorem getPa_misses_gb :
    walk gbMemory 0 0 = some ⟨0x40000000, true⟩ ∧ alHvMmGetPa gbMemory 0 0 = 0 ∧
      ¬ AgreesWithWalk gbMemory 0 0 := by
  refine ⟨by decide, by decide, ?_⟩
  unfold AgreesWithWalk
  decide

end Agreement

end LMalz.Host
