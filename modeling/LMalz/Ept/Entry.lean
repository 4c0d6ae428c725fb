import LMalz.Lib.BitField

/- Entries of the extended page tables: ept_pml4e, ept_pdpte, ept_pde, ept_pde_2mb and
ept_pte are views of the same 64 bits. -/
namespace LMalz.Ept

abbrev Entry := BitVec 64
abbrev Frame := BitVec 36
abbrev Index := BitVec 9

/-- read_access, write_access and execute_access of an entry. -/
structure Access where
  read : Bool
  write : Bool
  execute : Bool
  deriving DecidableEq, Repr

namespace Access

def full : Access := ⟨true, true, true⟩
def none : Access := ⟨false, false, false⟩

/-- What two levels allow together. -/
def meet (a b : Access) : Access := ⟨a.read && b.read, a.write && b.write, a.execute && b.execute⟩

@[simp] theorem full_meet (a : Access) : full.meet a = a := rfl

@[simp] theorem meet_full (a : Access) : a.meet full = a := by
  simp [meet, full]

end Access

def flag (e : Entry) (i : Nat) : Bool := BitField.get e i 1 == 1#1
def setFlag (e : Entry) (i : Nat) (b : Bool) : Entry := BitField.set e i (BitVec.ofBool b)

def access (e : Entry) : Access := ⟨flag e 0, flag e 1, flag e 2⟩
def memoryType (e : Entry) : BitVec 3 := BitField.get e 3 3
def largePage (e : Entry) : Bool := flag e 7
def pageFrameNumber (e : Entry) : Frame := BitField.get e 12 36
/-- page_frame_number of an ept_pde_2mb. -/
def pageFrameNumber2mb (e : Entry) : BitVec 27 := BitField.get e 21 27

def setAccess (e : Entry) (a : Access) : Entry :=
  setFlag (setFlag (setFlag e 0 a.read) 1 a.write) 2 a.execute
def setMemoryType (e : Entry) (t : BitVec 3) : Entry := BitField.set e 3 t
def setLargePage (e : Entry) (b : Bool) : Entry := setFlag e 7 b
def setPageFrameNumber (e : Entry) (p : Frame) : Entry := BitField.set e 12 p
def setPageFrameNumber2mb (e : Entry) (p : BitVec 27) : Entry := BitField.set e 21 p

/-- The indices of OR_ADDRESS. -/
def pml4Index (gpa : BitVec 64) : Index := BitField.get gpa 39 9
def pdptIndex (gpa : BitVec 64) : Index := BitField.get gpa 30 9
def pdIndex (gpa : BitVec 64) : Index := BitField.get gpa 21 9
def ptIndex (gpa : BitVec 64) : Index := BitField.get gpa 12 9

section Fields
variable (e : Entry)

theorem flag_setFlag (i : Nat) (b : Bool) (fits : i + 1 ≤ 64) : flag (setFlag e i b) i = b := by
  rw [flag, setFlag, BitField.get_set _ fits]
  cases b <;> rfl

theorem flag_setFlag_apart {i j : Nat} (b : Bool) (apart : i + 1 ≤ j ∨ j + 1 ≤ i) :
    flag (setFlag e i b) j = flag e j := by
  rw [flag, setFlag, BitField.get_set_apart _ apart, flag]

theorem flag_set_apart {len lo j : Nat} (x : BitVec len) (apart : lo + len ≤ j ∨ j + 1 ≤ lo) :
    flag (BitField.set e lo x) j = flag e j := by
  rw [flag, BitField.get_set_apart _ apart, flag]

theorem get_setFlag_apart {i lo len : Nat} (b : Bool) (apart : i + 1 ≤ lo ∨ lo + len ≤ i) :
    BitField.get (setFlag e i b) lo len = BitField.get e lo len :=
  BitField.get_set_apart _ apart

@[simp] theorem access_setAccess (a : Access) : access (setAccess e a) = a := by
  simp (disch := omega) only [access, setAccess, flag_setFlag, flag_setFlag_apart]

theorem setFlag_flag (i : Nat) : setFlag e i (flag e i) = e := by
  have bit : BitVec.ofBool (flag e i) = BitField.get e i 1 := by
    rw [flag]
    rcases BitVec.eq_zero_or_eq_one (BitField.get e i 1) with zero | one
    · rw [zero]
      rfl
    · rw [one]
      rfl
  rw [setFlag, bit, BitField.set_get]

theorem setAccess_access : setAccess e (access e) = e := by
  have write : (access e).write = flag e 1 := rfl
  have execute : (access e).execute = flag e 2 := rfl
  have read : (access e).read = flag e 0 := rfl
  rw [setAccess, read, setFlag_flag, write, setFlag_flag, execute, setFlag_flag]

@[simp] theorem access_setMemoryType (t : BitVec 3) : access (setMemoryType e t) = access e := by
  simp (disch := omega) only [access, setMemoryType, flag_set_apart]

@[simp] theorem access_setLargePage (b : Bool) : access (setLargePage e b) = access e := by
  simp (disch := omega) only [access, setLargePage, flag_setFlag_apart]

@[simp] theorem access_setPageFrameNumber (p : Frame) :
    access (setPageFrameNumber e p) = access e := by
  simp (disch := omega) only [access, setPageFrameNumber, flag_set_apart]

@[simp] theorem access_setPageFrameNumber2mb (p : BitVec 27) :
    access (setPageFrameNumber2mb e p) = access e := by
  simp (disch := omega) only [access, setPageFrameNumber2mb, flag_set_apart]

@[simp] theorem memoryType_setAccess (a : Access) : memoryType (setAccess e a) = memoryType e := by
  simp (disch := omega) only [memoryType, setAccess, get_setFlag_apart]

@[simp] theorem memoryType_setMemoryType (t : BitVec 3) : memoryType (setMemoryType e t) = t :=
  BitField.get_set t (by omega)

@[simp] theorem largePage_setAccess (a : Access) : largePage (setAccess e a) = largePage e := by
  simp (disch := omega) only [largePage, setAccess, flag_setFlag_apart]

@[simp] theorem largePage_setMemoryType (t : BitVec 3) :
    largePage (setMemoryType e t) = largePage e := by
  simp (disch := omega) only [largePage, setMemoryType, flag_set_apart]

@[simp] theorem largePage_setLargePage (b : Bool) : largePage (setLargePage e b) = b :=
  flag_setFlag e 7 b (by omega)

@[simp] theorem largePage_setPageFrameNumber (p : Frame) :
    largePage (setPageFrameNumber e p) = largePage e := by
  simp (disch := omega) only [largePage, setPageFrameNumber, flag_set_apart]

@[simp] theorem largePage_setPageFrameNumber2mb (p : BitVec 27) :
    largePage (setPageFrameNumber2mb e p) = largePage e := by
  simp (disch := omega) only [largePage, setPageFrameNumber2mb, flag_set_apart]

@[simp] theorem pageFrameNumber_setAccess (a : Access) :
    pageFrameNumber (setAccess e a) = pageFrameNumber e := by
  simp (disch := omega) only [pageFrameNumber, setAccess, get_setFlag_apart]

@[simp] theorem pageFrameNumber_setMemoryType (t : BitVec 3) :
    pageFrameNumber (setMemoryType e t) = pageFrameNumber e := by
  simp (disch := omega) only [pageFrameNumber, setMemoryType, BitField.get_set_apart]

@[simp] theorem pageFrameNumber_setPageFrameNumber (p : Frame) :
    pageFrameNumber (setPageFrameNumber e p) = p :=
  BitField.get_set p (by omega)

@[simp] theorem pageFrameNumber2mb_setAccess (a : Access) :
    pageFrameNumber2mb (setAccess e a) = pageFrameNumber2mb e := by
  simp (disch := omega) only [pageFrameNumber2mb, setAccess, get_setFlag_apart]

@[simp] theorem pageFrameNumber2mb_setMemoryType (t : BitVec 3) :
    pageFrameNumber2mb (setMemoryType e t) = pageFrameNumber2mb e := by
  simp (disch := omega) only [pageFrameNumber2mb, setMemoryType, BitField.get_set_apart]

@[simp] theorem pageFrameNumber2mb_setPageFrameNumber2mb (p : BitVec 27) :
    pageFrameNumber2mb (setPageFrameNumber2mb e p) = p :=
  BitField.get_set p (by omega)

end Fields

@[simp] theorem access_zero : access 0#64 = Access.none := rfl
@[simp] theorem largePage_zero : largePage 0#64 = false := rfl
@[simp] theorem pageFrameNumber_zero : pageFrameNumber 0#64 = 0#36 := BitField.get_zero 12 36

end LMalz.Ept
