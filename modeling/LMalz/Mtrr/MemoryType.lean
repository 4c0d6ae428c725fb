import LMalz.Lib.BitField

/- Memory types from the MTRRs: read_mtrr_data and calc_mtrr_mem_type. -/
namespace LMalz.Mtrr

abbrev Msrs := BitVec 32 → BitVec 64

def IA32_MTRR_CAPABILITIES : BitVec 32 := 0xFE
def IA32_MTRR_PHYSBASE0 : BitVec 32 := 0x200
def IA32_MTRR_PHYSMASK0 : BitVec 32 := 0x201
def IA32_MTRR_DEF_TYPE : BitVec 32 := 0x2FF

def MEMORY_TYPE_UNCACHEABLE : BitVec 8 := 0
def MEMORY_TYPE_WRITE_BACK : BitVec 8 := 6
def MEMORY_TYPE_INVALID : BitVec 8 := 255

/-- ia32_mtrr_physbase_register and ia32_mtrr_physmask_register of a variable range. -/
structure VariableRange where
  base : BitVec 64
  mask : BitVec 64
  deriving DecidableEq, Repr

namespace VariableRange

def type (r : VariableRange) : BitVec 8 := BitField.get r.base 0 8
def baseFrame (r : VariableRange) : BitVec 36 := BitField.get r.base 12 36
def maskFrame (r : VariableRange) : BitVec 36 := BitField.get r.mask 12 36
def valid (r : VariableRange) : Bool := BitField.get r.mask 11 1 == 1#1

end VariableRange

/-- mtrr_data. `variables` holds the `var_count` valid ranges. -/
structure MtrrData where
  cap : BitVec 64
  defType : BitVec 64
  «variables» : List VariableRange
  deriving DecidableEq, Repr

def variableRangeCount (cap : BitVec 64) : BitVec 8 := BitField.get cap 0 8
def fixedRangeSupported (cap : BitVec 64) : Bool := BitField.get cap 8 1 == 1#1
def defaultMemoryType (defType : BitVec 64) : BitVec 3 := BitField.get defType 0 3
def fixedRangeMtrrEnable (defType : BitVec 64) : Bool := BitField.get defType 10 1 == 1#1
def mtrrEnable (defType : BitVec 64) : Bool := BitField.get defType 11 1 == 1#1

/-- The pair of MSRs of range `i`. -/
def variableRange (msrs : Msrs) (i : Nat) : VariableRange :=
  ⟨msrs (IA32_MTRR_PHYSBASE0 + BitVec.ofNat 32 (i * 2)),
    msrs (IA32_MTRR_PHYSMASK0 + BitVec.ofNat 32 (i * 2))⟩

def readMtrrData (msrs : Msrs) : MtrrData where
  cap := msrs IA32_MTRR_CAPABILITIES
  defType := msrs IA32_MTRR_DEF_TYPE
  «variables» :=
    ((List.range (variableRangeCount (msrs IA32_MTRR_CAPABILITIES)).toNat).map
      (variableRange msrs)).filter VariableRange.valid

/-- The loop of calc_mtrr_mem_type over the variable ranges of a page, and its end. -/
def calcVariable (mtrrs : MtrrData) (pfn : BitVec 64) : List VariableRange → BitVec 8 → BitVec 8
  | [], currMemType =>
      if currMemType = MEMORY_TYPE_INVALID then (defaultMemoryType mtrrs.defType).setWidth 8
      else currMemType
  | r :: rs, currMemType =>
      if pfn &&& r.maskFrame.setWidth 64 = (r.baseFrame &&& r.maskFrame).setWidth 64 then
        if r.type = MEMORY_TYPE_UNCACHEABLE then MEMORY_TYPE_UNCACHEABLE
        else calcVariable mtrrs pfn rs (if r.type < currMemType then r.type else currMemType)
      else calcVariable mtrrs pfn rs currMemType

/-- calc_mtrr_mem_type of a page. -/
def calcMtrrMemTypePage (mtrrs : MtrrData) (pfn : BitVec 64) : BitVec 8 :=
  if !mtrrEnable mtrrs.defType then MEMORY_TYPE_UNCACHEABLE
  else if pfn < 0x100 ∧ fixedRangeSupported mtrrs.cap ∧ fixedRangeMtrrEnable mtrrs.defType then
    MEMORY_TYPE_UNCACHEABLE
  else calcVariable mtrrs pfn mtrrs.variables MEMORY_TYPE_INVALID

/-- The loop of calc_mtrr_mem_type over the pages of a range, and its end. -/
def calcPages (mtrrs : MtrrData) : Nat → BitVec 64 → BitVec 8 → BitVec 8
  | 0, _, currMemType =>
      if currMemType = MEMORY_TYPE_INVALID then MEMORY_TYPE_UNCACHEABLE else currMemType
  | n + 1, curr, currMemType =>
      let type := calcMtrrMemTypePage mtrrs (curr >>> 12)
      if type = MEMORY_TYPE_UNCACHEABLE then type
      else calcPages mtrrs n (curr + 0x1000) (if type < currMemType then type else currMemType)

/-- calc_mtrr_mem_type of a range. No page is visited if the end of the range wraps. -/
def calcMtrrMemType (mtrrs : MtrrData) (address size : BitVec 64) : BitVec 8 :=
  let address := address &&& ~~~0xFFF
  let size := (size + 0xFFF) &&& ~~~0xFFF
  let pages := if address.toNat + size.toNat < 2^64 then size.toNat / 0x1000 else 0
  calcPages mtrrs pages address MEMORY_TYPE_INVALID

/-- A type that the processor lets an MTRR hold. -/
def Architectural (type : BitVec 8) : Prop := type = 0 ∨ type = 1 ∨ type = 4 ∨ type = 5 ∨ type = 6

/-- MTRRs as a processor can hold them: WRMSR refuses other types. -/
structure MtrrData.Valid (mtrrs : MtrrData) : Prop where
  default : Architectural ((defaultMemoryType mtrrs.defType).setWidth 8)
  «variables» : ∀ r ∈ mtrrs.variables, Architectural r.type

section Types
variable {mtrrs : MtrrData}

theorem architectural_uncacheable : Architectural MEMORY_TYPE_UNCACHEABLE := .inl rfl

theorem calcVariable_architectural {pfn : BitVec 64} (valid : mtrrs.Valid) {rs : List VariableRange}
    (sub : ∀ r ∈ rs, Architectural r.type) {curr : BitVec 8}
    (start : curr = MEMORY_TYPE_INVALID ∨ Architectural curr) :
    Architectural (calcVariable mtrrs pfn rs curr) := by
  induction rs generalizing curr with
  | nil =>
      rw [calcVariable]
      split
      · exact valid.default
      · rename_i other
        exact start.resolve_left other
  | cons r rs ih =>
      have rest : ∀ r ∈ rs, Architectural r.type := fun q hq => sub q (List.mem_cons_of_mem r hq)
      rw [calcVariable]
      split_ifs
      · exact architectural_uncacheable
      · exact ih rest (.inr (sub r List.mem_cons_self))
      · exact ih rest start
      · exact ih rest start

theorem calcMtrrMemTypePage_architectural (valid : mtrrs.Valid) (pfn : BitVec 64) :
    Architectural (calcMtrrMemTypePage mtrrs pfn) := by
  rw [calcMtrrMemTypePage]
  split_ifs
  · exact architectural_uncacheable
  · exact architectural_uncacheable
  · exact calcVariable_architectural valid valid.variables (.inl rfl)

theorem calcPages_architectural (valid : mtrrs.Valid) {n : Nat} {address : BitVec 64}
    {curr : BitVec 8} (start : curr = MEMORY_TYPE_INVALID ∨ Architectural curr) :
    Architectural (calcPages mtrrs n address curr) := by
  induction n generalizing address curr with
  | zero =>
      rw [calcPages]
      split
      · exact architectural_uncacheable
      · rename_i other
        exact start.resolve_left other
  | succ n ih =>
      have page := calcMtrrMemTypePage_architectural valid (address >>> 12)
      simp only [calcPages]
      split_ifs
      · exact page
      · exact ih (.inr page)
      · exact ih start

/-- The types computed from valid MTRRs fit the field of an entry. -/
theorem calcMtrrMemType_architectural (valid : mtrrs.Valid) (address size : BitVec 64) :
    Architectural (calcMtrrMemType mtrrs address size) :=
  calcPages_architectural valid (.inl rfl)

theorem Architectural.truncate {type : BitVec 8} (h : Architectural type) :
    (type.setWidth 3).setWidth 8 = type := by
  rcases h with rfl | rfl | rfl | rfl | rfl <;> rfl

end Types

end LMalz.Mtrr
