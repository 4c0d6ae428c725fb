import LMalz.Lib.BitField
import Mathlib.Logic.Function.Basic
import Mathlib.Tactic.IntervalCases

/- The segment state that ALvmxCoreStart writes into the VMCS. -/
namespace LMalz.Vmx
open Function (update)

inductive SegmentRegister where
  | cs | ss | ds | es | fs | gs | tr | ldtr
  deriving DecidableEq

abbrev Selector := BitVec 16

namespace Selector

def requestPrivilegeLevel (s : Selector) : BitVec 2 := BitField.get s 0 2
def table (s : Selector) : Bool := BitField.get s 2 1 == 1#1
def index (s : Selector) : BitVec 13 := BitField.get s 3 13

end Selector

/-- The selectors of an ORVM_CONTEXT_t. -/
structure SegmentContext where
  cs : Selector
  ds : Selector
  es : Selector
  fs : Selector
  gs : Selector
  ss : Selector
  ldtr : Selector
  tr : Selector

def SegmentContext.selector (ctx : SegmentContext) : SegmentRegister → Selector
  | .cs => ctx.cs
  | .ss => ctx.ss
  | .ds => ctx.ds
  | .es => ctx.es
  | .fs => ctx.fs
  | .gs => ctx.gs
  | .tr => ctx.tr
  | .ldtr => ctx.ldtr

/-- The first eight bytes of a segment_descriptor_64. -/
abbrev Descriptor := BitVec 64

namespace Descriptor
variable (d : Descriptor)

def segmentLimitLow : BitVec 16 := BitField.get d 0 16
def baseAddressLow : BitVec 16 := BitField.get d 16 16
def baseAddressMiddle : BitVec 8 := BitField.get d 32 8
def type : BitVec 4 := BitField.get d 40 4
def descriptorType : BitVec 1 := BitField.get d 44 1
def descriptorPrivilegeLevel : BitVec 2 := BitField.get d 45 2
def present : BitVec 1 := BitField.get d 47 1
def segmentLimitHigh : BitVec 4 := BitField.get d 48 4
def system : BitVec 1 := BitField.get d 52 1
def longMode : BitVec 1 := BitField.get d 53 1
def defaultBig : BitVec 1 := BitField.get d 54 1
def granularity : BitVec 1 := BitField.get d 55 1
def baseAddressHigh : BitVec 8 := BitField.get d 56 8

/-- The limit in bytes. -/
def limit : BitVec 32 :=
  let units : BitVec 20 := d.segmentLimitHigh ++ d.segmentLimitLow
  if d.granularity = 1 then units ++ (0xFFF : BitVec 12) else units.setWidth 32

/-- The 32 bits of the base in one entry. -/
def base : BitVec 32 := d.baseAddressHigh ++ d.baseAddressMiddle ++ d.baseAddressLow

/-- Type to P and AVL to G, where a VMCS has them. -/
def accessRights (unusable : Bool) : BitVec 32 :=
  0#15 ++ BitVec.ofBool unusable ++ (BitField.get d 52 4 : BitVec 4) ++ 0#4 ++ (BitField.get d 40 8 : BitVec 8)

end Descriptor

def SEGMENT_DESCRIPTOR_TYPE_SYSTEM : BitVec 1 := 0

/-- The table behind GDTR. -/
structure Gdt where
  entry : Nat → Descriptor
  limit : BitVec 16

section Gdt
variable (gdtr : Gdt) (selector : Selector)

/-- The entry with the index of a selector. -/
def Gdt.descriptor : Descriptor := gdtr.entry selector.index.toNat

/-- base_address_upper, in the entry behind it. -/
def Gdt.baseAddressUpper : BitVec 32 := BitField.get (gdtr.entry (selector.index.toNat + 1)) 0 32

/-- The base that is encoded there. -/
def Gdt.base : BitVec 64 :=
  if (gdtr.descriptor selector).descriptorType = SEGMENT_DESCRIPTOR_TYPE_SYSTEM then
    gdtr.baseAddressUpper selector ++ (gdtr.descriptor selector).base
  else (gdtr.descriptor selector).base.setWidth 64

def alHvGetSegmentBase : BitVec 64 :=
  if selector.index = 0 then 0
  else
    let descriptor := gdtr.descriptor selector
    let baseAddress :=
      descriptor.baseAddressLow.setWidth 64 |||
        (descriptor.baseAddressMiddle.setWidth 64 <<< 16) |||
          (descriptor.baseAddressHigh.setWidth 64 <<< 24)
    if descriptor.descriptorType = SEGMENT_DESCRIPTOR_TYPE_SYSTEM then
      baseAddress ||| ((gdtr.baseAddressUpper selector).setWidth 64 <<< 32)
    else baseAddress

/-- The entry is read for the index 0 too. -/
def alHvGetVmxSegment : BitVec 32 :=
  let descriptor := gdtr.descriptor selector
  let access := BitField.set (0 : BitVec 32) 0 descriptor.type
  let access := BitField.set access 4 descriptor.descriptorType
  let access := BitField.set access 5 descriptor.descriptorPrivilegeLevel
  let access := BitField.set access 7 descriptor.present
  let access := BitField.set access 12 descriptor.system
  let access := BitField.set access 13 descriptor.longMode
  let access := BitField.set access 14 descriptor.defaultBig
  let access := BitField.set access 15 descriptor.granularity
  BitField.set access 16 (BitVec.ofBool (selector.index = 0))

theorem Descriptor.setWidth_base (d : Descriptor) : d.base.setWidth 64 =
    d.baseAddressLow.setWidth 64 ||| (d.baseAddressMiddle.setWidth 64 <<< 16) |||
      (d.baseAddressHigh.setWidth 64 <<< 24) := by
  rw [Descriptor.base, BitField.setWidth_append, BitField.setWidth_append, BitVec.shiftLeft_or_distrib,
    ← BitVec.shiftLeft_add, BitVec.or_assoc]

theorem alHvGetSegmentBase_eq (usable : selector.index ≠ 0) :
    alHvGetSegmentBase gdtr selector = gdtr.base selector := by
  rw [alHvGetSegmentBase, if_neg usable, Gdt.base]
  by_cases kind : (gdtr.descriptor selector).descriptorType = SEGMENT_DESCRIPTOR_TYPE_SYSTEM
  · have whole := BitField.setWidth_append (gdtr.baseAddressUpper selector) (gdtr.descriptor selector).base 64
    rw [BitVec.setWidth_eq] at whole
    rw [if_pos kind, if_pos kind, whole, Descriptor.setWidth_base]
  · rw [if_neg kind, if_neg kind, Descriptor.setWidth_base]

theorem alHvGetVmxSegment_eq : alHvGetVmxSegment gdtr selector =
    (gdtr.descriptor selector).accessRights (selector.index = 0) := by
  let d := gdtr.descriptor selector
  let low : BitVec 32 := BitField.set 0 0 (BitField.get d 40 8)
  have type : BitField.set (BitField.set (0 : BitVec 32) 0 d.type) 4 d.descriptorType =
      BitField.set 0 0 (BitField.get d 40 5) := BitField.copy_copy 0 d 0 40 4 1
  have privilege : BitField.set (BitField.set (0 : BitVec 32) 0 (BitField.get d 40 5)) 5 d.descriptorPrivilegeLevel =
      BitField.set 0 0 (BitField.get d 40 7) := BitField.copy_copy 0 d 0 40 5 2
  have present : BitField.set (BitField.set (0 : BitVec 32) 0 (BitField.get d 40 7)) 7 d.present = low :=
    BitField.copy_copy 0 d 0 40 7 1
  have available : BitField.set (BitField.set low 12 d.system) 13 d.longMode =
      BitField.set low 12 (BitField.get d 52 2) := BitField.copy_copy low d 12 52 1 1
  have big : BitField.set (BitField.set low 12 (BitField.get d 52 2)) 14 d.defaultBig =
      BitField.set low 12 (BitField.get d 52 3) := BitField.copy_copy low d 12 52 2 1
  have granularity : BitField.set (BitField.set low 12 (BitField.get d 52 3)) 15 d.granularity =
      BitField.set low 12 (BitField.get d 52 4) := BitField.copy_copy low d 12 52 3 1
  have runs : alHvGetVmxSegment gdtr selector =
      BitField.set (BitField.set low 12 (BitField.get d 52 4)) 16 (BitVec.ofBool (selector.index = 0)) := by
    simp only [alHvGetVmxSegment, d, type, privilege, present, available, big, granularity]
  rw [runs]
  apply BitVec.eq_of_getLsbD_eq
  intro i bound
  simp only [Descriptor.accessRights, BitField.getLsbD_set, BitVec.getLsbD_append, low]
  interval_cases i <;> simp [d]

end Gdt

/-- What LSL goes by: both tables, and what __segmentlimit returns where LSL fails. -/
structure SegmentTables where
  gdtr : Gdt
  ldt : Nat → Descriptor
  ldtLimit : BitVec 32
  failed : Selector → BitVec 32

/-- LSL at CPL 0 knows code and data segments, LDTs and TSSs; RPL must not exceed DPL unless code is
conforming. -/
def lslAccepts (d : Descriptor) (rpl : BitVec 2) : Bool :=
  let privileged := rpl ≤ d.descriptorPrivilegeLevel
  if d.descriptorType = SEGMENT_DESCRIPTOR_TYPE_SYSTEM then
    (d.type = 2 ∨ d.type = 9 ∨ d.type = 11) ∧ privileged
  else d.type &&& 0xC = 0xC ∨ privileged

def segmentLimit (t : SegmentTables) (selector : Selector) : BitVec 32 :=
  let last := selector.index.toNat * 8 + 7
  let d := if selector.table then t.ldt selector.index.toNat else t.gdtr.descriptor selector
  if selector.table = false ∧ selector.index = 0 then t.failed selector
  else if (if selector.table then t.ldtLimit.toNat else t.gdtr.limit.toNat) < last then t.failed selector
  else if lslAccepts d selector.requestPrivilegeLevel then d.limit
  else t.failed selector

/-- LSL finds the limit of the selector in the GDT. -/
structure LimitFromGdt (gdtr : Gdt) (selector : Selector) : Prop where
  global : selector.table = false
  inside : selector.index.toNat * 8 + 7 ≤ gdtr.limit.toNat
  accepted : lslAccepts (gdtr.descriptor selector) selector.requestPrivilegeLevel = true

theorem segmentLimit_eq {t : SegmentTables} {selector : Selector} (usable : selector.index ≠ 0)
    (found : LimitFromGdt t.gdtr selector) : segmentLimit t selector = (t.gdtr.descriptor selector).limit := by
  have room := Nat.not_lt.mpr found.inside
  simp only [segmentLimit, found.global, usable, and_false, Bool.false_eq_true, if_false, room, found.accepted,
    if_true]

/-- Tables with no LDT where LSL, when it fails, leaves another limit. -/
def failingTables (gdtr : Gdt) : SegmentTables where
  gdtr := gdtr
  ldt := fun _ => 0
  ldtLimit := 0
  failed := fun selector => (gdtr.descriptor selector).limit + 1

theorem limitFromGdt_of_failing {gdtr : Gdt} {selector : Selector}
    (same : segmentLimit (failingTables gdtr) selector = (gdtr.descriptor selector).limit) :
    LimitFromGdt gdtr selector := by
  have other : (failingTables gdtr).failed selector ≠ (gdtr.descriptor selector).limit := by
    intro equal
    simp [failingTables] at equal
  have global : selector.table = false := by
    by_contra remote
    have remote : selector.table = true := by simpa using remote
    have outside : (failingTables gdtr).ldtLimit.toNat < selector.index.toNat * 8 + 7 := by
      simp [failingTables]
    apply other
    simpa [segmentLimit, remote, outside] using same
  have inside : selector.index.toNat * 8 + 7 ≤ gdtr.limit.toNat := by
    by_contra outside
    have outside : (failingTables gdtr).gdtr.limit.toNat < selector.index.toNat * 8 + 7 := Nat.lt_of_not_le outside
    apply other
    simpa [segmentLimit, global, outside] using same
  have accepted : lslAccepts (gdtr.descriptor selector) selector.requestPrivilegeLevel = true := by
    by_contra refused
    have refused : lslAccepts ((failingTables gdtr).gdtr.descriptor selector) selector.requestPrivilegeLevel = false := by
      simpa [failingTables] using refused
    apply other
    simpa [segmentLimit, global, refused] using same
  exact ⟨global, inside, accepted⟩

/-- The fields of the VMCS for segment registers. -/
inductive SegmentField where
  | guestSelector (r : SegmentRegister)
  | guestBase (r : SegmentRegister)
  | guestLimit (r : SegmentRegister)
  | guestAccessRights (r : SegmentRegister)
  | hostSelector (r : SegmentRegister)
  | hostBase (r : SegmentRegister)
  deriving DecidableEq

abbrev SegmentVmcs := SegmentField → BitVec 64

/-- IA32_FS_BASE and IA32_GS_BASE. -/
structure SegmentMsrs where
  fsBase : BitVec 64
  gsBase : BitVec 64

section CoreStart
variable (ctx : SegmentContext) (t : SegmentTables) (msrs : SegmentMsrs)

/-- The calls of vmx_vmwrite in the part on the host. -/
def hostSegmentWrites : List (SegmentField × BitVec 64) :=
  [(.hostSelector .cs, (ctx.cs &&& 0xFFF8).setWidth 64),
    (.hostSelector .ss, (ctx.ds &&& 0xFFF8).setWidth 64),
    (.hostSelector .ds, (ctx.es &&& 0xFFF8).setWidth 64),
    (.hostSelector .es, (ctx.fs &&& 0xFFF8).setWidth 64),
    (.hostSelector .fs, (ctx.gs &&& 0xFFF8).setWidth 64),
    (.hostSelector .gs, (ctx.ss &&& 0xFFF8).setWidth 64),
    (.hostSelector .tr, (ctx.tr &&& 0xFFF8).setWidth 64),
    (.hostBase .fs, msrs.fsBase),
    (.hostBase .gs, msrs.gsBase),
    (.hostBase .tr, alHvGetSegmentBase t.gdtr ctx.tr)]

/-- Those in the part on the guest. -/
def guestSegmentWrites : List (SegmentField × BitVec 64) :=
  [(.guestSelector .cs, ctx.cs.setWidth 64),
    (.guestSelector .ss, ctx.ss.setWidth 64),
    (.guestSelector .ds, ctx.ds.setWidth 64),
    (.guestSelector .es, ctx.es.setWidth 64),
    (.guestSelector .fs, ctx.fs.setWidth 64),
    (.guestSelector .gs, ctx.gs.setWidth 64),
    (.guestSelector .tr, ctx.tr.setWidth 64),
    (.guestSelector .ldtr, ctx.ldtr.setWidth 64),
    (.guestBase .cs, alHvGetSegmentBase t.gdtr ctx.cs),
    (.guestBase .ss, alHvGetSegmentBase t.gdtr ctx.ss),
    (.guestBase .ds, alHvGetSegmentBase t.gdtr ctx.ds),
    (.guestBase .es, alHvGetSegmentBase t.gdtr ctx.es),
    (.guestBase .fs, msrs.fsBase),
    (.guestBase .gs, msrs.gsBase),
    (.guestBase .tr, alHvGetSegmentBase t.gdtr ctx.tr),
    (.guestBase .ldtr, alHvGetSegmentBase t.gdtr ctx.ldtr),
    (.guestLimit .cs, (segmentLimit t ctx.cs).setWidth 64),
    (.guestLimit .ss, (segmentLimit t ctx.ss).setWidth 64),
    (.guestLimit .ds, (segmentLimit t ctx.ds).setWidth 64),
    (.guestLimit .es, (segmentLimit t ctx.es).setWidth 64),
    (.guestLimit .fs, (segmentLimit t ctx.fs).setWidth 64),
    (.guestLimit .gs, (segmentLimit t ctx.gs).setWidth 64),
    (.guestLimit .tr, (segmentLimit t ctx.tr).setWidth 64),
    (.guestLimit .ldtr, (segmentLimit t ctx.ldtr).setWidth 64),
    (.guestAccessRights .cs, (alHvGetVmxSegment t.gdtr ctx.cs).setWidth 64),
    (.guestAccessRights .ss, (alHvGetVmxSegment t.gdtr ctx.ss).setWidth 64),
    (.guestAccessRights .ds, (alHvGetVmxSegment t.gdtr ctx.ds).setWidth 64),
    (.guestAccessRights .es, (alHvGetVmxSegment t.gdtr ctx.es).setWidth 64),
    (.guestAccessRights .fs, (alHvGetVmxSegment t.gdtr ctx.fs).setWidth 64),
    (.guestAccessRights .gs, (alHvGetVmxSegment t.gdtr ctx.gs).setWidth 64),
    (.guestAccessRights .tr, (alHvGetVmxSegment t.gdtr ctx.tr).setWidth 64),
    (.guestAccessRights .ldtr, (alHvGetVmxSegment t.gdtr ctx.ldtr).setWidth 64)]

/-- The fields when ALvmxCoreStart comes to the launch. -/
def alVmxCoreStartSegments (vmcs : SegmentVmcs) : SegmentVmcs :=
  (hostSegmentWrites ctx t msrs ++ guestSegmentWrites ctx t msrs).foldl
    (fun vmcs w => update vmcs w.1 w.2) vmcs

/-- What the launch should find, register by register. -/
structure SegmentsTransferred (gdtr : Gdt) (vmcs : SegmentVmcs) : Prop where
  guestSelector : ∀ r, vmcs (.guestSelector r) = (ctx.selector r).setWidth 64
  fsBase : vmcs (.guestBase .fs) = msrs.fsBase
  gsBase : vmcs (.guestBase .gs) = msrs.gsBase
  guestBase : ∀ r, r ≠ .fs → r ≠ .gs → (ctx.selector r).index ≠ 0 →
    vmcs (.guestBase r) = gdtr.base (ctx.selector r)
  guestLimit : ∀ r, (ctx.selector r).index ≠ 0 →
    vmcs (.guestLimit r) = (gdtr.descriptor (ctx.selector r)).limit.setWidth 64
  guestAccessRights : ∀ r, vmcs (.guestAccessRights r) =
    ((gdtr.descriptor (ctx.selector r)).accessRights ((ctx.selector r).index = 0)).setWidth 64
  hostSelector : ∀ r, r ≠ .ldtr → vmcs (.hostSelector r) = (ctx.selector r &&& ~~~7).setWidth 64

variable (vmcs : SegmentVmcs)

theorem coreStart_guestSelector (r : SegmentRegister) :
    alVmxCoreStartSegments ctx t msrs vmcs (.guestSelector r) = (ctx.selector r).setWidth 64 := by
  cases r <;> rfl

theorem coreStart_guestBase (r : SegmentRegister) (fs : r ≠ .fs) (gs : r ≠ .gs) :
    alVmxCoreStartSegments ctx t msrs vmcs (.guestBase r) = alHvGetSegmentBase t.gdtr (ctx.selector r) := by
  cases r
  case fs => exact absurd rfl fs
  case gs => exact absurd rfl gs
  all_goals rfl

theorem coreStart_guestLimit (r : SegmentRegister) :
    alVmxCoreStartSegments ctx t msrs vmcs (.guestLimit r) = (segmentLimit t (ctx.selector r)).setWidth 64 := by
  cases r <;> rfl

theorem coreStart_guestAccessRights (r : SegmentRegister) :
    alVmxCoreStartSegments ctx t msrs vmcs (.guestAccessRights r) =
      (alHvGetVmxSegment t.gdtr (ctx.selector r)).setWidth 64 := by
  cases r <;> rfl

/-- The register whose selector the host's register gets. -/
def SegmentRegister.hostSource : SegmentRegister → SegmentRegister
  | .cs => .cs
  | .ss => .ds
  | .ds => .es
  | .es => .fs
  | .fs => .gs
  | .gs => .ss
  | .tr => .tr
  | .ldtr => .ldtr

theorem coreStart_hostSelector (r : SegmentRegister) (held : r ≠ .ldtr) :
    alVmxCoreStartSegments ctx t msrs vmcs (.hostSelector r) =
      (ctx.selector r.hostSource &&& 0xFFF8).setWidth 64 := by
  cases r
  case ldtr => exact absurd rfl held
  all_goals rfl

end CoreStart

theorem Selector.masked_eq_iff (s s' : Selector) : s &&& 0xFFF8 = s' &&& ~~~7 ↔ s.index = s'.index := by
  have mask : (0xFFF8 : Selector) = ~~~7 := by decide
  have low : (7 : Selector).toNat = 2 ^ 3 - 1 := by decide
  have h := s.isLt
  have h' := s'.isLt
  rw [mask, ← BitVec.toNat_inj, ← BitVec.toNat_inj, BitField.toNat_and_not_low low, BitField.toNat_and_not_low low,
    Selector.index, Selector.index, BitField.toNat_get, BitField.toNat_get]
  omega

section CoreStart
variable (ctx : SegmentContext) (gdtr : Gdt)

/-- SS, DS, ES, FS and GS are on one entry. -/
def SegmentContext.OneDataSegment : Prop :=
  ∀ r, r ≠ .cs → r ≠ .tr → r ≠ .ldtr → (ctx.selector r).index = ctx.ss.index

theorem hostSource_index_iff :
    (∀ r, r ≠ .ldtr → (ctx.selector r.hostSource).index = (ctx.selector r).index) ↔ ctx.OneDataSegment := by
  constructor
  · intro own r cs tr ldtr
    have ss := own .ss (by decide)
    have ds := own .ds (by decide)
    have es := own .es (by decide)
    have gs := own .gs (by decide)
    cases r
    case cs => exact absurd rfl cs
    case tr => exact absurd rfl tr
    case ldtr => exact absurd rfl ldtr
    case ss => rfl
    case ds => exact ss
    case es => exact ds.trans ss
    case fs => exact es.trans (ds.trans ss)
    case gs => exact gs.symm
  · intro one r held
    have same (r : SegmentRegister) := one r
    cases r
    case ldtr => exact absurd rfl held
    case cs | tr => rfl
    all_goals
      exact (same _ (by decide) (by decide) (by decide)).trans (same _ (by decide) (by decide) (by decide)).symm

/-- Every host selector but those of CS and TR is taken from another register. -/
theorem alVmxCoreStart_transfers_iff :
    (∀ ldt ldtLimit failed msrs vmcs, SegmentsTransferred ctx msrs gdtr
      (alVmxCoreStartSegments ctx ⟨gdtr, ldt, ldtLimit, failed⟩ msrs vmcs)) ↔
      ctx.OneDataSegment ∧ ∀ r, (ctx.selector r).index ≠ 0 → LimitFromGdt gdtr (ctx.selector r) := by
  constructor
  · intro transferred
    refine ⟨?_, ?_⟩
    · rw [← hostSource_index_iff]
      intro r held
      have whole := (transferred (fun _ => 0) 0 (fun _ => 0) ⟨0, 0⟩ (fun _ => 0)).hostSelector r held
      rw [coreStart_hostSelector ctx _ _ _ r held] at whole
      exact (Selector.masked_eq_iff _ _).mp (BitField.setWidth_injective (by decide) whole)
    · intro r usable
      have whole := (transferred (fun _ => 0) 0 (failingTables gdtr).failed ⟨0, 0⟩ (fun _ => 0)).guestLimit r usable
      rw [coreStart_guestLimit] at whole
      exact limitFromGdt_of_failing (BitField.setWidth_injective (by decide) whole)
  · rintro ⟨one, found⟩ ldt ldtLimit failed msrs vmcs
    refine ⟨coreStart_guestSelector ctx _ msrs vmcs, rfl, rfl, ?_, ?_, ?_, ?_⟩
    · intro r fs gs usable
      rw [coreStart_guestBase ctx _ msrs vmcs r fs gs, alHvGetSegmentBase_eq _ _ usable]
    · intro r usable
      rw [coreStart_guestLimit, segmentLimit_eq usable (found r usable)]
    · intro r
      rw [coreStart_guestAccessRights, alHvGetVmxSegment_eq]
    · intro r held
      rw [coreStart_hostSelector ctx _ msrs vmcs r held,
        (Selector.masked_eq_iff _ _).mpr ((hostSource_index_iff ctx).mpr one r held)]

end CoreStart

/-- Data on 0x2B, the stack on 0x18 and FS on 0x53. -/
def kernelContext : SegmentContext where
  cs := 0x10
  ds := 0x2B
  es := 0x2B
  fs := 0x53
  gs := 0x2B
  ss := 0x18
  ldtr := 0
  tr := 0x40

def kernelGdt : Gdt where
  entry := fun i =>
    match i with
    | 2 => 0x00209B0000000000
    | 3 => 0x0040930000000000
    | 5 => 0x00CFF3000000FFFF
    | 8 => 0x0000000000008B00 <<< 32 ||| 0x67
    | 10 => 0x0040F30000003C00
    | _ => 0
  limit := 0x57

/-- The host's SS gets the selector of DS. -/
theorem coreStart_takes_ds :
    ¬ ∀ ldt ldtLimit failed msrs vmcs, SegmentsTransferred kernelContext msrs kernelGdt
      (alVmxCoreStartSegments kernelContext ⟨kernelGdt, ldt, ldtLimit, failed⟩ msrs vmcs) := by
  intro transferred
  have ss := (transferred (fun _ => 0) 0 (fun _ => 0) ⟨0, 0⟩ (fun _ => 0)).hostSelector .ss (by decide)
  exact absurd ss (by decide)

end LMalz.Vmx
