import LMalz.Vmx.HandlerEffects

/- The control fields of a core and its control registers, beside what the processor permits. -/
namespace LMalz.Vmx
open Ept (flag setFlag flag_setFlag flag_setFlag_apart)
open Transition

inductive ControlField where
  | pinBased
  | procBased
  | procBased2
  | exit
  | entry

/-- What RDMSR returns. -/
abbrev MsrRead := BitVec 32 → BitVec 64

def IA32_FEATURE_CONTROL : BitVec 32 := 0x3A
def IA32_VMX_BASIC : BitVec 32 := 0x480
def IA32_VMX_CR0_FIXED0 : BitVec 32 := 0x486
def IA32_VMX_CR0_FIXED1 : BitVec 32 := 0x487
def IA32_VMX_CR4_FIXED0 : BitVec 32 := 0x488
def IA32_VMX_CR4_FIXED1 : BitVec 32 := 0x489
def CR4_VMX_ENABLE_FLAG : BitVec 64 := 0x2000

namespace ControlField

/-- IA32_VMX_PINBASED_CTLS and so on. -/
def capMsr : ControlField → BitVec 32
  | pinBased => 0x481
  | procBased => 0x482
  | procBased2 => 0x48B
  | exit => 0x483
  | entry => 0x484

/-- IA32_VMX_TRUE_PINBASED_CTLS and so on; the secondary controls have none. -/
def trueCapMsr : ControlField → BitVec 32
  | pinBased => 0x48D
  | procBased => 0x48E
  | procBased2 => 0x48B
  | exit => 0x48F
  | entry => 0x490

/-- The bits that ALvmxCoreStart asks for. -/
def requested : ControlField → List Nat
  | pinBased => [5, 3]
  | procBased => [28, 3, 31]
  | procBased2 => [1, 3, 5, 12, 20, 26, 19]
  | exit => [2, 9, 18, 19, 20, 12, 24]
  | entry => [2, 9, 14, 15, 17]

end ControlField

section Write
variable (rdmsr : MsrRead) (f : ControlField)

/-- vmx_controls of IA32_VMX_BASIC selects the MSR. -/
def capability : BitVec 64 :=
    rdmsr (if flag (rdmsr IA32_VMX_BASIC) 55 then f.trueCapMsr else f.capMsr)

/-- The value that write_vmcs_ctrl_field writes. -/
def writeVmcsCtrlField (value : BitVec 64) : BitVec 64 :=
  let cap := capability rdmsr f
  let value := value &&& (cap >>> 32)
  value ||| (cap &&& 0xFFFFFFFF)

def request : BitVec 64 := f.requested.foldl (fun value i => setFlag value i true) 0

/-- ALvmxSupported, with ECX of CPUID 1: CR0 and CR4 if VMX operation may be entered. -/
def alVmxSupported (ecx : BitVec 32) (cr0 cr4 : BitVec 64) : Option (BitVec 64 × BitVec 64) :=
  let featureControl := rdmsr IA32_FEATURE_CONTROL
  if ecx.getLsbD 5 = false then none
  else if flag featureControl 0 = false ∨ flag featureControl 2 = false then none
  else
    let cr4 := cr4 ||| CR4_VMX_ENABLE_FLAG
    let cr0 := cr0 ||| rdmsr IA32_VMX_CR0_FIXED0
    let cr0 := cr0 &&& rdmsr IA32_VMX_CR0_FIXED1
    let cr4 := cr4 ||| rdmsr IA32_VMX_CR4_FIXED0
    let cr4 := cr4 &&& rdmsr IA32_VMX_CR4_FIXED1
    some (cr0, cr4)

/-- The fields that decide whether a VM entry is tried with what the processor supports. -/
structure StartFields where
  control : ControlField → BitVec 64
  guestCr0 : BitVec 64
  guestCr4 : BitVec 64
  hostCr0 : BitVec 64
  hostCr4 : BitVec 64

/-- host_cr4: FSGSBASE and OSXSAVE are set, SMAP and SMEP are cleared. -/
def hostCr4 (cr4 : BitVec 64) : BitVec 64 :=
  setFlag (setFlag (setFlag (setFlag cr4 16 true) 18 true) 21 false) 20 false

/-- ALvmxCoreStart: the context has the CR0 and CR4 that ALvmxSupported has written. -/
def coreStartFields (ecx : BitVec 32) (cr0 cr4 : BitVec 64) : Option StartFields := do
  let (cr0, cr4) ← alVmxSupported rdmsr ecx cr0 cr4
  return {
    control := fun f => writeVmcsCtrlField rdmsr f (request f)
    guestCr0 := cr0
    guestCr4 := cr4
    hostCr0 := cr0
    hostCr4 := hostCr4 cr4 }

end Write

/-- A word between two others, bit by bit: the lower has the bits that must be 1, the upper those
that may be. -/
structure Between (lower upper v : BitVec 64) : Prop where
  must : ∀ i < 64, flag lower i = true → flag v i = true
  may : ∀ i < 64, flag v i = true → flag upper i = true

def allowed0 (cap : BitVec 64) : BitVec 64 := cap &&& 0xFFFFFFFF
def allowed1 (cap : BitVec 64) : BitVec 64 := cap >>> 32

/-- The checks of a VM entry on the control fields, CR0 and CR4. -/
structure Permitted (rdmsr : MsrRead) (s : StartFields) : Prop where
  control : ∀ f, Between (allowed0 (capability rdmsr f))
    (allowed1 (capability rdmsr f)) (s.control f)
  guestCr0 : Between (rdmsr IA32_VMX_CR0_FIXED0) (rdmsr IA32_VMX_CR0_FIXED1) s.guestCr0
  guestCr4 : Between (rdmsr IA32_VMX_CR4_FIXED0) (rdmsr IA32_VMX_CR4_FIXED1) s.guestCr4
  hostCr0 : Between (rdmsr IA32_VMX_CR0_FIXED0) (rdmsr IA32_VMX_CR0_FIXED1) s.hostCr0
  hostCr4 : Between (rdmsr IA32_VMX_CR4_FIXED0) (rdmsr IA32_VMX_CR4_FIXED1) s.hostCr4

section Between
variable {lower upper v : BitVec 64}

theorem flag_getLsbD (v : BitVec 64) (i : Nat) : flag v i = v.getLsbD i := by
  rw [flag, BitField.get]
  cases h : v.getLsbD i <;> simp [BitVec.eq_of_getLsbD_eq_iff, h]

theorem Between.pair (h : Between lower upper v) : Between lower upper lower :=
  ⟨fun _ _ set => set, fun i hi set => h.may i hi (h.must i hi set)⟩

theorem between_and_or (v : BitVec 64) : Between lower upper ((v &&& upper) ||| lower) ↔
    Between lower upper lower := by
  refine ⟨Between.pair, fun pair => ⟨fun i hi set => ?_, fun i hi set => ?_⟩⟩
  · rw [flag_getLsbD] at set ⊢
    rw [BitVec.getLsbD_or, set, Bool.or_true]
  · rw [flag_getLsbD, BitVec.getLsbD_or, BitVec.getLsbD_and, Bool.or_eq_true,
      Bool.and_eq_true] at set
    rcases set with ⟨-, may⟩ | must
    · rw [flag_getLsbD]
      exact may
    · exact pair.may i hi (by rw [flag_getLsbD]; exact must)

theorem between_or_and (v : BitVec 64) : Between lower upper ((v ||| lower) &&& upper) ↔
    Between lower upper lower := by
  refine ⟨Between.pair, fun pair => ⟨fun i hi set => ?_, fun i hi set => ?_⟩⟩
  · have may := pair.may i hi set
    rw [flag_getLsbD] at set may ⊢
    rw [BitVec.getLsbD_and, BitVec.getLsbD_or, set, may, Bool.or_true, Bool.and_true]
  · rw [flag_getLsbD, BitVec.getLsbD_and, Bool.and_eq_true] at set
    rw [flag_getLsbD]
    exact set.2

end Between

section Start
variable {rdmsr : MsrRead} {ecx : BitVec 32} {cr0 cr4 : BitVec 64} {s : StartFields}

theorem flag_setFlag_eq (v : BitVec 64) {i j : Nat} (b : Bool) (inside : i < 64) :
    flag (setFlag v i b) j = if j = i then b else flag v j := by
  by_cases same : j = i
  · rw [same, if_pos rfl, flag_setFlag v i b (by omega)]
  · rw [if_neg same, flag_setFlag_apart v b (by omega)]

theorem writeVmcsCtrlField_eq (rdmsr : MsrRead) (f : ControlField) (value : BitVec 64) :
    writeVmcsCtrlField rdmsr f value =
      (value &&& allowed1 (capability rdmsr f)) ||| allowed0 (capability rdmsr f) := rfl

/-- What the processor must support of CR4 on the host. -/
structure HostCr4Supported (rdmsr : MsrRead) : Prop where
  fsgsbase : flag (rdmsr IA32_VMX_CR4_FIXED1) 16 = true
  osxsave : flag (rdmsr IA32_VMX_CR4_FIXED1) 18 = true
  smep : flag (rdmsr IA32_VMX_CR4_FIXED0) 20 = false
  smap : flag (rdmsr IA32_VMX_CR4_FIXED0) 21 = false

theorem flag_hostCr4 (i : Nat) : flag (hostCr4 cr4) i =
    if i = 20 then false else if i = 21 then false else if i = 18 then true else if i = 16 then true
    else flag cr4 i := by
  rw [hostCr4, flag_setFlag_eq _ _ (by decide), flag_setFlag_eq _ _ (by decide),
    flag_setFlag_eq _ _ (by decide),
    flag_setFlag_eq _ _ (by decide)]

theorem hostCr4_between_iff (between : Between (rdmsr IA32_VMX_CR4_FIXED0)
    (rdmsr IA32_VMX_CR4_FIXED1) cr4) :
    Between (rdmsr IA32_VMX_CR4_FIXED0) (rdmsr IA32_VMX_CR4_FIXED1) (hostCr4 cr4) ↔
      HostCr4Supported rdmsr := by
  constructor
  · intro h
    have cleared {i : Nat} (hi : i < 64) (clear : flag (hostCr4 cr4) i = false) :
        flag (rdmsr IA32_VMX_CR4_FIXED0) i = false := by
      rw [← Bool.not_eq_true]
      intro set
      rw [h.must i hi set] at clear
      cases clear
    exact ⟨h.may 16 (by decide) (flag_hostCr4 16), h.may 18 (by decide) (flag_hostCr4 18),
      cleared (by decide) (flag_hostCr4 20), cleared (by decide) (flag_hostCr4 21)⟩
  · intro h
    refine ⟨fun i hi set => ?_, fun i hi set => ?_⟩
    · rw [flag_hostCr4]
      split_ifs with smep smap
      · rw [smep, h.smep] at set
        cases set
      · rw [smap, h.smap] at set
        cases set
      · rfl
      · rfl
      · exact between.must i hi set
    · rw [flag_hostCr4] at set
      split_ifs at set with smep smap osxsave fsgsbase
      · rw [osxsave]
        exact h.osxsave
      · rw [fsgsbase]
        exact h.fsgsbase
      · exact between.may i hi set

theorem alVmxSupported_eq {c : BitVec 64 × BitVec 64}
    (supported : alVmxSupported rdmsr ecx cr0 cr4 = some c) :
    c = ((cr0 ||| rdmsr IA32_VMX_CR0_FIXED0) &&& rdmsr IA32_VMX_CR0_FIXED1,
      ((cr4 ||| CR4_VMX_ENABLE_FLAG) ||| rdmsr IA32_VMX_CR4_FIXED0) &&& rdmsr
        IA32_VMX_CR4_FIXED1) := by
  simp only [alVmxSupported] at supported
  split_ifs at supported
  exact (Option.some.inj supported).symm

/-- Where the MSRs do not contradict themselves, the first VM entry passes these checks if and only
if the processor has FSGSBASE and OSXSAVE and lets SMEP and SMAP be clear. -/
theorem coreStart_permitted_iff (started : coreStartFields rdmsr ecx cr0 cr4 = some s) :
    Permitted rdmsr s ↔
      (∀ f, Between (allowed0 (capability rdmsr f)) (allowed1 (capability rdmsr f))
        (allowed0 (capability rdmsr f))) ∧
      Between (rdmsr IA32_VMX_CR0_FIXED0) (rdmsr IA32_VMX_CR0_FIXED1) (rdmsr IA32_VMX_CR0_FIXED0) ∧
      Between (rdmsr IA32_VMX_CR4_FIXED0) (rdmsr IA32_VMX_CR4_FIXED1) (rdmsr IA32_VMX_CR4_FIXED0) ∧
      HostCr4Supported rdmsr := by
  cases supported : alVmxSupported rdmsr ecx cr0 cr4 with
  | none =>
      rw [coreStartFields, supported] at started
      cases started
  | some c =>
      rw [coreStartFields, supported] at started
      have fields := alVmxSupported_eq supported
      cases started
      rw [fields]
      constructor
      · intro h
        exact ⟨fun f => (h.control f).pair, h.guestCr0.pair, h.guestCr4.pair,
          (hostCr4_between_iff h.guestCr4).mp h.hostCr4⟩
      · rintro ⟨controls, fixed0, fixed4, host⟩
        have cr0' := (between_or_and cr0).mpr fixed0
        have cr4' := (between_or_and (cr4 ||| CR4_VMX_ENABLE_FLAG)).mpr fixed4
        exact ⟨fun f => (between_and_or (request f)).mpr (controls f), cr0', cr4', cr0',
          (hostCr4_between_iff cr4').mpr host⟩

end Start

/-- Every control may be set, and so may every bit of CR0 and CR4; the low half of a capability MSR
is 0. -/
def freeMsrs : MsrRead := fun msr =>
  if msr = IA32_FEATURE_CONTROL then 5
  else if msr = IA32_VMX_CR0_FIXED0 ∨ msr = IA32_VMX_CR4_FIXED0 then 0
  else if msr = IA32_VMX_CR0_FIXED1 ∨ msr = IA32_VMX_CR4_FIXED1 then 0xFFFFFFFFFFFFFFFF
  else 0xFFFFFFFF00000000

theorem coreStart_permitted_iff_free : ∃ s, coreStartFields freeMsrs 0x20 0 0 = some s ∧
    (Permitted freeMsrs s ↔
      (∀ f, Between (allowed0 (capability freeMsrs f)) (allowed1 (capability freeMsrs f))
        (allowed0 (capability freeMsrs f))) ∧
      Between (freeMsrs IA32_VMX_CR0_FIXED0) (freeMsrs IA32_VMX_CR0_FIXED1)
        (freeMsrs IA32_VMX_CR0_FIXED0) ∧
      Between (freeMsrs IA32_VMX_CR4_FIXED0) (freeMsrs IA32_VMX_CR4_FIXED1)
        (freeMsrs IA32_VMX_CR4_FIXED0) ∧
      HostCr4Supported freeMsrs) := by
  obtain ⟨s, started⟩ : ∃ s, coreStartFields freeMsrs 0x20 0 0 = some s := ⟨_, rfl⟩
  exact ⟨s, started, coreStart_permitted_iff started⟩

section Runs
variable {host : Host} {monitor : Bool} {hs : VmexitHandlers} {f : ExitHandler} {w w' v t : World}
  {c : BitVec 64}

/-- The processor-based controls. -/
def World.controls (w : World) : BitVec 64 := w.vmread .ctrlProcessorBasedVmExecutionControls

/-- NMI-window exiting aside, the controls are `c`. -/
def World.ControlsBut22 (c : BitVec 64) (w : World) : Prop := ∃ b, w.controls = setFlag c 22 b

theorem setFlag_setFlag_22 (c : BitVec 64) (b b' : Bool) : setFlag (setFlag c 22 b) 22 b' =
    setFlag c 22 b' := by
  apply BitVec.eq_of_getLsbD_eq
  intro i hi
  simp only [← flag_getLsbD, flag_setFlag_eq _ _ (show 22 < 64 by decide)]
  split_ifs <;> rfl

theorem setFlag_27_clear (quiet : flag c 27 = false) (b : Bool) :
    setFlag (setFlag c 22 b) 27 false = setFlag c 22 b := by
  have clear : flag (setFlag c 22 b) 27 = false := by
    rw [flag_setFlag_eq _ _ (by decide)]
    exact quiet
  rw [← clear]
  exact Ept.setFlag_flag _ 27

theorem Touches.controls {fields : List Vmcs} (h : Touches fields w w')
    (outside : .ctrlProcessorBasedVmExecutionControls ∉ fields) : w'.controls = w.controls :=
    h.vmcs _ outside

theorem controls_setNmiWindowExiting (w : World) (b : Bool) : (setNmiWindowExiting w b).controls =
    setFlag w.controls 22 b := by
  rw [World.controls, setNmiWindowExiting, World.vmread_vmwrite_self, World.controls]

theorem controls_window (run : vmxHandlerNmiWindow w = .ok (true, w')) : ∃ b, w'.controls =
    setFlag w.controls 22 b := by
  obtain ⟨u, hu⟩ : ∃ u, u =
    vmxInjectNmi { w with vcpu := { w.vcpu with queuedNmis := w.vcpu.queuedNmis - 1 } } :=
    ⟨_, rfl⟩
  have kept : u.controls = w.controls := by
    rw [hu, vmxInjectNmi, World.controls, World.vmread_vmwrite_of_ne _ _ _ _ (by decide)]
    rfl
  have unfolded : vmxHandlerNmiWindow w = .ok (true,
      let w := if u.vcpu.queuedNmis = 0 then setNmiWindowExiting u false else u
      if 0 < w.vcpu.queuedNmis then setNmiWindowExiting w true else w) := by
    rw [hu]
    rfl
  rw [unfolded] at run
  simp only [Ept.Outcome.ok.injEq, Prod.mk.injEq, true_and] at run
  rw [← run, ← kept]
  by_cases last : u.vcpu.queuedNmis = 0
  · rw [if_pos last]
    split_ifs
    · refine ⟨true, ?_⟩
      rw [controls_setNmiWindowExiting, controls_setNmiWindowExiting, setFlag_setFlag_22]
    · exact ⟨false, controls_setNmiWindowExiting u false⟩
  · have more : 0 < u.vcpu.queuedNmis := (BitVec.pos_iff_ne_zero _).mpr last
    rw [if_neg last, if_pos more]
    exact ⟨true, controls_setNmiWindowExiting u true⟩

/-- One handler keeps the controls but for NMI-window exiting; nothing sets the monitor trap flag.
-/
theorem HandlerEffect.controls (h : HandlerEffect host v f w') (quiet : flag c 27 = false)
    (start : v.ControlsBut22 c) :
    w'.ControlsBut22 c := by
  obtain ⟨b, now⟩ := start
  cases h with
  | injects _ info vector error =>
      refine ⟨b, ?_⟩
      rw [(touches_injectHwException vector error (v.setInfo info)).1.controls (by decide)]
      exact now
  | completes emulates leaves info machine =>
      refine ⟨b, ?_⟩
      rw [(touches_incrementRip _).controls (by decide)]
      exact now
  | nmi =>
      refine ⟨true, ?_⟩
      rw [nmiQueued, controls_setNmiWindowExiting, ← setFlag_setFlag_22 c b, ← now]
      rfl
  | window run =>
      obtain ⟨b', ends⟩ := controls_window run
      exact ⟨b', by rw [ends, now, setFlag_setFlag_22]⟩
  | trapFlag =>
      refine ⟨b, ?_⟩
      have cleared : (disableMonitorTrapFlag v).controls = setFlag v.controls 27 false := by
        rw [World.controls, disableMonitorTrapFlag, World.vmread_vmwrite_self, World.controls]
      rw [cleared, now, setFlag_27_clear quiet]
  | violation taken =>
      refine ⟨b, ?_⟩
      rw [← now]
      exact World.vmread_vmwrite_of_ne v .ctrlEptPointer .ctrlProcessorBasedVmExecutionControls
        (violationTaken host v).2.eptPointer (by decide)
  | mtf => exact ⟨b, now⟩

theorem ExitStep.controls {e : Exit} (inst : installed monitor = some hs)
    (step : ExitStep host hs w e w')
    (quiet : flag c 27 = false) (start : w.ControlsBut22 c) : w'.ControlsBut22 c := by
  have exits {v : World} (ran : GuestRan w v)
    (resumes : alVmxExitHandler host hs v = some (.ok w')) :
      w'.ControlsBut22 c := by
    obtain ⟨is2, f, -, run⟩ := exit_taken inst resumes
    obtain ⟨b, now⟩ := start
    exact (ExitHandler.effect run).controls quiet ⟨b, ran.controls.trans now⟩
  cases step with
  | nmi ran _ resumes => exact exits ran resumes
  | window ran _ _ resumes => exact exits ran resumes
  | other ran _ _ resumes => exact exits ran resumes

theorem run_controls {es : List Exit} (inst : installed monitor = some hs)
    (run : Run (ExitStep host hs) w es t)
    (quiet : flag c 27 = false) (start : w.ControlsBut22 c) : t.ControlsBut22 c := by
  induction run with
  | nil s => exact start
  | cons first rest ih => exact ih (first.controls inst quiet start)

theorem window_exits (inst : installed monitor = some hs) (host : Host)
    (opened : nmiWindowExiting w = true) :
    ∃ w', ExitStep host hs w .window w' := by
  obtain ⟨v, hv⟩ : ∃ v, v = w.vmwrite .exitReason 8 := ⟨_, rfl⟩
  have ran : GuestRan w v := by
    refine ⟨?_, by rw [hv]; rfl⟩
    rw [hv, World.vmread_vmwrite_of_ne _ _ _ _ (by decide)]
  have isWindow : v.windowExit := by
    rw [World.windowExit, basicExitReason, hv, World.vmread_vmwrite_self]
    rfl
  have opened' : nmiWindowExiting v = true := by
    rw [nmiWindowExiting, ran.controls]
    exact opened
  have lone : ∀ m, registered (additions m) VMX_EXIT_REASON_NMI_WINDOW = [.nmiWindow] := by decide
  have inside : ¬ vmexitHandlersCount ≤ VMX_EXIT_REASON_NMI_WINDOW := by decide
  have calls := (installed_represents inst VMX_EXIT_REASON_NMI_WINDOW).calls
  rw [lone] at calls
  obtain ⟨w', runs⟩ : ∃ w', vmxHandlerNmiWindow v = .ok (true, w') := ⟨_, rfl⟩
  refine ⟨w', .window ran isWindow opened' ?_⟩
  rw [alVmxExitHandler, isWindow, if_neg inside, callAll, calls]
  simp only [Handler.callList, inLoop, ExitHandler.call, runs]
  rfl

/-- From any state some run of NMIs and one window exit closes the window. -/
theorem window_closes (inst : installed monitor = some hs) (host : Host) (w : World) :
    ∃ es t, Run (ExitStep host hs) w es t ∧ nmiWindowExiting t = false := by
  obtain ⟨n, hn⟩ : ∃ n : Nat, w.vcpu.queuedNmis + BitVec.ofNat 64 n = 0 := by
    refine ⟨(0 - w.vcpu.queuedNmis).toNat, ?_⟩
    rw [BitVec.ofNat_toNat, BitVec.setWidth_eq]
    grind
  obtain ⟨u, run⟩ := nmis_arrive inst host n w
  obtain ⟨v, nmi⟩ := nmi_arrives inst host u
  obtain ⟨one, opened⟩ := step_nmi inst nmi
  obtain ⟨t, window⟩ := window_exits inst host opened
  obtain ⟨-, less, closed, -⟩ := step_window inst window
  refine ⟨_, t, (run.snoc nmi).snoc window, ?_⟩
  rw [closed, less, one, queued_after inst n run, hn]
  decide

theorem started_quiet {rdmsr : MsrRead}
    (quiet : flag (allowed0 (capability rdmsr .procBased)) 27 = false) :
    flag (writeVmcsCtrlField rdmsr .procBased (request .procBased)) 27 = false := by
  have unasked : flag (request .procBased) 27 = false := by decide
  rw [flag_getLsbD] at quiet unasked ⊢
  rw [writeVmcsCtrlField_eq, BitVec.getLsbD_or, BitVec.getLsbD_and, unasked, quiet]
  rfl

/-- NMI-window exiting is the one control that changes after the start: a started core keeps to what
its processor permits over every run if and only if the processor lets that control be set and be
clear. -/
theorem controls_stay_permitted_iff {rdmsr : MsrRead}
    (inst : installed monitor = some hs) (host : Host)
    (started : w.controls = writeVmcsCtrlField rdmsr .procBased (request .procBased))
    (quiet : flag (allowed0 (capability rdmsr .procBased)) 27 = false)
    (start : Between (allowed0 (capability rdmsr .procBased))
    (allowed1 (capability rdmsr .procBased)) w.controls) :
    (∀ es t, Run (ExitStep host hs) w es t →
        Between (allowed0 (capability rdmsr .procBased))
          (allowed1 (capability rdmsr .procBased)) t.controls) ↔
      flag (allowed1 (capability rdmsr .procBased)) 22 = true ∧
        flag (allowed0 (capability rdmsr .procBased)) 22 = false := by
  constructor
  · intro stays
    constructor
    · obtain ⟨t, nmi⟩ := nmi_arrives inst host w
      exact (stays [.nmi] t (.cons nmi (.nil t))).may 22 (by decide) (step_nmi inst nmi).2
    · obtain ⟨es, t, run, closed⟩ := window_closes inst host w
      rw [← Bool.not_eq_true]
      intro fixed
      have opened : nmiWindowExiting t = true := (stays es t run).must 22 (by decide) fixed
      rw [closed] at opened
      cases opened
  · rintro ⟨may, free⟩ es t run
    have clear : flag w.controls 27 = false := by
      rw [started]
      exact started_quiet quiet
    obtain ⟨b, ends⟩ := run_controls inst run clear ⟨_, (Ept.setFlag_flag w.controls 22).symm⟩
    rw [ends]
    refine ⟨fun i hi set => ?_, fun i hi set => ?_⟩
    · rw [flag_setFlag_eq _ _ (by decide)]
      split_ifs with window
      · rw [window, free] at set
        cases set
      · exact start.must i hi set
    · rw [flag_setFlag_eq _ _ (by decide)] at set
      split_ifs at set with window
      · rw [window]
        exact may
      · exact start.may i hi set

end Runs

theorem controls_stay_permitted_iff_free : ∃ hs w, installed true = some hs ∧
    ((∀ es t, Run (ExitStep coldHost hs) w es t →
        Between (allowed0 (capability freeMsrs .procBased))
          (allowed1 (capability freeMsrs .procBased)) t.controls) ↔
      flag (allowed1 (capability freeMsrs .procBased)) 22 = true ∧
        flag (allowed0 (capability freeMsrs .procBased)) 22 = false) := by
  obtain ⟨hs, inst, -⟩ := installed_lists true
  obtain ⟨w, hw⟩ : ∃ w, w = (coldWorld 0).vmwrite .ctrlProcessorBasedVmExecutionControls
    (writeVmcsCtrlField freeMsrs .procBased (request .procBased)) := ⟨_, rfl⟩
  have started : w.controls = writeVmcsCtrlField freeMsrs .procBased (request .procBased) := by
    rw [World.controls, hw, World.vmread_vmwrite_self]
  have start : Between (allowed0 (capability freeMsrs .procBased))
    (allowed1 (capability freeMsrs .procBased)) w.controls := by
    rw [started]
    exact ⟨by decide, by decide⟩
  exact ⟨hs, w, inst, controls_stay_permitted_iff inst coldHost started (by decide) start⟩

end LMalz.Vmx
