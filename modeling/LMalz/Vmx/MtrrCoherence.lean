import LMalz.Lib.Transition
import LMalz.Ept.IdentityMap
import LMalz.Vmx.MsrBitmap

/- The memory types of const_ept beside the MTRRs, while the guest writes MSRs. -/
namespace LMalz.Vmx
open Ept (Outcome Platform Machine Fresh Below512G allocatePage leafType poolPages)
open Mtrr (Msrs IA32_MTRR_CAPABILITIES IA32_MTRR_DEF_TYPE)
open Transition (Run Guarded)

/-- The tables and MSRs, and the MSR bitmap, after ALvmxInit. -/
structure System where
  machine : Machine
  bitmap : MsrBitmap

/-- ALvmxInit; `vmexitInit` is what ALvmxVmexitInit returns, none a return of 0. -/
def alVmxInit (P : Platform) (fuel : Nat) (vmexitInit : Bool) (s : Machine) :
    Outcome (Option System) := do
  let (page, s) ← allocatePage P s
  if page = 0 then return none
  let bitmap := enableMtrrExiting s.msrs (.ofPage (s.mem page))
  let (ret, s) ← Ept.init P fuel s
  if ret = false then return none
  if vmexitInit = false then return none
  return some ⟨s, bitmap⟩

/-- A machine that runs, or that ALhvKill has stopped. -/
inductive Running where
  | killed
  | on (sys : System)

/-- WRMSR of the guest, with the registers and the VMCS of the core as they are then: the processor
leaves the guest for vmx_handler_msr_write, or writes the MSR itself. -/
inductive GuestWrmsr (host : Host) : Running → Vcpu → Running → Prop
  | killed {sys : System} {vcpu : Vcpu} (exits : sys.bitmap.exits vcpu.reg.ecx = true)
      (run : vmxHandlerMsrWrite host ⟨vcpu, sys.machine⟩ = .killed) :
      GuestWrmsr host (.on sys) vcpu .killed
  | handled {sys : System} {vcpu : Vcpu} {done : Bool} {w : World}
      (exits : sys.bitmap.exits vcpu.reg.ecx = true)
      (run : vmxHandlerMsrWrite host ⟨vcpu, sys.machine⟩ = .ok (done, w)) :
      GuestWrmsr host (.on sys) vcpu (.on { sys with machine := w.machine })
  | written {sys : System} {vcpu : Vcpu} {msrs : Msrs}
      (stays : sys.bitmap.exits vcpu.reg.ecx = false)
      (run : host.wrmsr sys.machine.msrs vcpu.reg.ecx (msrValue ⟨vcpu, sys.machine⟩) = .ok msrs) :
      GuestWrmsr host (.on sys) vcpu (.on { sys with machine := { sys.machine with msrs := msrs } })
  | faulted {sys : System} {vcpu : Vcpu} {f : Fault}
      (stays : sys.bitmap.exits vcpu.reg.ecx = false)
      (run : host.wrmsr sys.machine.msrs vcpu.reg.ecx (msrValue ⟨vcpu, sys.machine⟩) = .error f) :
      GuestWrmsr host (.on sys) vcpu (.on sys)

/-- WRMSR stores the value of an MTRR, does not touch the others, and IA32_MTRR_CAPABILITIES cannot
be written. -/
structure WrmsrOfMtrrs (wrmsr : Msrs → BitVec 32 → BitVec 64 → Except Fault Msrs) : Prop where
  stored : ∀ {msrs msr v msrs'}, wrmsr msrs msr v = .ok msrs' → isMtrr msr = true → msrs' msr = v
  others : ∀ {msrs msr v msrs' other}, wrmsr msrs msr v = .ok msrs' → other ≠ msr →
    (isMtrr other = true ∨ other = IA32_MTRR_CAPABILITIES) → msrs' other = msrs other
  capabilities : ∀ {msrs v msrs'}, wrmsr msrs IA32_MTRR_CAPABILITIES v ≠ .ok msrs'

/-- The memory types that ALhvMMgetMemoryType would give if it read the MTRRs now. -/
def System.currentType (sys : System) (gpa : BitVec 64) : BitVec 3 :=
  leafType { sys.machine with mtrrs := none } gpa

/-- Every leaf of const_ept has the type of its range under the present MTRRs. -/
def Coherent (sys : System) : Prop :=
  ∀ gpa leaf, Ept.walk sys.machine.mem sys.machine.constEpt gpa = some leaf →
    leaf.memoryType = sys.currentType gpa

/-- The MSRs that ALhvMMgetMemoryType reads, besides the capabilities. -/
def Read (cap : BitVec 64) (msr : BitVec 32) : Prop :=
  msr = IA32_MTRR_DEF_TYPE ∨ ∃ i, i < (Mtrr.variableRangeCount cap).toNat ∧
    (msr = Mtrr.IA32_MTRR_PHYSBASE0 + BitVec.ofNat 32 (i * 2) ∨
      msr = Mtrr.IA32_MTRR_PHYSMASK0 + BitVec.ofNat 32 (i * 2))

/-- A write that faults or is not to an MTRR, or one that leaves the guest and either meets CR0.CD
cleared, goes to a register that no type depends on, or writes what the register holds. -/
def Spared (host : Host) : Running → Vcpu → Prop
  | .killed, _ => True
  | .on sys, vcpu =>
      let msrs := sys.machine.msrs
      let msr := vcpu.reg.ecx
      let w : World := ⟨vcpu, sys.machine⟩
      (∃ f, host.wrmsr msrs msr (msrValue w) = .error f) ∨
        msr ∉ existingMtrrs (msrs IA32_MTRR_CAPABILITIES) ∨
        (LastOfByte (msrs IA32_MTRR_CAPABILITIES) msr ∧
          (cacheDisable (readEffectiveGuestCr0 w) = false ∨
            ¬ Read (msrs IA32_MTRR_CAPABILITIES) msr ∨ msrValue w = msrs msr))

section Init
open Ept

/-- The run of `x` from `s` leaves the MSRs alone. -/
def KeepsMsrs {α : Type} (x : Outcome (α × Machine)) (s : Machine) : Prop :=
  ∀ a s', x = .ok (a, s') → s'.msrs = s.msrs

variable {P : Platform} {α β : Type} {s t : Machine}

theorem KeepsMsrs.ok (a : α) (same : t.msrs = s.msrs) : KeepsMsrs (.ok (a, t)) s := by
  intro b s' run
  cases run
  exact same

theorem KeepsMsrs.bind {x : Outcome (α × Machine)} {f : α × Machine → Outcome (β × Machine)}
    (h : KeepsMsrs x s) (next : ∀ a s', s'.msrs = s.msrs → KeepsMsrs (f (a, s')) s) :
    KeepsMsrs (x >>= f) s := by
  intro b t run
  obtain ⟨⟨a, s'⟩, first, rest⟩ := Outcome.of_bind run
  exact next a s' (h a s' first) b t rest

theorem KeepsMsrs.of_eq {x : Outcome (α × Machine)} (h : KeepsMsrs x t) (same : t.msrs = s.msrs) :
    KeepsMsrs x s := fun a s' run => (h a s' run).trans same

theorem allocatePage_msrs (s : Machine) : KeepsMsrs (allocatePage P s) s := by
  unfold allocatePage
  split
  · exact .ok _ rfl
  · exact nofun

theorem alVmxEptBuildPde_msrs (gpa : BitVec 64) (pteDemo : Entry) (s : Machine) :
    KeepsMsrs (alVmxEptBuildPde P gpa pteDemo s) s := by
  rw [alVmxEptBuildPde]
  refine (allocatePage_msrs s).bind fun page s' same => ?_
  dsimp only
  split
  · exact .ok _ same
  · exact .ok _ same

theorem alVmxEptSetPde_msrs (fuel : Nat) (gpa : BitVec 64) (pde : Entry) (ept : Frame) (s : Machine) :
    KeepsMsrs (alVmxEptSetPde P fuel gpa pde ept s) s := by
  induction fuel generalizing s with
  | zero => exact nofun
  | succ fuel ih =>
      have again : ∀ f a, KeepsMsrs (allocatePage P s >>= fun (r : Frame × Machine) =>
          if r.1 = 0 then pure (false, r.2)
          else alVmxEptSetPde P fuel gpa pde ept (r.2.store f a (tableEntry r.1))) s := by
        intro f a
        refine (allocatePage_msrs s).bind fun page s' same => ?_
        dsimp only
        split
        · exact .ok _ same
        · exact (ih _).of_eq same
      simp only [alVmxEptSetPde]
      split
      · exact .ok _ rfl
      split
      · split
        · exact .ok _ rfl
        · exact again _ _
      · exact again _ _

theorem alVmxEptSetPte_msrs (fuel : Nat) (gpa : BitVec 64) (pte : Entry) (ept : Frame) (s : Machine) :
    KeepsMsrs (alVmxEptSetPte P fuel gpa pte ept s) s := by
  induction fuel generalizing s with
  | zero => exact nofun
  | succ fuel ih =>
      have again : ∀ demo (stored : Machine → Bool × Machine), (∀ t, (stored t).2.msrs = t.msrs) →
          KeepsMsrs (alVmxEptBuildPde P gpa demo s >>= fun (r : Entry × Machine) =>
            if r.1 ≠ 0 then
              alVmxEptSetPde P fuel gpa r.1 ept r.2 >>= fun (q : Bool × Machine) =>
                alVmxEptSetPte P fuel gpa pte ept q.2
            else pure (stored r.2)) s := by
        intro demo stored kept
        refine (alVmxEptBuildPde_msrs gpa demo s).bind fun newPde s' same => ?_
        dsimp only
        split
        · refine ((alVmxEptSetPde_msrs fuel gpa newPde ept s').of_eq same).bind fun done t same' => ?_
          exact (ih t).of_eq same'
        · exact .ok _ ((kept s').trans same)
      simp only [alVmxEptSetPte]
      split
      · split
        · exact again _ _ fun _ => rfl
        · exact .ok _ rfl
      · exact again _ (fun t => (false, t)) fun _ => rfl

theorem newTablePtes_msrs (fuel : Nat) (pdeDemo : Entry) (ept : Frame) (is : List (BitVec 64))
    (s : Machine) : KeepsMsrs (newTablePtes P fuel pdeDemo ept is s) s := by
  induction is generalizing s with
  | nil => exact .ok _ rfl
  | cons i is ih =>
      rw [newTablePtes]
      refine ((alVmxEptSetPte_msrs fuel i _ ept s.latch).of_eq rfl).bind fun done t same => ?_
      dsimp only
      split
      · exact (ih t).of_eq same
      · exact .ok _ same

theorem newTablePdes_msrs (fuel : Nat) (pdeDemo : Entry) (ept : Frame) (is : List (BitVec 64))
    (s : Machine) : KeepsMsrs (newTablePdes P fuel pdeDemo ept is s) s := by
  induction is generalizing s with
  | nil => exact .ok _ rfl
  | cons i is ih =>
      rw [newTablePdes]
      refine ((alVmxEptSetPde_msrs fuel i _ ept s.latch).of_eq rfl).bind fun done t same => ?_
      dsimp only
      split
      · exact (ih t).of_eq same
      · exact .ok _ same

theorem newTable_msrs {fuel size : Nat} {pdeDemo : Entry} {ret : Bool} {root : Frame}
    (run : alVmxEptNewTable P fuel pdeDemo size s = .ok (ret, root, t)) : t.msrs = s.msrs := by
  rw [alVmxEptNewTable] at run
  obtain ⟨⟨ept, s1⟩, took, run⟩ := Outcome.of_bind run
  have same1 := allocatePage_msrs s ept s1 took
  obtain ⟨⟨done, s2⟩, ptes, run⟩ := Outcome.of_bind run
  have same2 := (newTablePtes_msrs fuel pdeDemo ept _ s1 done s2 ptes).trans same1
  dsimp only at run
  split at run
  · cases run
    exact same2
  obtain ⟨⟨done', s3⟩, pdes, run⟩ := Outcome.of_bind run
  have same3 := (newTablePdes_msrs fuel pdeDemo ept _ s2 done' s3 pdes).trans same2
  dsimp only at run
  split at run
  · cases run
    exact same3
  · cases run
    exact same3

theorem init_msrs {fuel : Nat} {ret : Bool} (run : Ept.init P fuel s = .ok (ret, t)) :
    t.msrs = s.msrs := by
  rw [Ept.init] at run
  split at run
  · cases run
    rfl
  split at run
  · cases run
    rfl
  obtain ⟨⟨done, root, s'⟩, table, run⟩ := Outcome.of_bind run
  have same := newTable_msrs table
  dsimp only at run
  split at run
  · cases run
    exact same
  · cases run
    exact same

end Init

/-- What holds while the machine runs. -/
structure Started (sys : System) : Prop where
  coherent : Coherent sys
  intercepts : ∀ msr ∈ existingMtrrs (sys.machine.msrs IA32_MTRR_CAPABILITIES),
    LastOfByte (sys.machine.msrs IA32_MTRR_CAPABILITIES) msr → sys.bitmap.exits msr = true

section Starting
variable {P : Platform} {k fuel : Nat} {s : Machine} {sys : System} {vmexitInit : Bool}

theorem alVmxInit_started (fresh : Fresh P s k) (enough : 4 ≤ fuel) (unread : s.mtrrs = none)
    (inited : alVmxInit P fuel vmexitInit s = .ok (some sys)) : Started sys := by
  rw [alVmxInit] at inited
  rcases Ept.allocatePage_cases (P := P) fresh.usable fresh.top fresh.bound with died | ⟨room, took⟩
  · rw [died.1] at inited
    cases inited
  have fresh' : Fresh P (s.withPages (k + 1)) (k + 1) :=
    ⟨room, rfl, fresh.top, fun i above inside a => fresh.zero i (by omega) inside a⟩
  rw [took, Outcome.ok_bind] at inited
  dsimp only at inited
  rw [if_neg (P.nonzero k room)] at inited
  obtain ⟨⟨ret, t⟩, run, inited⟩ := Outcome.of_bind inited
  dsimp only at inited
  cases ret with
  | false =>
      rw [if_pos rfl] at inited
      cases inited
  | true =>
      rw [if_neg (by decide)] at inited
      split at inited
      · cases inited
      cases inited
      have kept := init_msrs run
      have msrs : t.msrs = s.msrs := kept
      obtain ⟨data, map⟩ := (Ept.init_identity_map fresh' enough).2 t run
      refine ⟨fun gpa leaf met => ?_, fun msr here last => ?_⟩
      · have low : Below512G gpa := by
          by_contra high
          rw [map.upper gpa high] at met
          cases met
        rw [map.leaf gpa low] at met
        cases met
        have same : t.mtrrData = ({ t with mtrrs := none } : Machine).mtrrData := by
          rw [data]
          simp only [Machine.mtrrData, Ept.Machine.withPages, unread, msrs, Option.getD_none]
        simp only [System.currentType, leafType, Ept.alHvMmGetMemoryType, same]
      · rw [msrs] at here last
        rw [exits_enableMtrrExiting (existingMtrrs_low here)]
        have last' : (sameByte ((s.withPages (k + 1)).msrs IA32_MTRR_CAPABILITIES) msr).getLast? =
          some msr := last
        rw [last']
        exact decide_eq_true rfl

theorem alVmxInit_succeeds (fresh : Fresh P s k) (enough : 4 ≤ fuel)
    (holds : 0x1000 * (k + 516 : Nat) ≤ s.limits.poolBigMemEnd) (first : s.constEpt = 0)
    (features : Ept.eptCheckFeatures s.msrs = true) :
    ∃ t, Ept.init P fuel (s.withPages (k + 1)) = .ok (true, t) ∧ alVmxInit P fuel true s =
      .ok (some ⟨t, enableMtrrExiting s.msrs (.ofPage (s.mem (P.page k)))⟩) := by
  have room : k < poolPages := by
    have high := fresh.top.2
    have size : Pool.poolSize = 0x1000 * poolPages := rfl
    omega
  have fresh' : Fresh P (s.withPages (k + 1)) (k + 1) :=
    ⟨room, rfl, fresh.top, fun i above inside a => fresh.zero i (by omega) inside a⟩
  obtain ⟨t, run⟩ := Ept.init_succeeds fresh' enough
    (show 0x1000 * ((k + 1 + 515 : Nat) : Int) ≤ s.limits.poolBigMemEnd by omega) first features
  refine ⟨t, run, ?_⟩
  rcases Ept.allocatePage_cases (P := P) fresh.usable fresh.top fresh.bound with died | ⟨-, took⟩
  · have short := died.2
    omega
  · rw [alVmxInit, took, Outcome.ok_bind]
    simp only [if_neg (P.nonzero k room), run, Outcome.ok_bind, Bool.true_eq_false, if_false]
    rfl

end Starting

section Steps
variable {host : Host} {sys : System} {vcpu : Vcpu} {st : Running} {msrs msrs' : Msrs}

theorem readMtrrData_congr (cap : msrs' IA32_MTRR_CAPABILITIES = msrs IA32_MTRR_CAPABILITIES)
    (same : ∀ msr, Read (msrs IA32_MTRR_CAPABILITIES) msr → msrs' msr = msrs msr) :
    Mtrr.readMtrrData msrs' = Mtrr.readMtrrData msrs := by
  have defType : msrs' IA32_MTRR_DEF_TYPE = msrs IA32_MTRR_DEF_TYPE := same _ (.inl rfl)
  have ranges : (List.range (Mtrr.variableRangeCount (msrs IA32_MTRR_CAPABILITIES)).toNat).map
        (Mtrr.variableRange msrs') =
      (List.range (Mtrr.variableRangeCount (msrs IA32_MTRR_CAPABILITIES)).toNat).map
        (Mtrr.variableRange msrs) := by
    refine List.map_congr_left fun i inside => ?_
    have bound := List.mem_range.mp inside
    rw [Mtrr.variableRange, Mtrr.variableRange, same _ (.inr ⟨i, bound, .inl rfl⟩),
      same _ (.inr ⟨i, bound, .inr rfl⟩)]
  rw [Mtrr.readMtrrData, Mtrr.readMtrrData, cap, defType, ranges]

theorem Read.mem_existing {cap : BitVec 64} {msr : BitVec 32} (read : Read cap msr) :
    msr ∈ existingMtrrs cap :=
  mem_existingMtrrs.mpr (read.imp_right .inr)

theorem existingMtrrs_isMtrr {cap : BitVec 64} {msr : BitVec 32} (here : msr ∈ existingMtrrs cap) :
    isMtrr msr = true :=
  isMtrr_of_range (existingMtrrs_range here).1 (existingMtrrs_range here).2

theorem Started.write (h : Started sys) (wrmsr : WrmsrOfMtrrs host.wrmsr) {msr : BitVec 32}
    {v : BitVec 64} (stored : host.wrmsr sys.machine.msrs msr v = .ok msrs)
    (harmless : ¬ Read (sys.machine.msrs IA32_MTRR_CAPABILITIES) msr ∨ v = sys.machine.msrs msr) :
    Started { sys with machine := { sys.machine with msrs := msrs } } := by
  have notCap : IA32_MTRR_CAPABILITIES ≠ msr := by
    rintro rfl
    exact wrmsr.capabilities stored
  have cap : msrs IA32_MTRR_CAPABILITIES = sys.machine.msrs IA32_MTRR_CAPABILITIES :=
    wrmsr.others stored notCap (.inr rfl)
  have read : Mtrr.readMtrrData msrs = Mtrr.readMtrrData sys.machine.msrs := by
    refine readMtrrData_congr cap fun other reads => ?_
    have mtrr := existingMtrrs_isMtrr reads.mem_existing
    by_cases same : other = msr
    · subst same
      rw [wrmsr.stored stored mtrr]
      exact harmless.resolve_left fun unread => unread reads
    · exact wrmsr.others stored same (.inl mtrr)
  refine ⟨fun gpa leaf met => ?_, fun other here last => ?_⟩
  · rw [h.coherent gpa leaf met]
    simp only [System.currentType, leafType, Ept.alHvMmGetMemoryType, Machine.mtrrData,
      Option.getD_none, read]
  · dsimp only at here last
    rw [cap] at here last
    exact h.intercepts other here last

theorem machine_injectHwException (vector error : BitVec 32) (w : World) :
    (injectHwException vector error w).2.machine = w.machine := by
  unfold injectHwException
  dsimp only
  split_ifs <;> rfl

/-- The handler writes the MSR or injects the exception of the write. -/
theorem vmxHandlerMsrWrite_machine {w w' : World} {done : Bool}
    (run : vmxHandlerMsrWrite host w = .ok (done, w')) :
    (∃ f, host.wrmsr w.machine.msrs w.vcpu.reg.ecx (msrValue w) = .error f ∧ w'.machine = w.machine) ∨
      ∃ msrs, host.wrmsr w.machine.msrs w.vcpu.reg.ecx (msrValue w) = .ok msrs ∧
        w'.machine = { w.machine with msrs := msrs } ∧
        ¬ (isMtrr w.vcpu.reg.ecx = true ∧ cacheDisable (readEffectiveGuestCr0 w) = false) := by
  cases result : host.wrmsr w.machine.msrs w.vcpu.reg.ecx (msrValue w) with
  | error f =>
      rw [vmxHandlerMsrWrite_fault result, inject] at run
      refine .inl ⟨f, rfl, ?_⟩
      obtain rfl : (injectHwException f.vector f.error (w.setInfo (safeCall w.vcpu.info (some f)))).2 =
          w' := by
        cases run
        rfl
      rw [machine_injectHwException, World.machine_setInfo]
  | ok msrs =>
      rw [vmxHandlerMsrWrite_ok result] at run
      split at run
      · cases run
      · rename_i spared
        cases run
        exact .inr ⟨msrs, rfl, machine_incrementRip _, spared⟩

theorem Started.step (h : Started sys) (wrmsr : WrmsrOfMtrrs host.wrmsr)
    (spared : Spared host (.on sys) vcpu) (step : GuestWrmsr host (.on sys) vcpu st) :
    st = .killed ∨ ∃ sys', st = .on sys' ∧ Started sys' := by
  cases step with
  | killed exits run => exact .inl rfl
  | faulted stays run => exact .inr ⟨sys, rfl, h⟩
  | written stays run =>
      right
      refine ⟨_, rfl, ?_⟩
      rcases spared with ⟨f, fault⟩ | other | ⟨last, -⟩
      · rw [fault] at run
        cases run
      · exact h.write wrmsr run (.inl fun reads => other reads.mem_existing)
      · by_cases here : vcpu.reg.ecx ∈ existingMtrrs (sys.machine.msrs IA32_MTRR_CAPABILITIES)
        · rw [h.intercepts _ here last] at stays
          cases stays
        · exact h.write wrmsr run (.inl fun reads => here reads.mem_existing)
  | handled exits run =>
      right
      refine ⟨_, rfl, ?_⟩
      rcases vmxHandlerMsrWrite_machine run with ⟨f, fault, same⟩ | ⟨msrs, stored, same, alive⟩
      · rw [same]
        exact h
      · rw [same]
        refine h.write wrmsr stored ?_
        rcases spared with ⟨f, fault⟩ | other | ⟨-, cached | unread | present⟩
        · rw [fault] at stored
          cases stored
        · exact .inl fun reads => other reads.mem_existing
        · refine .inl fun reads => alive ⟨existingMtrrs_isMtrr reads.mem_existing, cached⟩
        · exact .inl unread
        · exact .inr present

/-- The memory types follow the MTRRs in every run whose writes are spared, and every write to an
MTRR goes through the handler. -/
theorem mtrrs_coherent {P : Platform} {k fuel : Nat} {s : Machine} {vmexitInit : Bool} {vs : List Vcpu}
    (wrmsr : WrmsrOfMtrrs host.wrmsr) (fresh : Fresh P s k) (enough : 4 ≤ fuel)
    (unread : s.mtrrs = none) (inited : alVmxInit P fuel vmexitInit s = .ok (some sys))
    (run : Run (Guarded (GuestWrmsr host) (Spared host)) (.on sys) vs st) :
    st = .killed ∨ ∃ sys', st = .on sys' ∧ Coherent sys' ∧ ∀ vcpu, Spared host st vcpu →
      vcpu.reg.ecx ∈ existingMtrrs (sys'.machine.msrs IA32_MTRR_CAPABILITIES) →
      (∃ msrs, host.wrmsr sys'.machine.msrs vcpu.reg.ecx (msrValue ⟨vcpu, sys'.machine⟩) = .ok msrs) →
      sys'.bitmap.exits vcpu.reg.ecx = true := by
  have kept : st = .killed ∨ ∃ sys', st = .on sys' ∧ Started sys' := by
    refine run.invariant (I := fun st => st = .killed ∨ ∃ sys', st = .on sys' ∧ Started sys') ?_
      (.inr ⟨sys, rfl, alVmxInit_started fresh enough unread inited⟩)
    rintro st vcpu st' (rfl | ⟨sys', rfl, h⟩) ⟨spared, step⟩
    · cases step
    · exact h.step wrmsr spared step
  refine kept.imp_right ?_
  rintro ⟨sys', rfl, h⟩
  refine ⟨sys', rfl, h.coherent, fun vcpu spared here takes => ?_⟩
  rcases spared with ⟨f, fault⟩ | other | ⟨last, -⟩
  · obtain ⟨msrs, stored⟩ := takes
    rw [fault] at stored
    cases stored
  · exact absurd here other
  · exact h.intercepts _ here last

end Steps

section Example

/-- Two variable ranges; the first one covers the page at 1MB, write-back. -/
def mtrrMachine : Machine :=
  { Ept.coldMachine with
    msrs := fun a =>
      if a = IA32_MTRR_CAPABILITIES then 2
      else if a = Mtrr.IA32_MTRR_PHYSBASE0 then 0x100006
      else if a = Mtrr.IA32_MTRR_PHYSMASK0 then 0xFFFFFFFFF800
      else Ept.coldMachine.msrs a }

/-- A core before WRMSR of an MSR below 2^32. -/
def wrmsrVcpu (msr eax : BitVec 64) : Vcpu :=
  let vcpu := (coldWorld 32).vcpu
  { vcpu with reg := { vcpu.reg with rcx := msr, rax := eax } }

theorem mtrrMachine_fresh : Fresh Ept.coldPlatform mtrrMachine 0 :=
  ⟨Nat.zero_le _, rfl, ⟨by decide, Int.le_refl _⟩, fun _ _ _ _ => rfl⟩

theorem mtrrMachine_init : ∃ t, Ept.init Ept.coldPlatform 4 (mtrrMachine.withPages 1) = .ok (true, t) ∧
    alVmxInit Ept.coldPlatform 4 true mtrrMachine =
      .ok (some ⟨t, enableMtrrExiting mtrrMachine.msrs (.ofPage fun _ => 0)⟩) :=
  alVmxInit_succeeds mtrrMachine_fresh (Nat.le_refl 4) (by decide) rfl (by decide)

/-- IA32_MTRR_CAPABILITIES is read-only, the other MSRs hold what is written to them. -/
def mtrrHost : Host :=
  { coldHost with
    wrmsr := fun msrs msr v =>
      if msr = IA32_MTRR_CAPABILITIES then .error ⟨generalProtection, 0, by decide⟩
      else .ok (Function.update msrs msr v) }

theorem mtrrHost_wrmsr {msrs msrs' : Msrs} {msr : BitVec 32} {v : BitVec 64} :
    mtrrHost.wrmsr msrs msr v = .ok msrs' ↔
      msr ≠ IA32_MTRR_CAPABILITIES ∧ msrs' = Function.update msrs msr v := by
  by_cases cap : msr = IA32_MTRR_CAPABILITIES
  · simp [mtrrHost, cap]
  · simp [mtrrHost, cap, eq_comm]

theorem mtrrHost_wrmsrOfMtrrs : WrmsrOfMtrrs mtrrHost.wrmsr := by
  refine ⟨fun run _ => ?_, fun run other _ => ?_, fun run => ?_⟩
  · rw [(mtrrHost_wrmsr.mp run).2, Function.update_self]
  · rw [(mtrrHost_wrmsr.mp run).2, Function.update_of_ne other]
  · exact (mtrrHost_wrmsr.mp run).1 rfl

/-- IA32_TIME_STAMP_COUNTER is no MTRR; the write does not leave the guest. -/
theorem mtrrs_coherent_tsc : ∃ sys sys',
    alVmxInit Ept.coldPlatform 4 true mtrrMachine = .ok (some sys) ∧
      GuestWrmsr mtrrHost (.on sys) (wrmsrVcpu 0x10 0) (.on sys') ∧ Coherent sys' := by
  obtain ⟨t, run, inited⟩ := mtrrMachine_init
  have kept := init_msrs run
  have msrs : t.msrs = mtrrMachine.msrs := kept
  have written : GuestWrmsr mtrrHost
      (.on ⟨t, enableMtrrExiting mtrrMachine.msrs (.ofPage fun _ => 0)⟩) (wrmsrVcpu 0x10 0) _ :=
    .written (by rw [exits_enableMtrrExiting (by decide)]; decide)
      (mtrrHost_wrmsr.mpr ⟨by decide, rfl⟩)
  have spared : Spared mtrrHost (.on ⟨t, enableMtrrExiting mtrrMachine.msrs (.ofPage fun _ => 0)⟩)
      (wrmsrVcpu 0x10 0) := by
    refine .inr (.inl ?_)
    dsimp only
    rw [msrs]
    decide
  refine ⟨_, _, inited, written, ?_⟩
  rcases mtrrs_coherent mtrrHost_wrmsrOfMtrrs mtrrMachine_fresh (Nat.le_refl 4) rfl inited
    (.cons ⟨spared, written⟩ (.nil _)) with killed | ⟨sys', same, coherent, -⟩
  · cases killed
  · cases same
    exact coherent

/-- PHYSBASE0 shares its byte with the MTRRs after it: the guest makes the page uncached, and the
EPT does not follow. -/
theorem mtrrs_diverge : ∃ sys sys',
    alVmxInit Ept.coldPlatform 4 true mtrrMachine = .ok (some sys) ∧
      GuestWrmsr mtrrHost (.on sys) (wrmsrVcpu 0x200 0x100000) (.on sys') ∧ ¬ Coherent sys' := by
  obtain ⟨t, run, inited⟩ := mtrrMachine_init
  have kept := init_msrs run
  have msrs : t.msrs = mtrrMachine.msrs := kept
  have fresh : Fresh Ept.coldPlatform (mtrrMachine.withPages 1) 1 :=
    ⟨by decide, rfl, ⟨by decide, Int.le_refl _⟩, fun _ _ _ _ => rfl⟩
  obtain ⟨data, map⟩ := (Ept.init_identity_map fresh (Nat.le_refl 4)).2 t run
  have read : t.mtrrData = Mtrr.readMtrrData mtrrMachine.msrs := data
  refine ⟨_, _, inited, .written ?_ (mtrrHost_wrmsr.mpr ⟨by decide, rfl⟩), fun coherent => ?_⟩
  · rw [exits_enableMtrrExiting (by decide)]
    decide
  · have same := coherent 0x100000 _ (map.leaf 0x100000 (show (0x100000 : BitVec 64).toNat < 2^39 by decide))
    have before : leafType t 0x100000 = 6 := by
      rw [leafType, if_pos (by decide), Ept.alHvMmGetMemoryType, read]
      decide +kernel
    have after : (Mtrr.calcMtrrMemType (Mtrr.readMtrrData (Function.update mtrrMachine.msrs 0x200 0x100000))
        0x100000 0x1000).setWidth 3 = (0 : BitVec 3) := by decide +kernel
    have value : msrValue ⟨wrmsrVcpu 0x200 0x100000, t⟩ = 0x100000 := by
      rw [msrValue]
      change ((wrmsrVcpu 0x200 0x100000).reg.rdx <<< 32) |||
        (wrmsrVcpu 0x200 0x100000).reg.eax.setWidth 64 = 0x100000
      decide
    rw [before, System.currentType, leafType, if_pos (by decide), Ept.alHvMmGetMemoryType,
      Machine.mtrrData] at same
    dsimp only at same
    rw [value, msrs] at same
    exact absurd (same.trans after) (by decide)

end Example

end LMalz.Vmx
