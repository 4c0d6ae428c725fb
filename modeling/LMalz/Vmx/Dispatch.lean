import LMalz.Vmx.ExitHandlers
import LMalz.Handler.BoundedList

/- One handler takes an exit: what the two passes of call_all do with the installed lists. -/
namespace LMalz.Vmx
open Ept (Outcome poolPages)
open Handler (HandlerCls callList handlerLimit)

/-- The handlers added for an exit reason, the last one first. -/
def registered (adds : List (Nat × ExitHandler)) (reason : Nat) : List ExitHandler :=
  ((adds.filter fun a => a.1 = reason).map Prod.snd).reverse

/-- All calls of add_fun, with those of the monitor or without. -/
def additions (monitor : Bool) : List (Nat × ExitHandler) :=
  if monitor then vmexitInit ++ mntInit else vmexitInit

theorem registered_cons_self (reason : Nat) (f : ExitHandler) (adds : List (Nat × ExitHandler)) :
    registered ((reason, f) :: adds) reason = registered adds reason ++ [f] := by
  simp [registered]

theorem registered_cons_of_ne {reason other : Nat} (ne : reason ≠ other) (f : ExitHandler)
    (adds : List (Nat × ExitHandler)) :
    registered ((reason, f) :: adds) other = registered adds other := by
  simp [registered, ne]

/-- The calls of add_fun put the handlers in front of what the lists held. -/
theorem addFuns_represents (adds : List (Nat × ExitHandler)) {hs : VmexitHandlers}
    {lists : Nat → List ExitHandler} (r : ∀ reason, (hs reason).Represents (lists reason))
    (room : ∀ reason, (registered adds reason ++ lists reason).length ≤ handlerLimit) :
    ∃ hs', addFuns adds hs = some hs' ∧
      ∀ reason, (hs' reason).Represents (registered adds reason ++ lists reason) := by
  induction adds generalizing hs lists with
  | nil => exact ⟨hs, rfl, r⟩
  | cons add adds ih =>
      obtain ⟨reason, f⟩ := add
      have free := room reason
      rw [registered_cons_self, List.append_assoc] at free
      simp only [List.length_append, List.length_cons, List.length_nil] at free
      obtain ⟨h, added, front⟩ := (r reason).addFront (by omega) f
      have longer : ∀ other, registered ((reason, f) :: adds) other ++ lists other =
          registered adds other ++ Function.update lists reason (f :: lists reason) other := by
        intro other
        by_cases same : other = reason
        · subst same
          rw [registered_cons_self, Function.update_self, List.append_assoc, List.singleton_append]
        · rw [registered_cons_of_ne (Ne.symm same), Function.update_of_ne same]
      have next : ∀ other, (Function.update hs reason h other).Represents
          (Function.update lists reason (f :: lists reason) other) := by
        intro other
        by_cases same : other = reason
        · subst same
          rw [Function.update_self, Function.update_self]
          exact front
        · rw [Function.update_of_ne same, Function.update_of_ne same]
          exact r other
      obtain ⟨hs', rest, all⟩ := ih next fun other => longer other ▸ room other
      refine ⟨hs', ?_, fun other => longer other ▸ all other⟩
      simp only [addFuns, added, Option.bind_eq_bind, Option.bind_some]
      exact rest

theorem addFuns_append (adds more : List (Nat × ExitHandler)) (hs : VmexitHandlers) :
    addFuns (adds ++ more) hs = addFuns adds hs >>= addFuns more := by
  induction adds generalizing hs with
  | nil => rfl
  | cons add adds ih =>
      obtain ⟨reason, f⟩ := add
      simp only [List.cons_append, addFuns, Option.bind_eq_bind, ih, Option.bind_assoc]

theorem registered_append (adds more : List (Nat × ExitHandler)) (reason : Nat) :
    registered (adds ++ more) reason = registered more reason ++ registered adds reason := by
  simp [registered]

theorem mem_registered {adds : List (Nat × ExitHandler)} {reason : Nat} {f : ExitHandler} :
    f ∈ registered adds reason ↔ ∃ a, (a ∈ adds ∧ a.1 = reason) ∧ a.2 = f := by
  simp [registered]

theorem length_registered (adds : List (Nat × ExitHandler)) (reason : Nat) :
    (registered adds reason).length = (adds.map Prod.fst).count reason := by
  rw [registered, List.length_reverse, List.length_map, List.count, List.countP_map,
    List.countP_eq_length_filter]
  rfl

theorem registered_init_short (reason : Nat) : (registered vmexitInit reason).length ≤ 1 := by
  rw [length_registered]
  exact List.nodup_iff_count_le_one.mp (by decide) reason

theorem registered_mnt_short (reason : Nat) : (registered mntInit reason).length ≤ 1 := by
  rw [length_registered]
  exact List.nodup_iff_count_le_one.mp (by decide) reason

theorem registered_short (monitor : Bool) (reason : Nat) :
    (registered (additions monitor) reason).length ≤ 2 := by
  have builtIn := registered_init_short reason
  cases monitor with
  | false => exact Nat.le_succ_of_le builtIn
  | true =>
      have added := registered_mnt_short reason
      rw [additions, if_pos rfl, registered_append, List.length_append]
      omega

theorem installed_lists (monitor : Bool) : ∃ hs, installed monitor = some hs ∧
    ∀ reason, (hs reason).Represents (registered (additions monitor) reason) := by
  have room : ∀ reason, (registered (additions monitor) reason ++ []).length ≤ handlerLimit := by
    intro reason
    rw [List.append_nil]
    exact Nat.le_trans (registered_short monitor reason) (by decide)
  have empty : ∀ _ : Nat, (HandlerCls.init : HandlerCls ExitHandler).Represents [] :=
    fun _ => HandlerCls.init_represents
  obtain ⟨hs, ran, all⟩ := addFuns_represents (additions monitor) empty room
  refine ⟨hs, ?_, fun reason => by rw [← List.append_nil (registered _ reason)]; exact all reason⟩
  rw [← ran]
  cases monitor with
  | false => rfl
  | true => exact (addFuns_append vmexitInit mntInit _).symm

theorem installed_represents {monitor : Bool} {hs : VmexitHandlers}
    (inst : installed monitor = some hs) (reason : Nat) :
    (hs reason).Represents (registered (additions monitor) reason) := by
  obtain ⟨hs', same, all⟩ := installed_lists monitor
  rw [inst] at same
  obtain rfl := Option.some.inj same
  exact all reason

section Handlers
variable {host : Host} {is2 : Bool} {w w' : World}

@[simp] theorem inject_ne (vector error : BitVec 32) (w : World) :
    inject vector error w ≠ .ok (false, w') := by
  simp [inject]

theorem violationHandler_declined (target vice : Ept.EptCls) (m : Ept.Machine)
    (v : Monitor.Violation) (c : Monitor.Core)
    (declines : (Monitor.monitorEptViolationHandler target vice m v c).1 = false) :
    (Monitor.monitorEptViolationHandler target vice m v c).2 = c := by
  revert declines
  unfold Monitor.monitorEptViolationHandler
  dsimp only
  split_ifs <;> simp

/-- A handler that returns 0 has changed nothing. -/
theorem ExitHandler.declined (f : ExitHandler) (declines : f.call host is2 w = .ok (false, w')) :
    w' = w := by
  cases f with
  | exceptionNmi =>
      simp only [ExitHandler.call, vmxHandlerExceptionNmi] at declines
      split at declines
      · simp at declines
      · simpa using declines.symm
  | tripleFault => cases declines
  | nmiWindow => simp [ExitHandler.call, vmxHandlerNmiWindow] at declines
  | cpuid =>
      simp only [ExitHandler.call, vmxHandlerCpuid] at declines
      split at declines <;> simp at declines
  | getsec => exact absurd declines (inject_ne _ _ _)
  | invd => exact absurd declines (inject_ne _ _ _)
  | xsetbv =>
      obtain ⟨info, ⟨vector, -, ends⟩ | ends⟩ := vmxHandlerXsetbv_cases host w
      · exact absurd (ends.symm.trans declines) (inject_ne _ _ _)
      · cases ends.symm.trans declines
  | msrRead =>
      simp only [ExitHandler.call, vmxHandlerMsrRead] at declines
      split at declines <;> simp at declines
  | msrWrite =>
      simp only [ExitHandler.call, vmxHandlerMsrWrite] at declines
      split_ifs at declines <;> simp at declines
  | monitorTrapFlag =>
      simp only [ExitHandler.call, vmxHandlerMonitorTrapFlag] at declines
      split at declines
      · simpa using declines.symm
      · simp at declines
  | eptViolation =>
      simp only [ExitHandler.call, vmxHandlerEptViolation] at declines
      split at declines
      · simpa using declines.symm
      · cases declines
  | vmon =>
      simp only [ExitHandler.call, vmxHandlerVmon] at declines
      split at declines <;> simp at declines
  | vmcall =>
      simp only [ExitHandler.call, vmxHandlerVmcall] at declines
      split at declines
      · simpa using declines.symm
      · simp at declines
  | vmxInstruction => exact absurd declines (inject_ne _ _ _)
  | monitorEptViolation =>
      simp only [ExitHandler.call, monitorEptViolationHandler, Outcome.ok.injEq, Prod.mk.injEq]
        at declines
      have kept := violationHandler_declined host.target host.vice w.machine (violationOf w)
        (coreOf w) declines.1
      rw [← declines.2, kept, withCore_coreOf]
  | monitorVmcall =>
      simp only [ExitHandler.call, monitorHandlerVmcall] at declines
      split_ifs at declines
      · simp at declines
      · obtain ⟨machine, -, last⟩ := Outcome.of_bind declines
        simp at last
      · simpa using declines.symm
  | monitorMtf =>
      simp only [ExitHandler.call, monitorMtfHandler] at declines
      split at declines
      · simp at declines
      · simpa using declines.symm

/-- No handler runs out of fuel while the pool is sound. -/
theorem ExitHandler.ends (f : ExitHandler) (sound : w.machine.PoolSound)
    (enough : poolPages + 2 ≤ host.fuel) : f.call host is2 w ≠ .outOfFuel := by
  cases f with
  | exceptionNmi =>
      simp only [ExitHandler.call, vmxHandlerExceptionNmi]
      split <;> simp
  | tripleFault => simp [ExitHandler.call, vmxHandlerTripleFault]
  | nmiWindow => simp [ExitHandler.call, vmxHandlerNmiWindow]
  | cpuid =>
      simp only [ExitHandler.call, vmxHandlerCpuid]
      split <;> simp
  | getsec => simp [ExitHandler.call, vmxHandlerGetsec, inject]
  | invd => simp [ExitHandler.call, vmxHandlerInvd, inject]
  | xsetbv =>
      obtain ⟨info, ⟨vector, -, ends⟩ | ends⟩ := vmxHandlerXsetbv_cases host w
      · simp [ExitHandler.call, ends, inject]
      · simp [ExitHandler.call, ends]
  | msrRead =>
      simp only [ExitHandler.call, vmxHandlerMsrRead, inject]
      split <;> simp
  | msrWrite =>
      simp only [ExitHandler.call, vmxHandlerMsrWrite, inject]
      split_ifs <;> simp
  | monitorTrapFlag =>
      simp only [ExitHandler.call, vmxHandlerMonitorTrapFlag]
      split <;> simp
  | eptViolation =>
      simp only [ExitHandler.call, vmxHandlerEptViolation]
      split <;> simp
  | vmon =>
      simp only [ExitHandler.call, vmxHandlerVmon, inject]
      split <;> simp
  | vmcall =>
      simp only [ExitHandler.call, vmxHandlerVmcall, inject]
      split <;> simp
  | vmxInstruction => simp [ExitHandler.call, handleVmxInstruction, inject]
  | monitorEptViolation => simp [ExitHandler.call, monitorEptViolationHandler]
  | monitorVmcall =>
      simp only [ExitHandler.call, monitorHandlerVmcall]
      split_ifs
      · simp
      · have ends := Monitor.alVmxMntSetTarget_ends host.target host.vice
          ⟨w.vcpu.reg.r8, w.vcpu.reg.r9, host.getPa⟩ sound enough (P := host.platform)
        cases run : Monitor.alVmxMntSetTarget host.platform host.fuel host.target host.vice
          ⟨w.vcpu.reg.r8, w.vcpu.reg.r9, host.getPa⟩ w.machine with
        | outOfFuel => exact absurd run ends
        | killed => simp
        | ok machine => simp
      · simp
      · simp
  | monitorMtf =>
      simp only [ExitHandler.call, monitorMtfHandler]
      split <;> simp

end Handlers

/-- What is left of the machine by a handler that took the exit. -/
def resumed : Outcome (Bool × World) → Outcome World
  | .ok r => .ok r.2
  | .killed => .killed
  | .outOfFuel => .outOfFuel

/-- `f` takes the exit: in the pass `is2` the handlers before it decline, and if this is the
second pass all handlers did in the first one. -/
structure Takes (host : Host) (fs : List ExitHandler) (w : World) (is2 : Bool) (f : ExitHandler) :
    Prop where
  passed : is2 = true → ∀ g ∈ fs, g.call host false w = .ok (false, w)
  first : ∃ before after, fs = before ++ f :: after ∧ ∀ g ∈ before, g.call host is2 w = .ok (false, w)
  takes : ∀ w', f.call host is2 w ≠ .ok (false, w')

theorem Takes.mem {host : Host} {fs : List ExitHandler} {w : World} {is2 : Bool} {f : ExitHandler}
    (t : Takes host fs w is2 f) : f ∈ fs := by
  obtain ⟨before, after, rfl, -⟩ := t.first
  exact List.mem_append_right before List.mem_cons_self

section Passes
variable {host : Host} {is2 : Bool} {w : World} {fs : List ExitHandler} {h : HandlerCls ExitHandler}

theorem inLoop_declines {f : ExitHandler} (declines : f.call host is2 w = .ok (false, w)) :
    inLoop host is2 f (.ok w) = (false, .ok w) := by
  simp only [inLoop, declines]

theorem inLoop_takes {f : ExitHandler} (takes : ∀ w', f.call host is2 w ≠ .ok (false, w')) :
    inLoop host is2 f (.ok w) = (true, resumed (f.call host is2 w)) := by
  cases run : f.call host is2 w with
  | outOfFuel => simp only [inLoop, run, resumed]
  | killed => simp only [inLoop, run, resumed]
  | ok r =>
      obtain ⟨handled, w'⟩ := r
      cases handled with
      | false => exact absurd run (takes w')
      | true => simp only [inLoop, run, resumed]

/-- One pass: every handler declines, or the first one that does not takes the exit. -/
theorem callList_inLoop (host : Host) (is2 : Bool) (w : World) (fs : List ExitHandler) :
    (∀ f ∈ fs, f.call host is2 w = .ok (false, w)) ∧
        callList (inLoop host is2) fs (.ok w) = (false, .ok w) ∨
      ∃ f, (∃ before after, fs = before ++ f :: after ∧
          ∀ g ∈ before, g.call host is2 w = .ok (false, w)) ∧
        (∀ w', f.call host is2 w ≠ .ok (false, w')) ∧
        callList (inLoop host is2) fs (.ok w) = (true, resumed (f.call host is2 w)) := by
  induction fs with
  | nil => exact .inl ⟨fun f hf => absurd hf List.not_mem_nil, rfl⟩
  | cons f fs ih =>
      by_cases declines : ∃ w', f.call host is2 w = .ok (false, w')
      · obtain ⟨w', declines⟩ := declines
        obtain rfl := f.declined declines
        have next : callList (inLoop host is2) (f :: fs) (.ok w') =
            callList (inLoop host is2) fs (.ok w') := by
          rw [callList, inLoop_declines declines]
        rw [next]
        rcases ih with ⟨all, nothing⟩ | ⟨g, ⟨before, after, split, earlier⟩, takes, result⟩
        · exact .inl ⟨List.forall_mem_cons.mpr ⟨declines, all⟩, nothing⟩
        · refine .inr ⟨g, ⟨f :: before, after, by rw [split, List.cons_append], ?_⟩, takes, result⟩
          exact List.forall_mem_cons.mpr ⟨declines, earlier⟩
      · have takes : ∀ w', f.call host is2 w ≠ .ok (false, w') :=
          fun w' same => declines ⟨w', same⟩
        refine .inr ⟨f, ⟨[], fs, rfl, fun g hg => absurd hg List.not_mem_nil⟩, takes, ?_⟩
        rw [callList, inLoop_takes takes]

theorem callAll_cases (host : Host) (w : World) (r : h.Represents fs) : callAll host h w = some .killed ∨
    ∃ is2 f, Takes host fs w is2 f ∧ callAll host h w = some (resumed (f.call host is2 w)) := by
  have calls := r.calls
  rcases callList_inLoop host false w fs with
    ⟨all, nothing⟩ | ⟨f, first, takes, result⟩
  · rcases callList_inLoop host true w fs with
      ⟨-, nothing'⟩ | ⟨f, first, takes, result⟩
    · left
      simp only [callAll, calls _ _ _, nothing, nothing', Option.bind_eq_bind, Option.bind_some,
        Bool.false_eq_true, if_false]
      rfl
    · refine .inr ⟨true, f, ⟨fun _ => all, first, takes⟩, ?_⟩
      simp only [callAll, calls _ _ _, nothing, result, Option.bind_eq_bind, Option.bind_some,
        Bool.false_eq_true, if_false, if_true]
      rfl
  · refine .inr ⟨false, f, ⟨fun second => absurd second.symm Bool.false_ne_true.symm, first, takes⟩, ?_⟩
    simp only [callAll, calls _ _ _, result, Option.bind_eq_bind, Option.bind_some, if_true]
    rfl

end Passes

section Exit
variable {host : Host} {monitor : Bool} {hs : VmexitHandlers} {w : World}

/-- With the installed lists an exit kills the machine, or one handler that returns 1 says what
becomes of it. -/
theorem exit_cases (inst : installed monitor = some hs) (sound : w.machine.PoolSound)
    (enough : poolPages + 2 ≤ host.fuel) : alVmxExitHandler host hs w = some .killed ∨
      ∃ is2 f w', Takes host (registered (additions monitor) (basicExitReason w)) w is2 f ∧
        f.call host is2 w = .ok (true, w') ∧ alVmxExitHandler host hs w = some (.ok w') := by
  by_cases outside : vmexitHandlersCount ≤ basicExitReason w
  · exact .inl (if_pos outside)
  have inside : alVmxExitHandler host hs w = callAll host (hs (basicExitReason w)) w :=
    if_neg outside
  rw [inside]
  rcases callAll_cases host w (installed_represents inst (basicExitReason w)) with
    killed | ⟨is2, f, takes, result⟩
  · exact .inl killed
  · cases run : f.call host is2 w with
    | outOfFuel => exact absurd run (f.ends sound enough)
    | killed =>
        rw [run] at result
        exact .inl result
    | ok r =>
        obtain ⟨handled, w'⟩ := r
        cases handled with
        | false => exact absurd run (takes.takes w')
        | true =>
            rw [run] at result
            exact .inr ⟨is2, f, w', takes, run, result⟩

end Exit

section Order
variable {W : Type}

/-- A handler that also notes that it was called. -/
def noting (call : ExitHandler → W → Bool × W) (f : ExitHandler) (w : List ExitHandler × W) :
    Bool × (List ExitHandler × W) :=
  let (handled, w') := call f w.2
  (handled, w.1 ++ [f], w')

theorem callList_noting (call : ExitHandler → W → Bool × W) (fs called : List ExitHandler) (w : W) :
    ∃ now, now <+: fs ∧ callList (noting call) fs (called, w) =
      ((callList call fs w).1, called ++ now, (callList call fs w).2) := by
  induction fs generalizing called w with
  | nil => exact ⟨[], List.nil_prefix, by rw [List.append_nil]; rfl⟩
  | cons f fs ih =>
      cases run : call f w with
      | mk handled w' =>
          cases handled with
          | true =>
              refine ⟨[f], ⟨fs, rfl⟩, ?_⟩
              simp only [callList, noting, run]
          | false =>
              obtain ⟨now, part, rest⟩ := ih (called ++ [f]) w'
              refine ⟨f :: now, List.cons_prefix_cons.mpr ⟨rfl, part⟩, ?_⟩
              simp only [callList, noting, run]
              rw [rest, List.append_assoc, List.singleton_append]

/-- At most one call each, those of the monitor first. -/
structure InOrder (called : List ExitHandler) : Prop where
  once : called.Nodup
  monitorFirst : called.Pairwise fun f g => g.ofMonitor = true → f.ofMonitor = true

theorem InOrder.initial {called now : List ExitHandler} (h : InOrder called) (part : now <+: called) :
    InOrder now :=
  ⟨h.once.sublist part.sublist, h.monitorFirst.sublist part.sublist⟩

theorem InOrder.short {called : List ExitHandler} (h : called.length ≤ 1) : InOrder called := by
  match called, h with
  | [], _ => exact ⟨List.nodup_nil, .nil⟩
  | [f], _ => exact ⟨List.nodup_singleton f, List.pairwise_singleton _ f⟩

theorem registered_inOrder (monitor : Bool) (reason : Nat) :
    InOrder (registered (additions monitor) reason) := by
  have builtIn : InOrder (registered vmexitInit reason) := .short (registered_init_short reason)
  cases monitor with
  | false => exact builtIn
  | true =>
      have added : InOrder (registered mntInit reason) := .short (registered_mnt_short reason)
      have split : registered (additions true) reason =
          registered mntInit reason ++ registered vmexitInit reason := registered_append _ _ _
      have ofMonitor : ∀ f ∈ registered mntInit reason, f.ofMonitor = true := by
        intro f hf
        obtain ⟨a, ha, rfl⟩ := mem_registered.mp hf
        exact (by decide : ∀ a ∈ mntInit, a.2.ofMonitor = true) a ha.1
      have notOfMonitor : ∀ f ∈ registered vmexitInit reason, f.ofMonitor = false := by
        intro f hf
        obtain ⟨a, ha, rfl⟩ := mem_registered.mp hf
        exact (by decide : ∀ a ∈ vmexitInit, a.2.ofMonitor = false) a ha.1
      rw [split]
      refine ⟨List.nodup_append.mpr ⟨added.once, builtIn.once, ?_⟩,
        List.pairwise_append.mpr ⟨added.monitorFirst, builtIn.monitorFirst, ?_⟩⟩
      · rintro f hf g hg rfl
        have both := (ofMonitor f hf).symm.trans (notOfMonitor f hg)
        cases both
      · exact fun f hf g _ _ => ofMonitor f hf

end Order

/-- For every exit and state: a handler that returns 0 has changed nothing, each pass calls a
handler at most once and those of the monitor first, and the exit is handled exactly as the one
handler that returned 1 does it, or the machine is killed. -/
theorem exit_takes_one_handler {monitor : Bool} {hs : VmexitHandlers}
    (inst : installed monitor = some hs) (host : Host) (w : World) (sound : w.machine.PoolSound)
    (enough : poolPages + 2 ≤ host.fuel) :
    (∀ f ∈ registered (additions monitor) (basicExitReason w), ∀ is2 v v',
      f.call host is2 v = .ok (false, v') → v' = v) ∧
    (∀ is2 o, ∃ r called, InOrder called ∧
      (hs (basicExitReason w)).callHandlers (inLoop host is2) o = some r ∧
      (hs (basicExitReason w)).callHandlers (noting (inLoop host is2)) ([], o) =
        some (r.1, called, r.2)) ∧
    (alVmxExitHandler host hs w = some .killed ∨
      ∃ is2 f w', Takes host (registered (additions monitor) (basicExitReason w)) w is2 f ∧
        f.call host is2 w = .ok (true, w') ∧ alVmxExitHandler host hs w = some (.ok w')) := by
  refine ⟨fun f _ is2 v v' declines => f.declined declines, fun is2 o => ?_,
    exit_cases inst sound enough⟩
  have calls := (installed_represents inst (basicExitReason w)).calls
  obtain ⟨called, part, noted⟩ := callList_noting (inLoop host is2)
    (registered (additions monitor) (basicExitReason w)) [] o
  exact ⟨_, called, (registered_inOrder monitor _).initial part, calls _ _ _,
    (calls _ _ _).trans (congrArg some noted)⟩

theorem exit_takes_one_handler_vmcall : ∃ hs, installed true = some hs ∧
    registered (additions true) (basicExitReason (coldWorld 18)) = [.monitorVmcall, .vmcall] ∧
    (alVmxExitHandler coldHost hs (coldWorld 18) = some .killed ∨
      ∃ is2 f w', Takes coldHost [.monitorVmcall, .vmcall] (coldWorld 18) is2 f ∧
        f.call coldHost is2 (coldWorld 18) = .ok (true, w') ∧
        alVmxExitHandler coldHost hs (coldWorld 18) = some (.ok w')) := by
  obtain ⟨hs, inst, -⟩ := installed_lists true
  have list : registered (additions true) (basicExitReason (coldWorld 18)) =
      [.monitorVmcall, .vmcall] := by decide
  have taken := (exit_takes_one_handler inst coldHost (coldWorld 18) (coldWorld_sound 18)
    (Nat.le_refl _)).2.2
  rw [list] at taken
  exact ⟨hs, inst, list, taken⟩

end LMalz.Vmx
