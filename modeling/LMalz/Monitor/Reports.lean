import LMalz.Monitor.Violation
import LMalz.Send.Reports

/- From the violations of the cores to the lines of put_func. -/
namespace LMalz.Monitor
open Ept Transition
open Send (Pool PoolEvent PoolStep Put Sending)

section Callback
variable (tid : BitVec 32) (mtfAdd rip : BitVec 64)

def enterHandler : Send.Call := Send.sdSendEnter tid rip
/-- The last parameter is what ALvmxMNTgetLastMTFaddress returns. -/
def exitHandler : Send.Call := Send.sdSendExit tid rip mtfAdd

/-- ALmhdCallback with the rip of the core, or a null pointer, which the handlers go through. -/
def alMhdCallback (vcpu : Option (BitVec 64)) : Callback → Option (List Send.Call)
  | .enter => vcpu.map fun rip => [enterHandler tid rip]
  | .exit => vcpu.map fun rip => [exitHandler tid mtfAdd rip]
  | .mtf => vcpu.map fun _ => []

end Callback

/-- A callback of a core and what became of its packet. -/
structure Report where
  core : Nat
  callback : Callback
  tid : BitVec 32
  rip : BitVec 64
  id : BitVec 32
  sent : Bool

/-- The call that it makes. -/
def Report.call (mtfAdd : Nat → BitVec 64) (r : Report) : Option Send.Call :=
  (alMhdCallback r.tid (mtfAdd r.core) (some r.rip) r.callback).bind List.head?

/-- The line that put_func prints for it. -/
def Report.put (mtfAdd : Nat → BitVec 64) (r : Report) : Option Put :=
  match r.callback with
  | .enter => some (.enter ⟨r.id, r.tid, r.rip⟩)
  | .exit => some (.exit ⟨r.id, r.tid, r.rip⟩ (mtfAdd r.core))
  | .mtf => none

/-- The cores, and the pool that their reports go to. -/
structure Reporting where
  cores : Cores
  pool : Pool

inductive ReportEvent where
  | edit (e : Event)
  | report (v : Violation) (r : Report)
  | read (ds : List Buffer.Delivery)

/-- A violation that the handler of the monitor takes calls g_callback once, before the guest goes
on. `mtfAdd` is g_infos, which only an MTF exit would change. -/
inductive ReportStep (P : Platform) (fuel : Nat) (target vice : EptCls) (mtfAdd : Nat → BitVec 64)
    (bufferSize : Int) :
    Reporting → ReportEvent → Reporting → Prop
  | edit {s : Reporting} {cores : Cores} {e : Event} :
      CoreStep P fuel target vice s.cores (.edit e) cores →
      ReportStep P fuel target vice mtfAdd bufferSize s (.edit e) { s with cores := cores }
  | report {s : Reporting} {cores : Cores} {v : Violation} {r : Report} {c : Send.Call}
      {fuel' : Nat} {m : Bytes.Memory} :
      CoreStep P fuel target vice s.cores (.violation r.core v) cores →
      (cores.core r.core).callbacks = (s.cores.core r.core).callbacks ++ [r.callback] →
      alMhdCallback r.tid (mtfAdd r.core) (some r.rip) r.callback = some [c] →
      c.run bufferSize fuel' s.pool.pkId s.pool.mem = some (r.sent, r.id, m) →
      ReportStep P fuel target vice mtfAdd bufferSize s (.report v r) ⟨cores, ⟨m, r.id⟩⟩
  | read {s : Reporting} {pool : Pool} {ds : List Buffer.Delivery} :
      PoolStep bufferSize s.pool (.read ds) pool →
      ReportStep P fuel target vice mtfAdd bufferSize s (.read ds) { s with pool := pool }

namespace ReportEvent

def reports : ReportEvent → List Report
  | .report _ r => [r]
  | _ => []

def printed : ReportEvent → List (Option Put)
  | .read ds => ds.map fun d => Send.put d.bytes
  | _ => []

def core : ReportEvent → Option CoreEvent
  | .edit e => some (.edit e)
  | .report v r => some (.violation r.core v)
  | .read _ => none

def pool (mtfAdd : Nat → BitVec 64) : ReportEvent → Option PoolEvent
  | .edit _ => none
  | .report _ r => (r.call mtfAdd).map fun c => .send ⟨c, r.id, r.sent⟩
  | .read ds => some (.read ds)

/-- The packet of a report finds a counter that the reader still takes for a nonnegative number. -/
def Fits (s : Reporting) : ReportEvent → Prop
  | .report _ _ => Buffer.existing s.pool.mem < 0x8000
  | _ => True

end ReportEvent

section Projections
variable {P : Platform} {fuel : Nat} {target vice : EptCls} {mtfAdd : Nat → BitVec 64}
  {bufferSize : Int}
  {s t : Reporting} {e : ReportEvent} {es : List ReportEvent} {r : Report} {c : Send.Call}

theorem Report.call_put (called : r.call mtfAdd = some c) :
    Sending.put ⟨c, r.id, r.sent⟩ = r.put mtfAdd ∧ ∀ data code, c.message ≠ .ins data code := by
  rw [Report.call] at called
  rw [Report.put]
  cases callback : r.callback with
  | enter =>
      rw [callback] at called
      cases called
      exact ⟨rfl, fun _ _ => Send.Message.noConfusion⟩
  | exit =>
      rw [callback] at called
      cases called
      exact ⟨rfl, fun _ _ => Send.Message.noConfusion⟩
  | mtf =>
      rw [callback] at called
      cases called

theorem ReportStep.pool (step : ReportStep P fuel target vice mtfAdd bufferSize s e t) :
    (e.pool mtfAdd).elim (s.pool = t.pool) fun b => PoolStep bufferSize s.pool b t.pool := by
  cases step with
  | edit step => rfl
  | @report cores v r c fuel' m step appended calls run =>
      have called : r.call mtfAdd = some c := by rw [Report.call, calls]; rfl
      have short : ∀ data code, c.message = .ins data code → code.length ≤ 16 :=
        fun data code same => absurd same ((Report.call_put called).2 data code)
      rw [ReportEvent.pool, called]
      exact .send short run
  | read step => exact step

theorem ReportStep.pool_guarded {ok : Prop}
    (step : Guarded (ReportStep P fuel target vice mtfAdd bufferSize)
    (fun s e => ok → e.Fits s) s e t) :
    (e.pool mtfAdd).elim (s.pool = t.pool) fun b =>
      Guarded (PoolStep bufferSize) (fun o e => ok → e.Fits o) s.pool b t.pool := by
  obtain ⟨fits, step⟩ := step
  have here := step.pool
  cases e with
  | edit e => exact here
  | report v r =>
      cases called : r.call mtfAdd with
      | none =>
          rw [ReportEvent.pool, called] at here ⊢
          exact here
      | some c =>
          rw [ReportEvent.pool, called] at here ⊢
          exact ⟨fits, here⟩
  | read ds => exact ⟨fun _ => trivial, here⟩

theorem ReportStep.core (step : ReportStep P fuel target vice mtfAdd bufferSize s e t) :
    e.core.elim (s.cores = t.cores) fun b => CoreStep P fuel target vice s.cores b t.cores := by
  cases step with
  | edit step => exact step
  | report step appended calls run => exact step
  | read step => rfl

theorem ReportStep.callbacks (step : ReportStep P fuel target vice mtfAdd bufferSize s e t)
    (i : Nat) :
    (t.cores.core i).callbacks =
      (s.cores.core i).callbacks ++ (e.reports.filter fun r => r.core = i).map Report.callback := by
  obtain ⟨⟨machine, core⟩, pool⟩ := s
  cases step with
  | edit step =>
      cases step with
      | edit step => exact (List.append_nil _).symm
  | @report cores v r c fuel' m step appended calls run =>
      by_cases here : r.core = i
      · rw [← here]
        simpa [ReportEvent.reports] using appended
      · have other : (cores.core i).callbacks = (core i).callbacks := by
          cases step with
          | @violation _ _ _ _ c execute low forbidden exit =>
              change (Function.update core r.core c i).callbacks = _
              rw [Function.update_of_ne (Ne.symm here)]
        simpa [ReportEvent.reports, here] using other
  | read step => exact (List.append_nil _).symm

/-- A report and the call it makes. -/
structure Report.Makes (mtfAdd : Nat → BitVec 64) (r : Report) (s : Sending) : Prop where
  id : s.id = r.id
  sent : s.sent = r.sent
  put : s.put = r.put mtfAdd
  plain : ∀ data code, s.call.message ≠ .ins data code

theorem ReportStep.sendings (step : ReportStep P fuel target vice mtfAdd bufferSize s e t) :
    List.Forall₂ (Report.Makes mtfAdd) e.reports
      ((e.pool mtfAdd).toList.flatMap PoolEvent.sendings) := by
  cases step with
  | edit step => exact .nil
  | @report cores v r c fuel' m step appended calls run =>
      have called : r.call mtfAdd = some c := by rw [Report.call, calls]; rfl
      obtain ⟨put, plain⟩ := Report.call_put called
      rw [ReportEvent.pool, called]
      exact .cons ⟨rfl, rfl, put, plain⟩ .nil
  | read step => exact .nil

end Projections

section Runs
variable {P : Platform} {fuel : Nat} {target vice : EptCls} {mtfAdd : Nat → BitVec 64}
  {bufferSize : Int}
  {s t : Reporting} {es : List ReportEvent}

theorem sendings_run (run : Run (ReportStep P fuel target vice mtfAdd bufferSize) s es t) :
    List.Forall₂ (Report.Makes mtfAdd) (es.flatMap ReportEvent.reports)
      ((es.filterMap (ReportEvent.pool mtfAdd)).flatMap PoolEvent.sendings) := by
  rw [List.filterMap_eq_flatMap_toList, List.flatMap_assoc]
  induction run with
  | nil s => exact .nil
  | cons first rest ih =>
      rw [List.flatMap_cons, List.flatMap_cons]
      exact List.rel_append first.sendings ih

theorem callbacks_run (run : Run (ReportStep P fuel target vice mtfAdd bufferSize) s es t)
    (i : Nat) :
    (t.cores.core i).callbacks =
      (s.cores.core i).callbacks ++ ((es.flatMap ReportEvent.reports).filter fun r => r.core =
        i).map Report.callback := by
  induction run with
  | nil s => exact (List.append_nil _).symm
  | cons first rest ih =>
      rw [ih, first.callbacks i, List.flatMap_cons, List.filter_append, List.map_append,
        List.append_assoc]

/-- The lines are those of the packets that the reader got. -/
theorem printed_delivered (mtfAdd : Nat → BitVec 64) (es : List ReportEvent) :
    es.flatMap ReportEvent.printed =
    ((es.filterMap (ReportEvent.pool mtfAdd)).flatMap PoolEvent.delivered).map fun d =>
      Send.put d.bytes := by
  induction es with
  | nil => rfl
  | cons e es ih =>
      cases e with
      | edit e => exact ih
      | report v r =>
          cases called : r.call mtfAdd with
          | none => simpa [ReportEvent.printed, ReportEvent.pool, called] using ih
          | some c =>
              simpa [ReportEvent.printed, ReportEvent.pool, called, PoolEvent.delivered] using ih
      | read ds => simpa [ReportEvent.printed, ReportEvent.pool, PoolEvent.delivered] using ih

theorem accepted_put {rs : List Report} {ss : List Sending}
    (makes : List.Forall₂ (Report.Makes mtfAdd) rs ss) :
    (ss.filter Sending.sent).map Sending.put = (rs.filter Report.sent).map (Report.put mtfAdd) := by
  induction makes with
  | nil => rfl
  | @cons r s rs ss first rest ih =>
      by_cases sent : r.sent = true
      · rw [List.filter_cons_of_pos sent, List.filter_cons_of_pos (first.sent.trans sent),
          List.map_cons, List.map_cons,
          ih, first.put]
      · rw [List.filter_cons_of_neg sent, List.filter_cons_of_neg (by rwa [first.sent]), ih]

theorem held_put {ds : List Buffer.Delivery} {ss : List Sending}
    (held : List.Forall₂ Send.Holds ds ss)
    (plain : ∀ s ∈ ss, ∀ data code, s.call.message ≠ .ins data code) :
    (ds.map fun d => Send.put d.bytes) = ss.map Sending.put := by
  induction held with
  | nil => rfl
  | cons first rest ih =>
      obtain ⟨here, later⟩ := List.forall_mem_cons.mp plain
      rw [List.map_cons, List.map_cons, first.put here, ih later]

theorem makes_plain {rs : List Report} {ss : List Sending}
    (makes : List.Forall₂ (Report.Makes mtfAdd) rs ss) :
    ∀ s ∈ ss, ∀ data code, s.call.message ≠ .ins data code := by
  induction makes with
  | nil => exact fun _ none => absurd none List.not_mem_nil
  | cons first rest ih => exact List.forall_mem_cons.mpr ⟨first.plain, ih⟩

/-- The reader got the first of the packets that were accepted; all of them at a read, if the
counter allows. -/
theorem reports_handed {ok : Prop} {bufferSize : Nat} (low : Buffer.headSize ≤ bufferSize)
    (high : bufferSize < 2^31)
    (fresh : Buffer.Initial bufferSize ⟨s.pool.mem, []⟩)
    (run : Run (Guarded (ReportStep P fuel target vice mtfAdd bufferSize) fun s e => ok →
    e.Fits s) s es t) :
    Send.Handed bufferSize ok
      (((es.filterMap (ReportEvent.pool mtfAdd)).flatMap PoolEvent.sendings).filter Sending.sent)
      ((es.filterMap (ReportEvent.pool mtfAdd)).flatMap PoolEvent.delivered) t.pool.mem := by
  have pools := run.filterMap (f := Reporting.pool)
    (g := ReportEvent.pool mtfAdd) ReportStep.pool_guarded
  have handed := Send.Handed.run pools (by omega) (Send.Handed.start low high fresh)
  rw [List.filter_flatMap]
  exact handed

end Runs

section Pipeline
variable {P : Platform} {fuel : Nat} {target vice : EptCls} {mtfAdd : Nat → BitVec 64}
  {sys₀ : Cores} {t : Reporting}
  {m : Bytes.Memory} {es : List ReportEvent}

/-- From ALvmxMNTinit on, over every run of edits, violations on all cores and reads: the packets
are numbered one by one, those of a core tell of an enter, an exit, an enter and so on, and put_func
prints the ones that found room, each once and in the order in which they were sent. -/
theorem reports_in_order {bufferSize : Nat} (start : sys₀.Started P fuel target vice)
    (enough : 6 ≤ fuel)
    (low : Buffer.headSize ≤ bufferSize) (high : bufferSize < 2^31)
    (fresh : Buffer.Initial bufferSize ⟨m, []⟩)
    (run : Run (ReportStep P fuel target vice mtfAdd bufferSize) ⟨sys₀, ⟨m, 0⟩⟩ es t) :
    (∀ k r, (es.flatMap ReportEvent.reports)[k]? = some r → r.id = BitVec.ofNat 32 (k + 1)) ∧
    (∀ i, ∃ n, ((es.flatMap ReportEvent.reports).filter fun r => r.core = i).map Report.callback =
      alternating n) ∧
    es.flatMap ReportEvent.printed <+:
      ((es.flatMap ReportEvent.reports).filter Report.sent).map (Report.put mtfAdd) := by
  have makes := sendings_run run
  refine ⟨fun k r found => ?_, fun i => ?_, ?_⟩
  · have pools := run.filterMap (f := Reporting.pool) (g := ReportEvent.pool mtfAdd) ReportStep.pool
    obtain ⟨inside, rfl⟩ := List.getElem?_eq_some_iff.mp found
    have made := makes.get inside (makes.length_eq ▸ inside)
    have counted := Send.ids_count pools k (List.getElem?_eq_getElem (makes.length_eq ▸ inside))
    have same := made.id
    rw [List.get_eq_getElem, List.get_eq_getElem] at same
    rw [← same, counted]
    exact BitVec.zero_add _
  · have cores := run.filterMap (f := Reporting.cores) (g := ReportEvent.core) ReportStep.core
    have sound := cores.invariant (fun inv step => inv.step start.machine.pointers enough step)
      (start.sound (by omega))
    obtain ⟨n, ci⟩ := sound.core i
    have called := callbacks_run run i
    rw [ci.callbacks, start.core i] at called
    exact ⟨n, called.symm⟩
  · have guarded :
      Run (Guarded (ReportStep P fuel target vice mtfAdd bufferSize) fun s e => False → e.Fits s)
        ⟨sys₀, ⟨m, 0⟩⟩ es t := run.mono fun step => ⟨False.elim, step⟩
    obtain ⟨got, rest, packets, split, held, -, -⟩ := reports_handed low high fresh guarded
    have plain : ∀ s ∈ got, ∀ data code, s.call.message ≠ .ins data code := by
      intro s among
      have sent : s ∈ got ++ rest := List.mem_append_left rest among
      rw [← split] at sent
      exact makes_plain makes s (List.mem_filter.mp sent).1
    refine ⟨rest.map Sending.put, ?_⟩
    rw [printed_delivered mtfAdd, held_put held plain, ← accepted_put makes, split, List.map_append]

/-- While the counter of the pool stays in its range, put_func has printed after a read whatever
found room. -/
theorem reports_complete {s : Reporting} {ds : List Buffer.Delivery} {bufferSize : Nat}
    (low : Buffer.headSize ≤ bufferSize)
    (high : bufferSize < 2^31) (fresh : Buffer.Initial bufferSize ⟨m, []⟩)
    (run : Run (Guarded (ReportStep P fuel target vice mtfAdd bufferSize) fun s e => e.Fits s)
    ⟨sys₀, ⟨m, 0⟩⟩ es s)
    (read : ReportStep P fuel target vice mtfAdd bufferSize s (.read ds) t) :
    es.flatMap ReportEvent.printed ++ ReportEvent.printed (.read ds) =
      ((es.flatMap ReportEvent.reports).filter Report.sent).map (Report.put mtfAdd) := by
  have makes := sendings_run (run.mono fun step => step.2)
  have guarded : Run (Guarded (ReportStep P fuel target vice mtfAdd bufferSize) fun s
    e => True → e.Fits s)
      ⟨sys₀, ⟨m, 0⟩⟩ es s := run.mono fun step => ⟨fun _ => step.1, step.2⟩
  have handed := reports_handed low high fresh guarded
  cases read with
  | read read =>
      have held := handed.read read
      have printed := held_put held fun s among => makes_plain makes s (List.mem_filter.mp among).1
      rw [List.map_append] at printed
      rw [printed_delivered mtfAdd, ← accepted_put makes, ← printed]
      rfl

end Pipeline

theorem report_one_page : ∃ target vice sys₀ m es s, sys₀.Started coldPlatform 6 target vice ∧
    Buffer.Initial 0x200000 ⟨m, []⟩ ∧ es.flatMap ReportEvent.reports =
      [⟨0, .enter, 8, 0x5123, 1, true⟩] ∧
    Run (Guarded (ReportStep coldPlatform 6 target vice (fun _ => 0) 0x200000) fun s e => e.Fits s)
      ⟨sys₀, ⟨m, 0⟩⟩ es s := by
  obtain ⟨target, vice, sys₀, ⟨machine, core⟩, k, start, passed, h, vices⟩ := cores_one_page
  have low : Below512G 0x5123 := (by decide : (0x5123 : BitVec 64).toNat < 2^39)
  have forbidden : allowsExecute machine ⟨4, 0x5123⟩ (core 0) = false := by
    rw [h.allowsExecute_vice start.machine.pointers low (congrArg Core.eptPointer (vices 0))]
    decide
  have sound : (core 0).Sound target vice 0 := by
    have vice0 : core 0 = ⟨vice.eptpV, [], false⟩ := vices 0
    rw [vice0]
    exact ⟨rfl, rfl, rfl⟩
  obtain ⟨c, handled, sound', -⟩ :=
    h.violation start.machine.pointers sound (by decide) low forbidden
  have exit : CoreStep coldPlatform 6 target vice ⟨machine, core⟩ (.violation 0 ⟨4, 0x5123⟩)
      ⟨machine, Function.update core 0 c⟩ :=
        .violation (by decide) low forbidden (violationExit_eq handled)
  have appended : (Function.update core 0 c 0).callbacks = (core 0).callbacks ++ [.enter] := by
    rw [Function.update_self, sound'.callbacks, sound.callbacks]
    rfl
  have fresh := Buffer.freshState_initial 0x200000
  obtain ⟨took, prepare, -⟩ := (fresh.tiled (by decide) (by decide)).prepare_step (n := 24)
    (by decide) (by decide)
  rw [Buffer.place_divide rfl (by decide)] at prepare
  cases prepare with
  | @prepare _ fuel _ m short ran =>
      have called : ∃ m,
        (enterHandler 8 0x5123).run 0x200000 fuel 0 (Buffer.freshState 0x200000).mem =
        some (true, 1, m) := by
        have sized : (enterHandler 8 0x5123).message.size = 24 := by decide
        have placed : Buffer.prepareData 0x200000 24 fuel (Buffer.freshState 0x200000).mem =
          some (some (Buffer.dataArea + Buffer.dataHeader), m) := ran
        rw [Send.Call.run, sized, placed]
        exact ⟨_, rfl⟩
      obtain ⟨m', called⟩ := called
      cases passed with
      | cons edit none =>
          cases none
          have room : Buffer.existing (Buffer.freshState 0x200000).mem < 0x8000 := by
            rw [fresh.existing]
            decide
          exact ⟨target, vice, sys₀, (Buffer.freshState 0x200000).mem,
            [.edit _, .report ⟨4, 0x5123⟩ ⟨0, .enter, 8, 0x5123, 1, true⟩], _, start, fresh, rfl,
            .cons ⟨trivial, .edit edit⟩ (.cons ⟨room, .report exit appended rfl called⟩ (.nil _))⟩

theorem reports_in_order_one_page : ∃ target vice sys₀ m es s,
    es.flatMap ReportEvent.reports = [⟨0, .enter, 8, 0x5123, 1, true⟩] ∧
    Run (ReportStep coldPlatform 6 target vice (fun _ => 0) 0x200000) ⟨sys₀, ⟨m, 0⟩⟩ es s ∧
    (∀ k r, (es.flatMap ReportEvent.reports)[k]? = some r → r.id = BitVec.ofNat 32 (k + 1)) ∧
    (∀ i, ∃ n, ((es.flatMap ReportEvent.reports).filter fun r => r.core = i).map Report.callback =
      alternating n) ∧
    es.flatMap ReportEvent.printed <+:
      ((es.flatMap ReportEvent.reports).filter Report.sent).map (Report.put fun _ => 0) := by
  obtain ⟨target, vice, sys₀, m, es, s, start, fresh, reports, guarded⟩ := report_one_page
  have run : Run (ReportStep coldPlatform 6 target vice (fun _ => 0) 0x200000) ⟨sys₀,
    ⟨m, 0⟩⟩ es s :=
    guarded.mono fun step => step.2
  exact ⟨target, vice, sys₀, m, es, s, reports, run,
    reports_in_order start (by decide) (by decide) (by decide) fresh run⟩

theorem reports_complete_one_page : ∃ target vice sys₀ m es ds s t,
    es.flatMap ReportEvent.reports = [⟨0, .enter, 8, 0x5123, 1, true⟩] ∧
    ReportStep coldPlatform 6 target vice (fun _ => 0) 0x200000 s (.read ds) t ∧
    es.flatMap ReportEvent.printed ++ ReportEvent.printed (.read ds) =
      ((es.flatMap ReportEvent.reports).filter Report.sent).map (Report.put fun _ => 0) ∧
    Run (ReportStep coldPlatform 6 target vice (fun _ => 0) 0x200000) ⟨sys₀, ⟨m, 0⟩⟩ es s := by
  obtain ⟨target, vice, sys₀, m, es, s, start, fresh, reports, guarded⟩ := report_one_page
  have handed : Send.Handed (0x200000 : Nat) False _ _ s.pool.mem :=
    reports_handed (by decide) (by decide) fresh (guarded.mono fun step => ⟨False.elim, step.2⟩)
  obtain ⟨got, rest, packets, split, held, waiting, -⟩ := handed
  obtain ⟨cs, ordered⟩ := waiting.ordered
  obtain ⟨fuel, ⟨ds, m'⟩, ran⟩ := Buffer.readData_ends ordered.tiled
  have read : ReportStep coldPlatform 6 target vice (fun _ => 0) 0x200000 s (.read ds)
    { s with pool := _ } :=
    .read (.read ran)
  exact ⟨target, vice, sys₀, m, es, ds, s, _, reports, read,
    reports_complete (by decide) (by decide) fresh guarded read, guarded.mono fun step => step.2⟩

end LMalz.Monitor
