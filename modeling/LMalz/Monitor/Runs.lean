import LMalz.Monitor.Complementarity

/- Runs of the monitor: any calls of ALvmxMNTsetTarget, and what else takes memory. -/
namespace LMalz.Monitor
open Ept Transition

inductive Event where
  | setTarget (c : Call)
  | request (size : Int)

/-- ALhvMMgetPA returned addresses below 512GB only. -/
def Call.Below (c : Call) : Prop := ∀ pa ∈ c.addresses, Below512G pa

inductive Step (P : Platform) (fuel : Nat) (target vice : EptCls) : Machine → Event → Machine → Prop
  | setTarget {s s' : Machine} {c : Call} (below : c.Below)
      (done : alVmxMntSetTarget P fuel target vice c s = .ok s') :
      Step P fuel target vice s (.setTarget c) s'
  | request {s s' : Machine} {size : Int} (low : 0 ≤ size) (high : size < 2^62)
      (done : Monitor.request size s = .ok s') : Step P fuel target vice s (.request size) s'

/-- The pages that an event passes to set_pte. -/
def Event.pages : Event → List Frame
  | .setTarget c => c.addresses.map pageOf
  | .request _ => []

def passed (es : List Event) : List Frame := es.flatMap Event.pages

/-- The target EPT may execute exactly the pages passed, the vice EPT exactly the others, and
const_ept is as it was. -/
structure Complementary (target vice : EptCls) (pages : List Frame) (s₀ s : Machine) : Prop where
  target : ∀ gpa, Below512G gpa →
    translation s.mem target.eptPml4 gpa = some (pageOf gpa, ⟨true, true, decide (pageOf gpa ∈ pages)⟩)
  vice : ∀ gpa, Below512G gpa →
    translation s.mem vice.eptPml4 gpa = some (pageOf gpa, ⟨true, true, !decide (pageOf gpa ∈ pages)⟩)
  const : ∀ gpa, walk s.mem s.constEpt gpa = walk s₀.mem s₀.constEpt gpa

/-- The table allows execution of the page. -/
def executable (s : Machine) (X : EptCls) (gpa : BitVec 64) : Bool :=
  ((translation s.mem X.eptPml4 gpa).map fun t => t.2.execute).getD false

section Runs
variable {P : Platform} {fuel : Nat} {target vice : EptCls} {s t : Machine} {pages : List Frame}
  {k : Nat} {e : Event} {es : List Event}

/-- A call returns unless the pool is used up, eight pages for each page at most. -/
theorem Monitored.call (h : Monitored P target vice s pages k) {c : Call} (below : c.Below)
    (enough : 6 ≤ fuel) :
    Died (alVmxMntSetTarget P fuel target vice c s) s (k + 8 * c.addresses.length) ∨
      ∃ s' k', alVmxMntSetTarget P fuel target vice c s = .ok s' ∧
        Monitored P target vice s' (Event.pages (.setTarget c) ++ pages) k' ∧
        s'.constEpt = s.constEpt ∧ Kept s.mem s'.mem s.constEpt := by
  refine (h.setTargetPages below enough).imp_right ?_
  rintro ⟨s', k', done, after, -, const, kept⟩
  refine ⟨s', k', done, after.congr fun page => ?_, const, kept⟩
  rw [Event.pages, List.mem_append, List.mem_append, List.mem_reverse]

theorem Monitored.executable_target (h : Monitored P target vice s pages k) {gpa : BitVec 64}
    (low : Below512G gpa) : executable s target gpa = decide (pageOf gpa ∈ pages) := by
  obtain ⟨role, p⟩ := h
  rw [executable, p.mapsX.leaf gpa low]
  rfl

theorem Monitored.executable_vice (h : Monitored P target vice s pages k) {gpa : BitVec 64}
    (low : Below512G gpa) : executable s vice gpa = !decide (pageOf gpa ∈ pages) := by
  obtain ⟨role, p⟩ := h
  rw [executable, p.mapsY.leaf gpa low]
  rfl

theorem Monitored.request (h : Monitored P target vice s pages k) {size : Int} (low : 0 ≤ size)
    (high : size < 2^62) (done : Monitor.request size s = .ok t) :
    t.mem = s.mem ∧ t.constEpt = s.constEpt ∧ ∃ k', Monitored P target vice t pages k' := by
  obtain ⟨role, p⟩ := h
  rcases request_cases p.tables low high with killed | ⟨lim, k', returned, tables⟩
  · rw [killed] at done
    cases done
  · rw [returned] at done
    cases done
    exact ⟨rfl, rfl, k', role, tables, p.const, p.rootX, p.rootY, p.parentX, p.parentY, p.full,
      p.mapsX.congr rfl rfl, p.mapsY.congr rfl rfl⟩

theorem Monitored.step (h : Monitored P target vice s pages k) (enough : 6 ≤ fuel)
    (step : Step P fuel target vice s e t) : ∃ k', Monitored P target vice t (e.pages ++ pages) k' ∧
      t.constEpt = s.constEpt ∧ Kept s.mem t.mem s.constEpt := by
  cases step with
  | setTarget below done =>
      rcases h.call below enough with died | ⟨s', k', returned, after, const, kept⟩
      · rw [died.1] at done
        cases done
      · rw [returned] at done
        cases done
        exact ⟨k', after, const, kept⟩
  | request low high done =>
      obtain ⟨mem, const, k', after⟩ := h.request low high done
      refine ⟨k', after, const, ?_⟩
      rw [mem]
      exact Kept.refl s.mem s.constEpt

theorem Monitored.run (run : Run (Step P fuel target vice) s es t) (enough : 6 ≤ fuel)
    (h : Monitored P target vice s pages k) : ∃ k', Monitored P target vice t (passed es ++ pages) k' ∧
      t.constEpt = s.constEpt ∧ Kept s.mem t.mem s.constEpt := by
  induction run generalizing pages k with
  | nil s => exact ⟨k, h, rfl, Kept.refl s.mem s.constEpt⟩
  | @cons s u t e es first _ ih =>
      obtain ⟨k₁, h₁, const₁, kept₁⟩ := h.step enough first
      obtain ⟨k₂, h₂, const₂, kept₂⟩ := ih h₁
      refine ⟨k₂, h₂.congr fun page => ?_, const₂.trans const₁, kept₁.trans (const₁ ▸ kept₂)⟩
      simp only [passed, List.flatMap_cons, List.mem_append]
      tauto

theorem Monitored.complementary {s₀ : Machine} {k₀ : Nat} (start : Monitored P target vice s₀ [] k₀)
    (h : Monitored P target vice s pages k) (const : s.constEpt = s₀.constEpt)
    (kept : Kept s₀.mem s.mem s₀.constEpt) : Complementary target vice pages s₀ s := by
  obtain ⟨role₀, p₀⟩ := start
  obtain ⟨role, p⟩ := h
  refine ⟨p.mapsX.leaf, p.mapsY.leaf, fun gpa => ?_⟩
  have root := p.const
  rw [const] at root ⊢
  exact p₀.tables.shaped.walk_congr p.tables.shaped p₀.const root fun n deep => kept.entry gpa n deep

/-- The two tables are complementary after any calls, a further call returns unless the pool is
used up, and a call already made changes nothing when it is made again. -/
theorem monitor_complementary {s₀ : Machine} (start : Started P fuel target vice s₀)
    (enough : 6 ≤ fuel) (run : Run (Step P fuel target vice) s₀ es s) :
    Complementary target vice (passed es) s₀ s ∧
    (∀ c : Call, c.Below → (∃ s', alVmxMntSetTarget P fuel target vice c s = .ok s') ∨
      alVmxMntSetTarget P fuel target vice c s = .killed ∧
        s.limits.poolBigMemEnd < s.limits.poolUsable + 0x8000 * c.addresses.length) ∧
    ∀ c, .setTarget c ∈ es → alVmxMntSetTarget P fuel target vice c s = .ok s := by
  obtain ⟨k₀, h₀⟩ := start.monitored (by omega)
  obtain ⟨k, h, const, kept⟩ := h₀.run run enough
  rw [List.append_nil] at h
  refine ⟨h₀.complementary h const kept, fun c below => ?_, fun c made => ?_⟩
  · rcases h.call below enough with died | ⟨s', k', returned, -⟩
    · refine .inr ⟨died.1, ?_⟩
      obtain ⟨role, p⟩ := h
      have usable := p.tables.usable
      have upper := died.2
      omega
    · exact .inl ⟨s', returned⟩
  · have below : c.Below := by
      obtain ⟨u, v, taken⟩ := run.step_of_mem made
      cases taken with
      | setTarget below _ => exact below
    refine h.setTargetPages_again below (fun pa hpa => ?_) enough
    exact List.mem_flatMap.mpr ⟨_, made, List.mem_map_of_mem hpa⟩

end Runs

theorem started_cold : ∃ target vice s, Started coldPlatform 6 target vice s ∧
    s.limits = ⟨0x1000 * 518, Pool.poolSize - 8⟩ := by
  have size : Pool.poolSize = 0xA00000 := rfl
  rcases init_cases coldMachine_fresh 2 with died | ⟨refused, -⟩ |
    ⟨s', inited, hinit, b, mem, limits, -, -, root, ready⟩
  · exact absurd died.2 (by decide)
  · rcases refused with again | missing
    · exact absurd rfl again
    · exact absurd missing (by decide)
  have taken : inited.limits.poolUsable = 0x1000 * 515 := by
    rw [limits, b.usable]
    rfl
  have upper : inited.limits.poolBigMemEnd = Pool.poolSize := by
    rw [limits, b.memEnd]
    rfl
  have tables := b.tables.congr mem limits
  rcases newClone_spec tables none ready with died | ⟨room, vice, hvice, parent, first⟩
  · have := died.2
    omega
  obtain ⟨made, hmade⟩ : ∃ m, m = (inited.withPages (0 + 515 + 1)).fill (coldPlatform.page (0 + 515))
      (inited.mem (copied inited.constEpt none)) := ⟨_, rfl⟩
  rw [← hmade] at first
  have madeLimits : made.limits = ⟨0x1000 * 516, Pool.poolSize⟩ := by
    rw [hmade]
    change Pool.Limits.mk _ inited.limits.poolBigMemEnd = _
    rw [upper]
    rfl
  have v := (ConstReady.init coldMachine_fresh (by omega) hinit).1.clone first
  have infos : request (8 * (1 : Nat)) made =
      .ok { made with limits := ⟨0x1000 * 516, Pool.poolSize - 8⟩ } := by
    rw [request, madeLimits]
    rfl
  obtain ⟨k', v'⟩ := constClone_request v (by decide) (by decide) infos
  have usable := v'.tables.usable
  obtain rfl : k' = 516 := by
    change (0x1000 * 516 : Int) = 0x1000 * k' at usable
    omega
  rcases newView_spec v'.tables v'.const v'.ready ⟨true, true, false⟩ with
    died | ⟨room', target, htarget, -, made'⟩
  · have short := died.2
    change Pool.poolSize - 8 < 0x1000 * ((516 + 2 : Nat) : Int) at short
    omega
  have nonzero : (target.eptPml4 != 0) = true := by
    rw [htarget, bne_iff_ne]
    exact coldPlatform.nonzero 516 (by omega)
  have hmnt : alVmxMntInit coldPlatform 1 true true made = .ok (true, target, Machine.view coldPlatform
      { made with limits := ⟨0x1000 * 516, Pool.poolSize - 8⟩ } 516 ⟨true, true, false⟩) := by
    rw [alVmxMntInit, infos]
    simp only [Outcome.ok_bind]
    rw [made']
    simp only [Outcome.ok_bind, nonzero]
    rfl
  exact ⟨target, vice, _, ⟨coldMachine, 0, inited, made, made, 1, true, true, coldMachine_fresh, hinit,
    first, .refl, by decide, hmnt⟩, rfl⟩

theorem started_one_page : ∃ target vice s₀ s k, Started coldPlatform 6 target vice s₀ ∧
    Step coldPlatform 6 target vice s₀ (.setTarget ⟨0x5000, 0x1000, id⟩) s ∧
    Monitored coldPlatform target vice s [5] k := by
  obtain ⟨target, vice, s₀, start, limits⟩ := started_cold
  obtain ⟨k, h₀⟩ := start.monitored (by omega)
  have addresses : (Call.mk 0x5000 0x1000 id).addresses = [0x5000] := by decide
  have below : (Call.mk 0x5000 0x1000 id).Below := by
    intro pa hpa
    rw [addresses, List.mem_singleton] at hpa
    rw [hpa]
    exact (by decide : (0x5000 : BitVec 64).toNat < 2^39)
  have usable : s₀.limits.poolUsable = 0x1000 * k := by
    obtain ⟨role, p⟩ := h₀
    exact p.tables.usable
  rcases h₀.call below (Nat.le_refl 6) with died | ⟨s, k', done, h, -⟩
  · have short := died.2
    have size : Pool.poolSize = 0xA00000 := rfl
    rw [limits] at usable short
    simp only [addresses, List.length_singleton] at usable short
    omega
  · have pages : Event.pages (.setTarget ⟨0x5000, 0x1000, id⟩) ++ [] = [5] := by decide
    rw [pages] at h
    exact ⟨target, vice, s₀, s, k', start, .setTarget below done, h⟩

theorem monitor_complementary_one_page : ∃ target vice s₀ s,
    Run (Step coldPlatform 6 target vice) s₀ [.setTarget ⟨0x5000, 0x1000, id⟩] s ∧
    Complementary target vice [5] s₀ s := by
  obtain ⟨target, vice, s₀, s, k, start, step, -⟩ := started_one_page
  have run := Run.cons step (.nil s)
  have pages : passed [.setTarget ⟨0x5000, 0x1000, id⟩] = [5] := by decide
  exact ⟨target, vice, s₀, s, run, pages ▸ (monitor_complementary start (Nat.le_refl 6) run).1⟩

end LMalz.Monitor
