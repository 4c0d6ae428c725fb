import LMalz.Ept.Clones
import LMalz.Monitor.SetTarget
import Mathlib.Logic.Relation

/- The two tables of the monitor are complementary: exactly one of them may execute a page. -/
namespace LMalz.Monitor
open Ept Transition

/-- Two objects that share tables with const_ept only. -/
structure Pair (P : Platform) (X Y : EptCls) (s : Machine) (permX permY : Frame → Access)
    (ownX ownY : Frame → Prop) (role : Frame → Option (List Index)) (k : Nat) : Prop where
  tables : Tables P s role k
  const : role s.constEpt = some []
  rootX : role X.eptPml4 = some []
  rootY : role Y.eptPml4 = some []
  parentX : X.parent = none
  parentY : Y.parent = none
  full : ConstFull s
  mapsX : Maps X [s.constEpt, Y.eptPml4] s permX ownX
  mapsY : Maps Y [s.constEpt, X.eptPml4] s permY ownY

section Pairs
variable {P : Platform} {X Y : EptCls} {s s' : Machine} {permX permY : Frame → Access}
  {ownX ownY : Frame → Prop} {role role' : Frame → Option (List Index)} {k : Nat}

theorem Pair.swap (p : Pair P X Y s permX permY ownX ownY role k) :
    Pair P Y X s permY permX ownY ownX role k :=
  ⟨p.tables, p.const, p.rootY, p.rootX, p.parentY, p.parentX, p.full, p.mapsY, p.mapsX⟩

theorem Pair.among (p : Pair P X Y s permX permY ownX ownY role k) :
    Among P X [s.constEpt, Y.eptPml4] s role k := by
  refine ⟨p.tables, p.rootX, fun r hr => ?_, fun r hr => ?_⟩
  · rcases List.mem_cons.mp hr with rfl | other
    · exact p.const
    · rw [List.mem_singleton.mp other]
      exact p.rootY
  · rw [EptCls.sources_of_parent p.parentX, List.mem_singleton] at hr
    rw [hr]
    exact List.mem_cons_self

theorem Maps.beside (h : Maps Y [s.constEpt, X.eptPml4] s permY ownY) (shaped : Shaped role s.mem)
    (shaped' : Shaped role' s'.mem) (root : role Y.eptPml4 = some [])
    (root' : role' Y.eptPml4 = some []) (const : s'.constEpt = s.constEpt)
    (keptY : Kept s.mem s'.mem Y.eptPml4) (keptC : Kept s.mem s'.mem s.constEpt)
    (other : Maps X [s.constEpt, Y.eptPml4] s' permX ownX) :
    Maps Y [s.constEpt, X.eptPml4] s' permY ownY := by
  refine h.kept shaped shaped' root root' const keptY keptC h.distinct
    fun r hr gpa n low one deep shared => ?_
  rcases List.mem_cons.mp hr with rfl | same
  · rw [const]
    exact shared
  · obtain rfl := List.mem_singleton.mp same
    obtain ⟨f, hy, hx⟩ := shared
    obtain ⟨g, hx', hc⟩ := other.sharing Y.eptPml4 (by simp) gpa n low one deep ⟨f, hx, hy⟩
    rw [hx] at hx'
    exact ⟨f, hy, Option.some.inj hx' ▸ hc⟩

theorem Pair.setPteAccess (p : Pair P X Y s permX permY ownX ownY role k) {gpa : BitVec 64}
    {fuel : Nat} (allowed : Access) (low : Below512G gpa) (allows : allowed ≠ .none)
    (enough : 6 ≤ fuel) :
    Died (setPteAccess P fuel X gpa allowed s) s (k + 4) ∨ ∃ s' role' k',
      setPteAccess P fuel X gpa allowed s = .ok (true, s') ∧
      Pair P X Y s' (Function.update permX (pageOf gpa) allowed) permY
        (fun page => ownX page ∨ page = pageOf gpa) ownY role' k' ∧
      Grown s k s' k' 4 ∧ s'.constEpt = s.constEpt ∧ Kept s.mem s'.mem s.constEpt := by
  refine (p.mapsX.setPteAccess p.full p.among (EptCls.sources_of_parent p.parentX) low allowed allows
    enough).imp_right ?_
  rintro ⟨s', role', k', done, u⟩
  have keptC := u.kept s.constEpt (by simp)
  have keptY := u.kept Y.eptPml4 (by simp)
  have rootY := u.among.placed Y.eptPml4 (by simp)
  have constPlaced := u.among.placed s.constEpt (by simp)
  have beside := Maps.beside p.mapsY p.tables.shaped u.among.tables.shaped p.rootY rootY u.const
    keptY keptC u.maps
  refine ⟨s', role', k', done, ⟨u.among.tables, ?_, u.among.root, rootY, p.parentX, p.parentY,
    u.full, ?_, ?_⟩, u.grown, u.const, keptC⟩
  · rw [u.const]
    exact constPlaced
  · rw [u.const]
    exact u.maps
  · rw [u.const]
    exact beside

end Pairs

/-- What the two tables allow after the pages `passed` were passed to set_pte. -/
def targetPerm (passed : List Frame) (page : Frame) : Access := ⟨true, true, decide (page ∈ passed)⟩
def vicePerm (passed : List Frame) (page : Frame) : Access := ⟨true, true, !decide (page ∈ passed)⟩

theorem targetPerm_cons (passed : List Frame) (page : Frame) :
    Function.update (targetPerm passed) page ⟨true, true, true⟩ = targetPerm (page :: passed) := by
  funext p
  by_cases here : p = page
  · rw [here, Function.update_self]
    simp [targetPerm]
  · rw [Function.update_of_ne here]
    simp [targetPerm, here]

theorem vicePerm_cons (passed : List Frame) (page : Frame) :
    Function.update (vicePerm passed) page ⟨true, true, false⟩ = vicePerm (page :: passed) := by
  funext p
  by_cases here : p = page
  · rw [here, Function.update_self]
    simp [vicePerm]
  · rw [Function.update_of_ne here]
    simp [vicePerm, here]

/-- What the two tables keep over all calls, with `k` pages of the pool taken. -/
def Monitored (P : Platform) (target vice : EptCls) (s : Machine) (passed : List Frame) (k : Nat) :
    Prop :=
  ∃ role, Pair P target vice s (targetPerm passed) (vicePerm passed) (· ∈ passed) (· ∈ passed) role k

/-- Requests of other parts of the hypervisor. -/
def Requests : Machine → Machine → Prop :=
  Relation.ReflTransGen fun s t => ∃ size, 0 ≤ size ∧ size < 2^62 ∧ request size s = .ok t

/-- The machine after ALvmxInit, the start of the first core and ALvmxMNTinit, which returned 1. -/
structure Started (P : Platform) (fuel : Nat) (target vice : EptCls) (s : Machine) : Prop where
  steps : ∃ cold k inited made before coreCount callback added,
    Fresh P cold k ∧ init P fuel cold = .ok (true, inited) ∧
    getViceEpt P inited = .ok (vice, made) ∧ Requests made before ∧ coreCount < 2^31 ∧
    alVmxMntInit P coreCount callback added before = .ok (true, target, s)

section Start
variable {P : Platform} {fuel : Nat} {target vice : EptCls} {s t : Machine}
  {role : Frame → Option (List Index)} {k : Nat}

theorem constClone_request (v : ConstClone P vice s role k) {size : Int} (low : 0 ≤ size)
    (high : size < 2^62) (done : request size s = .ok t) : ∃ k', ConstClone P vice t role k' := by
  rcases request_cases v.tables low high with killed | ⟨lim, k', returned, tables⟩
  · rw [killed] at done
    cases done
  · rw [returned] at done
    cases done
    exact ⟨k', ⟨tables, v.const, v.ready, v.full, v.identity⟩, v.root, v.distinct, v.parent, v.copy⟩

theorem constClone_requests (v : ConstClone P vice s role k) (others : Requests s t) :
    ∃ k', ConstClone P vice t role k' := by
  induction others with
  | refl => exact ⟨k, v⟩
  | tail _ last ih =>
      obtain ⟨k', v'⟩ := ih
      obtain ⟨size, low, high, done⟩ := last
      exact constClone_request v' low high done

/-- After ALvmxMNTinit the vice EPT allows everything and the target EPT execution of nothing. -/
theorem Started.monitored (start : Started P fuel target vice s) (enough : 4 ≤ fuel) :
    ∃ k, Monitored P target vice s [] k := by
  obtain ⟨cold, k, inited, made, before, coreCount, callback, added, fresh, hinit, hvice, others,
    cores, hmnt⟩ := start.steps
  have ready := (ConstReady.init fresh enough hinit).1
  obtain ⟨k, v⟩ := constClone_requests (ready.clone hvice) others
  rw [alVmxMntInit] at hmnt
  rcases request_cases v.tables (show 0 ≤ 8 * (coreCount : Int) by omega) (by omega) with
    killed | ⟨lim, k', infos, -⟩
  · rw [killed] at hmnt
    cases hmnt
  obtain ⟨k, v⟩ := constClone_request v (by omega) (by omega) infos
  rw [infos] at hmnt
  simp only [Outcome.ok_bind] at hmnt
  rcases newView_spec v.tables v.const v.ready ⟨true, true, false⟩ with
    died | ⟨room, x, hx, parent, returned⟩
  · rw [died.1] at hmnt
    cases hmnt
  rw [returned] at hmnt
  injection hmnt with results
  obtain ⟨-, rfl, rfl⟩ := Prod.mk.inj results |>.imp_right Prod.mk.inj
  have allows : (⟨true, true, false⟩ : Access) ≠ .none := by decide
  have view := v.view room ⟨true, true, false⟩
  have nothing : ∀ page, ¬ page ∈ ([] : List Frame) := fun page => List.not_mem_nil
  have apart : x.eptPml4 ≠ vice.eptPml4 := by
    intro same
    have root := v.root
    rw [← same, hx, v.tables.unplaced (Nat.le_refl k) (by omega)] at root
    cases root
  refine ⟨k + 2, _, view.tables, view.const, ?_, view.root, parent, view.parent, view.full,
    v.viewMaps room _ hx allows nothing, view.maps (fun r hr => ?_) nothing⟩
  · rw [hx]
    exact roleOfView_root v.tables room v.const
  · rcases List.mem_cons.mp hr with rfl | same
    · exact v.distinct
    · rw [List.mem_singleton.mp same]
      exact apart

end Start

section Calls
variable {P : Platform} {fuel : Nat} {target vice : EptCls} {s t : Machine} {passed : List Frame}
  {k : Nat}

theorem mem_or_eq (passed : List Frame) (page : Frame) :
    (fun p => p ∈ passed ∨ p = page) = (· ∈ page :: passed) := by
  funext p
  rw [List.mem_cons, or_comm]

/-- Only which pages were passed counts. -/
theorem Monitored.congr {passed' : List Frame} (h : Monitored P target vice s passed k)
    (same : ∀ page, page ∈ passed' ↔ page ∈ passed) : Monitored P target vice s passed' k := by
  obtain ⟨role, p⟩ := h
  have members : (· ∈ passed') = (· ∈ passed) := funext fun page => propext (same page)
  have targets : targetPerm passed' = targetPerm passed := by
    funext page
    rw [targetPerm, targetPerm, decide_eq_decide.mpr (same page)]
  have vices : vicePerm passed' = vicePerm passed := by
    funext page
    rw [vicePerm, vicePerm, decide_eq_decide.mpr (same page)]
  rw [Monitored, members, targets, vices]
  exact ⟨role, p⟩

theorem Monitored.setTargetPage (h : Monitored P target vice s passed k) {pa : BitVec 64}
    (low : Below512G pa) (enough : 6 ≤ fuel) :
    Died (setTargetPage P fuel target vice pa s) s (k + 8) ∨
      ∃ s' k', setTargetPage P fuel target vice pa s = .ok s' ∧
        Monitored P target vice s' (pageOf pa :: passed) k' ∧ Grown s k s' k' 8 ∧
        s'.constEpt = s.constEpt ∧ Kept s.mem s'.mem s.constEpt := by
  obtain ⟨role, p⟩ := h
  rw [Monitor.setTargetPage]
  rcases p.setPteAccess ⟨true, true, true⟩ low (by decide) enough with
    died | ⟨s₁, role₁, k₁, done₁, p₁, grown₁, const₁, kept₁⟩
  · exact .inl ((died.mono (by omega) rfl).bind _)
  rw [targetPerm_cons, mem_or_eq] at p₁
  rw [done₁]
  simp only [Outcome.ok_bind]
  have taken := grown₁.pages
  rcases p₁.swap.setPteAccess ⟨true, true, false⟩ low (by decide) enough with
    died | ⟨s₂, role₂, k₂, done₂, p₂, grown₂, const₂, kept₂⟩
  · exact .inl ((died.mono (by omega) grown₁.upper).bind _)
  rw [vicePerm_cons, mem_or_eq] at p₂
  rw [done₂]
  exact .inr ⟨s₂, k₂, rfl, ⟨role₂, p₂.swap⟩, grown₁.trans grown₂, const₂.trans const₁,
    kept₁.trans (const₁ ▸ kept₂)⟩

theorem Monitored.setTargetPages (h : Monitored P target vice s passed k) {pas : List (BitVec 64)}
    (low : ∀ pa ∈ pas, Below512G pa) (enough : 6 ≤ fuel) :
    Died (setTargetPages P fuel target vice pas s) s (k + 8 * pas.length) ∨
      ∃ s' k', setTargetPages P fuel target vice pas s = .ok s' ∧
        Monitored P target vice s' ((pas.map pageOf).reverse ++ passed) k' ∧
        Grown s k s' k' (8 * pas.length) ∧ s'.constEpt = s.constEpt ∧
        Kept s.mem s'.mem s.constEpt := by
  induction pas generalizing s passed k with
  | nil => exact .inr ⟨s, k, rfl, h, ⟨Nat.le_refl k, rfl⟩, rfl, Kept.refl _ _⟩
  | cons pa pas ih =>
      rw [Monitor.setTargetPages, List.length_cons]
      rcases h.setTargetPage (low pa List.mem_cons_self) enough with
        died | ⟨s₁, k₁, done₁, h₁, grown₁, const₁, kept₁⟩
      · exact .inl ((died.mono (by omega) rfl).bind _)
      rw [done₁]
      simp only [Outcome.ok_bind]
      have taken := grown₁.pages
      rcases ih h₁ fun q hq => low q (List.mem_cons_of_mem pa hq) with
        died | ⟨s₂, k₂, done₂, h₂, grown₂, const₂, kept₂⟩
      · exact .inl (died.mono (by omega) grown₁.upper)
      · have grown := grown₁.trans grown₂
        refine .inr ⟨s₂, k₂, done₂, ?_, ⟨by have := grown.pages; omega, grown.upper⟩,
          const₂.trans const₁, kept₁.trans (const₁ ▸ kept₂)⟩
        rw [List.map_cons, List.reverse_cons, List.append_assoc]
        exact h₂

theorem Monitored.setTargetPage_again (h : Monitored P target vice s passed k) {pa : BitVec 64}
    (low : Below512G pa) (again : pageOf pa ∈ passed) (enough : 6 ≤ fuel) :
    Monitor.setTargetPage P fuel target vice pa s = .ok s := by
  obtain ⟨role, p⟩ := h
  have first := p.mapsX.setPteAccess_again p.among
    (EptCls.sources_of_parent p.parentX) low ⟨true, true, true⟩ again (by simp [targetPerm, again]) enough
  have second := p.mapsY.setPteAccess_again p.swap.among
    (EptCls.sources_of_parent p.parentY) low ⟨true, true, false⟩ again (by simp [vicePerm, again]) enough
  rw [Monitor.setTargetPage, first]
  simp only [Outcome.ok_bind]
  rw [second]
  rfl

theorem Monitored.setTargetPages_again (h : Monitored P target vice s passed k)
    {pas : List (BitVec 64)} (low : ∀ pa ∈ pas, Below512G pa)
    (again : ∀ pa ∈ pas, pageOf pa ∈ passed) (enough : 6 ≤ fuel) :
    Monitor.setTargetPages P fuel target vice pas s = .ok s := by
  induction pas with
  | nil => rfl
  | cons pa pas ih =>
      rw [Monitor.setTargetPages, h.setTargetPage_again (low pa List.mem_cons_self)
        (again pa List.mem_cons_self) enough]
      exact ih (fun q hq => low q (List.mem_cons_of_mem pa hq))
        fun q hq => again q (List.mem_cons_of_mem pa hq)

end Calls

end LMalz.Monitor
