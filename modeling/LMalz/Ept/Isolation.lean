import LMalz.Ept.Clones
import LMalz.Lib.Transition

/- Objects of EPT_CLS side by side: what a set_pte on one object does to the others. -/
namespace LMalz.Ept
open Transition

theorem setPte_kept {P : Platform} {X : EptCls} {others : List Frame} {gpa : BitVec 64}
    {s s' : Machine} {role : Frame → Option (List Index)} {k fuel : Nat} {pte : Entry} {b : Bool}
    (a : Alone P X others gpa s role k) (low : pml4Index gpa = 0) (enough : 6 ≤ fuel)
    (done : setPte P fuel X gpa pte s = .ok (b, s')) :
    b = true ∧ s'.constEpt = s.constEpt ∧ s'.constEptp = s.constEptp ∧
      (∃ role' k', Among P X others s' role' k') ∧ ∀ r ∈ others, Kept s.mem s'.mem r := by
  have outcome := setPte_outcome (fun t => t.constEpt = s.constEpt ∧ t.constEptp = s.constEptp ∧
      ∀ r ∈ others, Kept s.mem t.mem r) pte fuel low
    (fun t role k n f a room needs hf inv =>
      ⟨inv.1, inv.2.1, fun r hr => (inv.2.2 r hr).trans (a.remap_kept low room needs hf hr)⟩)
    (fun t role k f demo a room level hf _ _ inv =>
      ⟨inv.1, inv.2.1, fun r hr => (inv.2.2 r hr).trans (a.split_kept room level hf demo hr).1⟩)
    a ⟨rfl, rfl, fun r _ => Kept.refl s.mem r⟩ enough
  rcases outcome with died | ⟨t, role', k', g, among, inv, -, hg, alone, returned⟩
  · rw [died.1] at done
    cases done
  · rw [returned] at done
    cases done
    have placed := among.tables.shaped.role_tableAt among.root (Nat.le_refl 3) hg
    refine ⟨rfl, inv.1, inv.2.1, ⟨role', k', ⟨among.tables.store placed, among.root, among.placed,
      among.sources⟩⟩, fun r hr => (inv.2.2 r hr).trans ?_⟩
    exact among.tables.store_kept (among.placed r hr) placed fun met => alone r hr ⟨g, hg, met⟩

section Through
variable {P : Platform} {X B : EptCls} {s t : Machine} {role : Frame → Option (List Index)}
  {k fuel : Nat} {perm : Frame → Access} {own : Frame → Prop} {gpa : BitVec 64} {a : Access}

theorem ConstClone.among (v : ConstClone P X s role k) : Among P X [s.constEpt] s role k := by
  refine ⟨v.tables, v.root, fun r hr => ?_, fun r hr => ?_⟩
  · rw [List.mem_singleton.mp hr]
    exact v.const
  · rw [EptCls.sources_of_parent v.parent] at hr
    exact hr

/-- A clone of an object sees what set_pte writes later for a page that the object had made its
own before: need_remap looks at the objects that were copied, not at the copies. -/
theorem Maps.setPteAccess_clone (h : Maps X [s.constEpt] s perm own)
    (x : Among P X [s.constEpt] s role k) (one : X.sources s.constEpt = [s.constEpt])
    (low : Below512G gpa) (ready : s.constEptp ≠ 0) (made : newClone P (some X) s = .ok (B, t))
    (allows : a ≠ .none) (owned : own (pageOf gpa)) (enough : 6 ≤ fuel) :
    ∃ t', Ept.setPteAccess P fuel X gpa a t = .ok (true, t') ∧
      translation t.mem B.eptPml4 gpa = some (pageOf gpa, perm (pageOf gpa)) ∧
      translation t'.mem B.eptPml4 gpa = some (pageOf gpa, a) := by
  obtain ⟨room, hB, -, rfl⟩ := newClone_done x.tables ready made
  have const := x.placed s.constEpt List.mem_cons_self
  have keptX : Kept s.mem (Function.update s.mem (P.page k) (s.mem X.eptPml4)) X.eptPml4 :=
    x.tables.fill_kept room x.root
  have keptC : Kept s.mem (Function.update s.mem (P.page k) (s.mem X.eptPml4)) s.constEpt :=
    x.tables.fill_kept room const
  have tables := x.tables.copyRoot room x.root
  have rootX : roleOfNew P role k [] X.eptPml4 = some [] := roleOfNew_kept x.tables room x.root
  have maps := h.kept x.tables.shaped tables.shaped x.root rootX rfl keptX keptC h.distinct
    fun r hr gpa n _ _ _ shared => List.mem_singleton.mp hr ▸ shared
  refine maps.setPteAccess_through ⟨tables, rootX, fun r hr => ?_, x.sources⟩ one low ?_ ?_ allows owned
    enough
  · rw [List.mem_singleton.mp hr]
    exact roleOfNew_kept x.tables room const
  · rw [hB]
    exact Function.update_self _ _ _
  · rw [hB]
    exact x.tables.copyRoot_sameTop room x.root gpa

end Through

/-- The machine and the objects made so far. -/
structure System where
  machine : Machine
  objects : List EptCls

inductive Event where
  | newClone (clone : Option EptCls)
  | newView (a : Access)
  | setPte (X : EptCls) (gpa : BitVec 64) (pte : Entry)
  | setPteAccess (X : EptCls) (gpa : BitVec 64) (a : Access)

/-- A call that returns. A call that finds no memory does not. -/
inductive Step (P : Platform) (fuel : Nat) : System → Event → System → Prop
  | newClone {s s' : Machine} {xs : List EptCls} {x : EptCls} {clone : Option EptCls}
      (known : ∀ c ∈ clone, c ∈ xs) (made : Ept.newClone P clone s = .ok (x, s')) :
      Step P fuel ⟨s, xs⟩ (.newClone clone) ⟨s', x :: xs⟩
  | newView {s s' : Machine} {xs : List EptCls} {x : EptCls} {a : Access}
      (made : Ept.newView P a s = .ok (x, s')) : Step P fuel ⟨s, xs⟩ (.newView a) ⟨s', x :: xs⟩
  | setPte {s s' : Machine} {xs : List EptCls} {X : EptCls} {gpa : BitVec 64} {pte : Entry} {b : Bool}
      (known : X ∈ xs) (low : Below512G gpa) (done : Ept.setPte P fuel X gpa pte s = .ok (b, s')) :
      Step P fuel ⟨s, xs⟩ (.setPte X gpa pte) ⟨s', xs⟩
  | setPteAccess {s s' : Machine} {xs : List EptCls} {X : EptCls} {gpa : BitVec 64} {a : Access}
      {b : Bool} (known : X ∈ xs) (low : Below512G gpa)
      (done : Ept.setPteAccess P fuel X gpa a s = .ok (b, s')) :
      Step P fuel ⟨s, xs⟩ (.setPteAccess X gpa a) ⟨s', xs⟩

/-- set_pte(GPA, r, w, x) is set_pte of an entry, perhaps after the first look at the MTRRs. -/
theorem setPteAccess_eq (P : Platform) (fuel : Nat) (X : EptCls) (gpa : BitVec 64) (a : Access)
    (s : Machine) : ∃ pte t, (t = s ∨ t = s.latch) ∧
      setPteAccess P fuel X gpa a s = setPte P fuel X gpa (setAccess pte a) t := by
  rw [setPteAccess]
  by_cases absent : getPte s X gpa = 0
  · exact ⟨_, _, .inr rfl, if_pos absent⟩
  · exact ⟨_, _, .inl rfl, if_neg absent⟩

namespace System

/-- The roots seen through anything but `X`. -/
def others (sys : System) (X : EptCls) : List Frame :=
  sys.machine.constEpt :: (sys.objects.filter (· ≠ X)).map EptCls.eptPml4

/-- The first table a set_pte writes is on the way of no other object and not of const_ept. -/
def WritesOwnTable (sys : System) : Event → Prop
  | .setPte X gpa _ | .setPteAccess X gpa _ =>
      ∀ r ∈ sys.others X, ¬ Shares sys.machine.mem X.eptPml4 r gpa (written sys.machine X gpa)
  | .newClone _ | .newView _ => True

/-- The system after init. -/
structure Ready (P : Platform) (fuel : Nat) (sys : System) : Prop where
  inited : ∃ s k, Fresh P s k ∧ init P fuel s = .ok (true, sys.machine)
  empty : sys.objects = []

/-- The roots whose view an event leaves alone. -/
def untouched (sys : System) : Event → List Frame
  | .setPte X _ _ | .setPteAccess X _ _ => sys.others X
  | .newClone _ | .newView _ => sys.machine.constEpt :: sys.objects.map EptCls.eptPml4

/-- What every run keeps. -/
structure Inv (P : Platform) (sys : System) (role : Frame → Option (List Index)) (k : Nat) : Prop where
  tables : Tables P sys.machine role k
  ready : sys.machine.constEptp ≠ 0
  const : role sys.machine.constEpt = some []
  roots : ∀ x ∈ sys.objects, role x.eptPml4 = some []
  parents : ∀ x ∈ sys.objects, ∀ c ∈ x.parent, c ∈ sys.objects

/-- All that is seen through `Y` is as before. -/
def SameThrough (root : Frame) (sys sys' : System) : Prop :=
  ∀ gpa, walk sys'.machine.mem root gpa = walk sys.machine.mem root gpa

section Runs
variable {P : Platform} {fuel : Nat} {sys sys' : System} {role : Frame → Option (List Index)} {k : Nat}

theorem Inv.ready_init (r : Ready P fuel sys) (enough : 4 ≤ fuel) : ∃ role k, Inv P sys role k := by
  obtain ⟨⟨s, k, fresh, done⟩, empty⟩ := r
  obtain ⟨more, rfl⟩ : ∃ more, fuel = more + 4 := ⟨fuel - 4, by omega⟩
  rcases init_cases fresh more with died | ⟨-, refused⟩ |
    ⟨s', s'', done', b, mem, limits, -, -, root, ready⟩
  · rw [died.1] at done
    cases done
  · rw [refused] at done
    cases done
  · obtain rfl : s'' = sys.machine := by
      rw [done'] at done
      cases done
      rfl
    refine ⟨builtRole P k, k + 515, ?_, ready, ?_, ?_, ?_⟩
    · exact b.tables.congr mem limits
    · rw [root]
      exact role_pml4
    · rw [empty]
      exact nofun
    · rw [empty]
      exact nofun

theorem Inv.source (h : Inv P sys role k) {X : EptCls} (known : X ∈ sys.objects) {r : Frame}
    (hr : r ∈ X.sources sys.machine.constEpt) :
    r = sys.machine.constEpt ∨ ∃ c ∈ sys.objects, sizeOf c < sizeOf X ∧ r = c.eptPml4 := by
  induction X with
  | root p v =>
      rw [EptCls.sources, List.mem_singleton] at hr
      exact .inl hr
  | cloneOf p v c ih =>
      have parent := h.parents _ known c rfl
      have smaller : sizeOf c < sizeOf (EptCls.cloneOf p v c) := by
        rw [EptCls.cloneOf.sizeOf_spec]
        omega
      rw [EptCls.sources, List.mem_cons] at hr
      rcases hr with rfl | further
      · exact .inr ⟨c, parent, smaller, rfl⟩
      · rcases ih parent further with const | ⟨c', known', smaller', same⟩
        · exact .inl const
        · exact .inr ⟨c', known', by omega, same⟩

theorem mem_others {X c : EptCls} (known : c ∈ sys.objects) (other : c ≠ X) :
    c.eptPml4 ∈ sys.others X :=
  List.mem_cons_of_mem _ (List.mem_map_of_mem (List.mem_filter.mpr ⟨known, by simpa using other⟩))

theorem Inv.among (h : Inv P sys role k) {X : EptCls} (known : X ∈ sys.objects) :
    Among P X (sys.others X) sys.machine role k where
  tables := h.tables
  root := h.roots X known
  placed := by
    intro r hr
    rcases List.mem_cons.mp hr with rfl | other
    · exact h.const
    · obtain ⟨c, hc, rfl⟩ := List.mem_map.mp other
      exact h.roots c (List.mem_filter.mp hc).1
  sources := by
    intro r hr
    rcases h.source known hr with rfl | ⟨c, hc, smaller, rfl⟩
    · exact List.mem_cons_self
    · refine mem_others hc ?_
      rintro rfl
      omega

theorem Inv.placed (h : Inv P sys role k) {r : Frame}
    (hr : r ∈ sys.machine.constEpt :: sys.objects.map EptCls.eptPml4) : role r = some [] := by
  rcases List.mem_cons.mp hr with rfl | object
  · exact h.const
  · obtain ⟨c, hc, rfl⟩ := List.mem_map.mp object
    exact h.roots c hc

theorem Inv.same (h : Inv P sys role k) {role' : Frame → Option (List Index)} {k' : Nat}
    (h' : Inv P sys' role' k') {r : Frame} (hr : role r = some []) (hr' : role' r = some [])
    (kept : Kept sys.machine.mem sys'.machine.mem r) : SameThrough r sys sys' :=
  fun _ => h.tables.shaped.walk_congr h'.tables.shaped hr hr' fun n deep => kept.entry _ n deep

section Objects
variable {s s' t : Machine} {xs : List EptCls} {X x : EptCls} {gpa : BitVec 64} {pte : Entry} {b : Bool}
  {role' : Frame → Option (List Index)} {k' : Nat}

theorem Inv.edited (h : Inv P ⟨s, xs⟩ role k)
    (after : Among P X (System.others ⟨s, xs⟩ X) s' role' k') (const : s'.constEpt = s.constEpt)
    (pointer : s'.constEptp = s.constEptp) : Inv P ⟨s', xs⟩ role' k' := by
  refine ⟨after.tables, ?_, ?_, fun x hx => ?_, h.parents⟩
  · change s'.constEptp ≠ 0
    rw [pointer]
    exact h.ready
  · change role' s'.constEpt = some []
    rw [const]
    exact after.placed _ List.mem_cons_self
  · by_cases same : x = X
    · rw [same]
      exact after.root
    · exact after.placed _ (mem_others hx same)

theorem Inv.setPte (h : Inv P ⟨s, xs⟩ role k) (enough : 6 ≤ fuel) (known : X ∈ xs)
    (low : Below512G gpa) (start : t = s ∨ t = s.latch)
    (alone : ∀ r ∈ System.others ⟨s, xs⟩ X, ¬ Shares s.mem X.eptPml4 r gpa (written s X gpa))
    (done : Ept.setPte P fuel X gpa pte t = .ok (b, s')) :
    ∃ role' k', Inv P ⟨s', xs⟩ role' k' ∧ ∀ r ∈ System.others ⟨s, xs⟩ X,
      role' r = some [] ∧ Kept s.mem s'.mem r := by
  have among := h.among known
  have mem : t.mem = s.mem := by
    rcases start with rfl | rfl <;> rfl
  have atStart : Alone P X (System.others ⟨s, xs⟩ X) gpa t role k := by
    rcases start with rfl | rfl
    · exact ⟨among, alone⟩
    · exact ⟨⟨among.tables.latch, among.root, among.placed, among.sources⟩, alone⟩
  have const : t.constEpt = s.constEpt ∧ t.constEptp = s.constEptp := by
    rcases start with rfl | rfl <;> exact ⟨rfl, rfl⟩
  obtain ⟨-, const', ready', ⟨role', k', after⟩, kept⟩ :=
    setPte_kept atStart low.pml4Index enough done
  exact ⟨role', k', h.edited after (const'.trans const.1) (ready'.trans const.2), fun r hr =>
    ⟨after.placed r hr, mem ▸ kept r hr⟩⟩

/-- A constructor has made an object: its top table is a new page, and the roots that were there
before keep their view. -/
structure Constructed (P : Platform) (s : Machine) (xs : List EptCls)
    (role : Frame → Option (List Index)) (s' : Machine) (x : EptCls)
    (role' : Frame → Option (List Index)) (k' : Nat) : Prop where
  inv : Inv P ⟨s', x :: xs⟩ role' k'
  const : s'.constEpt = s.constEpt
  new : role x.eptPml4 = none
  old : ∀ r, role r = some [] → role' r = some [] ∧ Kept s.mem s'.mem r

theorem Inv.constructed (h : Inv P ⟨s, xs⟩ role k) (tables : Tables P s' role' k')
    (const : s'.constEpt = s.constEpt) (pointer : s'.constEptp = s.constEptp)
    (root : role' x.eptPml4 = some []) (parent : ∀ c ∈ x.parent, c ∈ xs) (new : role x.eptPml4 = none)
    (old : ∀ r, role r = some [] → role' r = some [] ∧ Kept s.mem s'.mem r) :
    Constructed P s xs role s' x role' k' := by
  refine ⟨⟨tables, ?_, ?_, fun y hy => ?_, fun y hy c hc => ?_⟩, const, new, old⟩
  · change s'.constEptp ≠ 0
    rw [pointer]
    exact h.ready
  · change role' s'.constEpt = some []
    rw [const]
    exact (old _ h.const).1
  · rcases List.mem_cons.mp hy with rfl | before
    · exact root
    · exact (old _ (h.roots y before)).1
  · rcases List.mem_cons.mp hy with rfl | before
    · exact List.mem_cons_of_mem _ (parent c hc)
    · exact List.mem_cons_of_mem _ (h.parents y before c hc)

theorem copied_mem {clone : Option EptCls} (known : ∀ c ∈ clone, c ∈ xs) :
    copied s.constEpt clone ∈ s.constEpt :: xs.map EptCls.eptPml4 := by
  cases clone with
  | none => exact List.mem_cons_self
  | some c => exact List.mem_cons_of_mem _ (List.mem_map_of_mem (known c rfl))

theorem Inv.newClone {clone : Option EptCls} (h : Inv P ⟨s, xs⟩ role k)
    (known : ∀ c ∈ clone, c ∈ xs) (made : Ept.newClone P clone s = .ok (x, s')) :
    ∃ role' k', Constructed P s xs role s' x role' k' := by
  obtain ⟨room, hx, parent, rfl⟩ := newClone_done h.tables h.ready made
  refine ⟨roleOfNew P role k [], k + 1, h.constructed
    (h.tables.copyRoot room (h.placed (copied_mem known))) rfl rfl ?_ (parent ▸ known) ?_ fun r hr =>
    ⟨roleOfNew_kept h.tables room hr, h.tables.fill_kept room hr⟩⟩
  · rw [hx]
    exact Function.update_self _ _ _
  · rw [hx]
    exact h.tables.unplaced (Nat.le_refl k) room

theorem Inv.newView {a : Access} (h : Inv P ⟨s, xs⟩ role k) (made : Ept.newView P a s = .ok (x, s')) :
    ∃ role' k', Constructed P s xs role s' x role' k' := by
  obtain ⟨room, hx, parent, rfl⟩ := newView_done h.tables h.const h.ready made
  refine ⟨roleOfView P role k, k + 2, h.constructed (h.tables.view room h.const a) rfl rfl ?_ ?_ ?_
    fun r hr => ⟨roleOfView_kept h.tables room h.const hr, h.tables.view_kept room h.const hr a⟩⟩
  · rw [hx]
    exact roleOfView_root h.tables room h.const
  · rw [parent]
    exact nofun
  · rw [hx]
    exact h.tables.unplaced (Nat.le_refl k) (by omega)

end Objects

/-- One step keeps the invariant, and what is seen through the roots it does not touch. -/
theorem Inv.step {e : Event} (h : Inv P sys role k) (enough : 6 ≤ fuel)
    (step : Guarded (Step P fuel) WritesOwnTable sys e sys') :
    ∃ role' k', Inv P sys' role' k' ∧ ∀ r ∈ sys.untouched e,
      role r = some [] ∧ role' r = some [] ∧ Kept sys.machine.mem sys'.machine.mem r := by
  obtain ⟨guard, step⟩ := step
  cases step with
  | newClone known made =>
      obtain ⟨role', k', c⟩ := h.newClone known made
      exact ⟨role', k', c.inv, fun r hr => ⟨h.placed hr, c.old r (h.placed hr)⟩⟩
  | newView made =>
      obtain ⟨role', k', c⟩ := h.newView made
      exact ⟨role', k', c.inv, fun r hr => ⟨h.placed hr, c.old r (h.placed hr)⟩⟩
  | @setPte s s' xs X gpa pte b known low done =>
      obtain ⟨role', k', inv, kept⟩ := h.setPte enough known low (.inl rfl) guard done
      exact ⟨role', k', inv, fun r hr => ⟨(h.among known).placed r hr, kept r hr⟩⟩
  | @setPteAccess s s' xs X gpa a b known low done =>
      obtain ⟨pte, t, start, same⟩ := setPteAccess_eq P fuel X gpa a s
      rw [same] at done
      obtain ⟨role', k', inv, kept⟩ := h.setPte enough known low start guard done
      exact ⟨role', k', inv, fun r hr => ⟨(h.among known).placed r hr, kept r hr⟩⟩

theorem Inv.run {sys₀ : System} {es : List Event} (ready : Ready P fuel sys₀) (enough : 6 ≤ fuel)
    (run : Run (Guarded (Step P fuel) WritesOwnTable) sys₀ es sys) : ∃ role k, Inv P sys role k := by
  refine run.invariant (I := fun sys => ∃ role k, Inv P sys role k) (fun {s e t} inv step => ?_)
    (Inv.ready_init ready (by omega))
  obtain ⟨role, k, inv⟩ := inv
  obtain ⟨role', k', inv', -⟩ := inv.step enough step
  exact ⟨role', k', inv'⟩

/-- As long as every set_pte starts to write at a table of its own, no call changes what is seen
through another object or const_ept. -/
theorem isolation {sys₀ : System} {es : List Event} {e : Event} (ready : Ready P fuel sys₀)
    (enough : 6 ≤ fuel) (run : Run (Guarded (Step P fuel) WritesOwnTable) sys₀ es sys)
    (step : Guarded (Step P fuel) WritesOwnTable sys e sys') :
    ∀ r ∈ sys.untouched e, SameThrough r sys sys' := by
  obtain ⟨role, k, inv⟩ := Inv.run ready enough run
  obtain ⟨role', k', inv', kept⟩ := inv.step enough step
  intro r hr
  obtain ⟨old, new, same⟩ := kept r hr
  exact inv.same inv' old new same

end Runs

theorem cold_clone {fuel : Nat} (enough : 4 ≤ fuel) : ∃ s A s₁ role,
    Ready coldPlatform fuel ⟨s, []⟩ ∧ newClone coldPlatform none s = .ok (A, s₁) ∧
    ConstClone coldPlatform A s₁ role 516 ∧ s₁.limits.poolBigMemEnd = Pool.poolSize := by
  obtain ⟨s, done⟩ := init_succeeds coldMachine_fresh enough (by decide) rfl (by decide)
  obtain ⟨v, upper⟩ := ConstReady.init coldMachine_fresh enough done
  have size : s.limits.poolBigMemEnd = Pool.poolSize := upper
  have total : Pool.poolSize = 0xA00000 := rfl
  rcases newClone_spec v.tables none v.ready with died | ⟨room, A, hA, parent, made⟩
  · have short := died.2
    omega
  · exact ⟨s, A, _, _, ⟨⟨coldMachine, 0, coldMachine_fresh, done⟩, rfl⟩, made, v.clone made, size⟩

theorem isolation_cold : ∃ s₀ A s₁ s₂,
    Run (Guarded (Step coldPlatform 6) WritesOwnTable) ⟨s₀, []⟩ [.newClone none] ⟨s₁, [A]⟩ ∧
    Guarded (Step coldPlatform 6) WritesOwnTable ⟨s₁, [A]⟩ (.setPteAccess A 0 ⟨true, true, false⟩)
      ⟨s₂, [A]⟩ ∧
    SameThrough s₁.constEpt ⟨s₁, [A]⟩ ⟨s₂, [A]⟩ := by
  obtain ⟨s₀, A, s₁, role, ready, made, v, upper⟩ := cold_clone (show 4 ≤ 6 by omega)
  have low : Below512G 0 := (by decide : (0 : BitVec 64).toNat < 2^39)
  have one := EptCls.sources_of_parent (c := s₁.constEpt) v.parent
  have maps : Maps A [s₁.constEpt] s₁ (fun _ => .full) fun _ => False :=
    v.maps (fun r hr => List.mem_singleton.mp hr ▸ v.distinct) fun _ => id
  rcases maps.setPteAccess v.full v.among one low ⟨true, true, false⟩ (by decide) (Nat.le_refl 6) with
    died | ⟨s₂, role₂, k₂, done, u⟩
  · have short := died.2
    rw [upper] at short
    exact absurd short (by decide)
  have clone : Guarded (Step coldPlatform 6) WritesOwnTable ⟨s₀, []⟩ (.newClone none) ⟨s₁, [A]⟩ :=
    ⟨trivial, .newClone (fun c none => nomatch none) made⟩
  have alone : WritesOwnTable ⟨s₁, [A]⟩ (.setPteAccess A 0 ⟨true, true, false⟩) := by
    have others : System.others ⟨s₁, [A]⟩ A = [s₁.constEpt] := by simp [System.others]
    intro r hr
    rw [others] at hr
    exact (maps.alone v.among one low).apart r hr
  have step : Guarded (Step coldPlatform 6) WritesOwnTable ⟨s₁, [A]⟩
      (.setPteAccess A 0 ⟨true, true, false⟩) ⟨s₂, [A]⟩ :=
    ⟨alone, .setPteAccess List.mem_cons_self low done⟩
  have run := Run.cons clone (.nil _)
  exact ⟨s₀, A, s₁, s₂, run, step, isolation ready (Nat.le_refl 6) run step _ List.mem_cons_self⟩

/-- Without the condition: EPT_CLS(), set_pte of page 0, a clone of the object, and a set_pte of
page 0 that takes the execute permission away, also from the clone. -/
theorem isolation_broken : ∃ (sys₀ sys sys' : System) (A B : EptCls), Ready coldPlatform 6 sys₀ ∧
    Run (Step coldPlatform 6) sys₀ [.newClone none, .setPteAccess A 0 .full, .newClone (some A)] sys ∧
    Step coldPlatform 6 sys (.setPteAccess A 0 ⟨true, true, false⟩) sys' ∧
    B.eptPml4 ∈ sys.untouched (.setPteAccess A 0 ⟨true, true, false⟩) ∧
    translation sys.machine.mem B.eptPml4 0 = some (0, .full) ∧
    translation sys'.machine.mem B.eptPml4 0 = some (0, ⟨true, true, false⟩) := by
  obtain ⟨s₀, A, s₁, role, ready, made, v, upper⟩ := cold_clone (show 4 ≤ 6 by omega)
  have low : Below512G 0 := (by decide : (0 : BitVec 64).toNat < 2^39)
  have one := EptCls.sources_of_parent (c := s₁.constEpt) v.parent
  have maps : Maps A [s₁.constEpt] s₁ (fun _ => .full) fun _ => False :=
    v.maps (fun r hr => List.mem_singleton.mp hr ▸ v.distinct) fun _ => id
  rcases maps.setPteAccess v.full v.among one low .full (by decide) (Nat.le_refl 6) with
    died | ⟨s₂, role₂, k₂, done, u⟩
  · have short := died.2
    rw [upper] at short
    exact absurd short (by decide)
  have ready₂ : s₂.constEptp ≠ 0 := by
    rw [u.pointer]
    exact v.ready
  rcases newClone_spec u.among.tables (some A) ready₂ with died | ⟨room, B, hB, parent, made₂⟩
  · have short := died.2
    have pages := u.grown.pages
    have size : Pool.poolSize = 0xA00000 := rfl
    rw [u.grown.upper, upper] at short
    omega
  have same : [s₁.constEpt] = [s₂.constEpt] := by rw [u.const]
  have among := u.among
  have maps₂ := u.maps
  rw [same] at among maps₂
  have one₂ := EptCls.sources_of_parent (c := s₂.constEpt) v.parent
  obtain ⟨s₄, done₂, before, after⟩ := maps₂.setPteAccess_clone (a := ⟨true, true, false⟩) among one₂ low
    ready₂ made₂ (by decide) (.inr rfl) (Nat.le_refl 6)
  have other : B ≠ A := by
    rintro rfl
    rw [v.parent] at parent
    cases parent
  have known : A ∈ [B, A] := by simp
  have page : pageOf 0 = 0 := by decide
  rw [Function.update_self, page] at before
  rw [page] at after
  exact ⟨⟨s₀, []⟩, ⟨_, [B, A]⟩, ⟨s₄, [B, A]⟩, A, B, ready,
    .cons (.newClone (fun c none => nomatch none) made) (.cons
      (.setPteAccess List.mem_cons_self low done) (.cons
      (.newClone (fun c hc => Option.some.inj hc ▸ List.mem_cons_self) made₂) (.nil _))),
    .setPteAccess known low done₂, mem_others List.mem_cons_self other, before, after⟩

end System


end LMalz.Ept
