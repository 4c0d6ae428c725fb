import LMalz.Ept.Accesses
import LMalz.Ept.Histories

/- The 2MB pages that init makes are mapped to themselves. Copies and splits add no others, so this
is true of every object after any history. -/
namespace LMalz.Ept
open Transition

/-- The 2MB pages that a root finds are mapped to themselves. -/
def IdentityPdes (m : Memory) (r : Frame) : Prop :=
  ∀ gpa pde, Below512G gpa → entryAt m r gpa 2 = some pde → largePage pde = true →
    pageFrameNumber2mb pde = BitField.get gpa 21 27

section Edits
variable {P : Platform} {X : EptCls} {others : List Frame} {s s' : Machine} {m m' : Memory}
  {role : Frame → Option (List Index)} {k n fuel : Nat} {gpa : BitVec 64} {f r x g : Frame}
  {demo pte : Entry} {b : Bool}

theorem IdentityPdes.congr (h : IdentityPdes m r)
    (same : ∀ gpa, Below512G gpa → entryAt m' x gpa 2 = entryAt m r gpa 2) : IdentityPdes m' x :=
  fun gpa pde low he large => h gpa pde low ((same gpa low).symm.trans he) large

theorem IdentityPdes.kept (h : IdentityPdes m r) (kept : Kept m m' r) : IdentityPdes m' r :=
  h.congr fun gpa _ => kept.entry gpa 2 (by omega)

theorem IdentityPdes.remap (h : IdentityPdes s.mem r) (a : Among P X others s role k)
    (low : pml4Index gpa = 0) (room : k < poolPages) (needs : (needRemap s X gpa).1 = n + 1)
    (hf : tableAt s.mem X.eptPml4 gpa n = some f) (hr : role r = some []) :
    IdentityPdes (s.remap P k gpa n f).mem r := by
  have upper := (a.needs_spec low needs).1
  have placed := a.tables.shaped.role_tableAt a.root (by omega) hf
  by_cases reach : tableAt s.mem r gpa n = some f
  case neg => exact h.kept (a.tables.hang_kept room hr placed reach)
  have deeper : tableAt s.mem r gpa (n + 1) ≠ none := by
    have below := a.deeper low needs
    rwa [tableAt_succ, entryAt_eq hf, ← entryAt_eq reach, ← tableAt_succ] at below
  intro gpa' pde low' he large
  by_cases above : place gpa' 3 = place gpa (n + 1)
  · obtain rfl : 2 = n := by have := place_level above; omega
    obtain ⟨e, he', -, small⟩ := remap_hung a.tables room hr upper reach deeper above
    rw [he'] at he
    rw [← Option.some.inj he, small] at large
    cases large
  by_cases here : place gpa' 2 = place gpa (n + 1)
  · obtain rfl : 1 = n := by have := place_level here; omega
    obtain ⟨d, hd, copied⟩ := remap_copied a.tables room hr upper reach deeper here
    rw [copied] at he
    obtain rfl := Option.some.inj he
    rw [largePage_setAccess] at large
    rw [pageFrameNumber2mb_setAccess]
    exact h gpa' d low' hd large
  · rw [remap_elsewhere a.tables room hr upper reach deeper (by omega) above here] at he
    exact h gpa' pde low' he large

theorem IdentityPdes.split (h : IdentityPdes s.mem r) (a : Among P X others s role k)
    (room : k < poolPages) (hf : tableAt s.mem X.eptPml4 gpa 2 = some f) (hr : role r = some []) :
    IdentityPdes (s.split P k gpa f demo).mem r := by
  have placed := a.tables.shaped.role_tableAt a.root (by omega) hf
  by_cases reach : tableAt s.mem r gpa 2 = some f
  case neg =>
    have kept : Kept s.mem (s.split P k gpa f demo).mem r :=
      a.tables.hang_kept room hr placed reach
    exact h.kept kept
  intro gpa' pde low' he large
  have entry : entryAt (s.split P k gpa f demo).mem r gpa' 2 = _ :=
    split_entryAt (X := .root r 0) a.tables room hr reach demo (by omega)
  by_cases above : place gpa' 3 = place gpa 3
  · rw [entry, if_pos above] at he
    rw [← Option.some.inj he, largePage_tableEntry] at large
    cases large
  · rw [entry, if_neg above, if_neg fun same => absurd (place_level same) (by omega)] at he
    exact h gpa' pde low' he large

theorem IdentityPdes.store (h : IdentityPdes s.mem r) (tables : Tables P s role k)
    (hr : role r = some []) (hg : role g = some (place gpa 3)) :
    IdentityPdes (s.store g (ptIndex gpa) pte).mem r := by
  refine h.congr fun gpa' _ => ?_
  rw [store_entryAt tables hr hg (by omega)]
  exact if_neg fun both => absurd (place_level both.2) (by omega)

/-- A call of set_pte keeps this for the object and for all others. -/
theorem Chained.setPte_identityPdes (x : Chained P X others s role k) (low : pml4Index gpa = 0)
    (self : ∀ r ∈ X.eptPml4 :: others, IdentityPdes s.mem r)
    (done : setPte P fuel X gpa pte s = .ok (b, s')) :
    ∀ r ∈ X.eptPml4 :: others, IdentityPdes s'.mem r := by
  have placed : ∀ {t role k}, Among P X others t role k →
      ∀ r ∈ X.eptPml4 :: others, role r = some [] := by
    intro t role k a r hr
    rcases List.mem_cons.mp hr with rfl | other
    · exact a.root
    · exact a.placed r other
  have keeps : Keeps P X others gpa pte
      fun t _ => ∀ r ∈ X.eptPml4 :: others, IdentityPdes t.mem r :=
    ⟨fun t role k n f y room needs hf inv r hr =>
      (inv r hr).remap y.toAmong low room needs hf (placed y.toAmong r hr),
    fun t role k f demo y room _ hf _ _ _ inv r hr =>
      (inv r hr).split y.toAmong room hf (placed y.toAmong r hr)⟩
  obtain ⟨t, role', k', g, reached, inv, -, rfl⟩ := x.setPte_done keeps low self done
  have leaf := reached.tables.shaped.role_tableAt reached.root (Nat.le_refl 3) reached.table
  exact fun r hr => (inv r hr).store reached.tables (placed reached.toAmong r hr) leaf

end Edits

namespace System

/-- The 2MB pages of const_ept and of every object are mapped to themselves. -/
def IdentityPdes (sys : System) : Prop :=
  ∀ r ∈ sys.machine.constEpt :: sys.objects.map EptCls.eptPml4, Ept.IdentityPdes sys.machine.mem r

section Runs
variable {P : Platform} {fuel : Nat} {sys₀ sys sys' : System} {role : Frame → Option (List Index)}
  {k : Nat} {s s' t : Machine} {xs : List EptCls} {x X : EptCls} {gpa : BitVec 64} {pte : Entry}
  {b : Bool} {e : Event} {es : List Event}

theorem IdentityPdes.ready_init (ready : Ready P fuel sys) (enough : 4 ≤ fuel) : sys.IdentityPdes := by
  obtain ⟨⟨s, k, fresh, done⟩, empty⟩ := ready
  obtain ⟨more, rfl⟩ : ∃ more, fuel = more + 4 := ⟨fuel - 4, by omega⟩
  rcases init_cases fresh more with died | ⟨-, refused⟩ |
    ⟨s', s'', done', built, mem, -, -, -, root, -⟩
  · rw [died.1] at done
    cases done
  · rw [refused] at done
    cases done
  obtain rfl : s'' = sys.machine := by
    rw [done'] at done
    cases done
    rfl
  intro r hr
  rw [empty, List.map_nil, List.mem_singleton] at hr
  rw [hr, mem, root]
  intro gpa pde low he large
  obtain ⟨-, -, i2, -⟩ := built.entries low.pml4Index
  rw [i2] at he
  by_cases first : pdptIndex gpa = 0 ∧ pdIndex gpa = 0
  · rw [if_pos first] at he
    rw [← Option.some.inj he, largePage_tableEntry] at large
    cases large
  · rw [if_neg first] at he
    rw [← Option.some.inj he, pageFrameNumber2mb_newPde, pdeAddress_indices' low, get_page2mb]

theorem IdentityPdes.setPte (self : IdentityPdes ⟨s, xs⟩) (h : Sound P ⟨s, xs⟩ role k)
    (known : X ∈ xs) (low : Below512G gpa) (start : t = s ∨ t = s.latch)
    (done : Ept.setPte P fuel X gpa pte t = .ok (b, s')) : IdentityPdes ⟨s', xs⟩ := by
  have mem : t.mem = s.mem := by
    rcases start with rfl | rfl <;> rfl
  obtain ⟨-, -, -, const⟩ := h.setPte known low start done
  have after := (h.chained_latch known start).setPte_identityPdes low.pml4Index (fun r hr => ?_) done
  · intro r hr
    change r ∈ s'.constEpt :: _ at hr
    rw [const] at hr
    refine after r ?_
    rcases List.mem_cons.mp hr with rfl | object
    · exact List.mem_cons_of_mem _ List.mem_cons_self
    · obtain ⟨c, hc, rfl⟩ := List.mem_map.mp object
      by_cases same : c = X
      · rw [same]
        exact List.mem_cons_self
      · exact List.mem_cons_of_mem _ (mem_others hc same)
  · rw [mem]
    refine self r ?_
    rcases List.mem_cons.mp hr with rfl | other
    · exact List.mem_cons_of_mem _ (List.mem_map_of_mem known)
    · rcases List.mem_cons.mp other with rfl | further
      · exact List.mem_cons_self
      · obtain ⟨c, hc, rfl⟩ := List.mem_map.mp further
        exact List.mem_cons_of_mem _ (List.mem_map_of_mem (List.mem_filter.mp hc).1)

/-- A new object finds the 2MB pages of a root that was there before. -/
theorem IdentityPdes.grow {role' : Frame → Option (List Index)} {k' : Nat} {r : Frame}
    (self : IdentityPdes ⟨s, xs⟩) (h : Inv P ⟨s, xs⟩ role k) (c : Constructed P s xs role s' x role' k')
    (source : r ∈ s.constEpt :: xs.map EptCls.eptPml4)
    (same : ∀ gpa, Below512G gpa → entryAt s'.mem x.eptPml4 gpa 2 = entryAt s'.mem r gpa 2) :
    IdentityPdes ⟨s', x :: xs⟩ := by
  have old : ∀ q ∈ s.constEpt :: xs.map EptCls.eptPml4, Ept.IdentityPdes s'.mem q := fun q hq =>
    (self q hq).kept (c.old q (h.placed hq)).2
  intro q hq
  change q ∈ s'.constEpt :: x.eptPml4 :: xs.map EptCls.eptPml4 at hq
  rw [c.const] at hq
  rcases List.mem_cons.mp hq with rfl | object
  · exact old _ List.mem_cons_self
  rcases List.mem_cons.mp object with rfl | before
  · exact (old r source).congr same
  · exact old q (List.mem_cons_of_mem _ before)

theorem IdentityPdes.step (self : sys.IdentityPdes) (h : Sound P sys role k)
    (step : Step P fuel sys e sys') : sys'.IdentityPdes := by
  cases step with
  | @newClone s s' xs x clone known made =>
      obtain ⟨role', k', c⟩ := h.toInv.newClone known made
      obtain ⟨room, hx, -, rfl⟩ := newClone_done h.tables h.ready made
      have source := copied_mem (s := s) known
      refine self.grow h.toInv c source fun gpa _ => ?_
      rw [hx]
      exact (sameTop (h.tables.copyRoot_sameTop room (h.placed source) gpa) 2).1
  | newView made =>
      obtain ⟨role', k', c⟩ := h.toInv.newView made
      obtain ⟨room, hx, -, rfl⟩ := newView_done h.tables h.const h.ready made
      refine self.grow h.toInv c List.mem_cons_self fun gpa low => ?_
      rw [hx]
      exact ((h.tables.view_entries room h.const _ low.pml4Index).2.2 2 (by omega) (by omega)).1
  | setPte known low done => exact self.setPte h known low (.inl rfl) done
  | @setPteAccess s s' xs X gpa a b known low done =>
      obtain ⟨pte, t, start, same⟩ := setPteAccess_eq P fuel X gpa a s
      rw [same] at done
      exact self.setPte h known low start done

theorem IdentityPdes.run (ready : Ready P fuel sys₀) (enough : 4 ≤ fuel)
    (run : Run (Step P fuel) sys₀ es sys) : (∃ role k, Sound P sys role k) ∧ sys.IdentityPdes := by
  refine run.invariant (I := fun sys => (∃ role k, Sound P sys role k) ∧ sys.IdentityPdes)
    (fun {s e t} inv step => ?_) ⟨Sound.ready_init ready enough, IdentityPdes.ready_init ready enough⟩
  obtain ⟨⟨role, k, sound⟩, self⟩ := inv
  obtain ⟨role', k', after, -⟩ := sound.step step
  exact ⟨⟨role', k', after⟩, self.step sound step⟩

end Runs

end System

end LMalz.Ept
