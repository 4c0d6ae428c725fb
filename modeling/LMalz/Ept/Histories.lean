import LMalz.Ept.Chains
import LMalz.Ept.Isolation
import LMalz.Ept.Recursion
import Mathlib.Data.List.Nodup

/- What holds of every object after any history of constructors and set_pte. -/
namespace LMalz.Ept
open Transition

namespace System

/-- The top tables of const_ept and of all objects are different pages. -/
structure Sound (P : Platform) (sys : System) (role : Frame → Option (List Index)) (k : Nat) : Prop
    extends Inv P sys role k where
  apart : (sys.machine.constEpt :: sys.objects.map EptCls.eptPml4).Nodup

section Histories
variable {P : Platform} {fuel : Nat} {sys sys' : System} {role role' : Frame → Option (List Index)}
  {k k' : Nat} {s s' t : Machine} {xs : List EptCls} {x X : EptCls} {gpa : BitVec 64} {pte : Entry}
  {b : Bool}

theorem Sound.others_ne (h : Sound P sys role k) (known : X ∈ sys.objects) {r : Frame}
    (hr : r ∈ sys.others X) : r ≠ X.eptPml4 := by
  obtain ⟨const, unique⟩ := List.nodup_cons.mp h.apart
  rcases List.mem_cons.mp hr with rfl | other
  · intro same
    exact const (same ▸ List.mem_map_of_mem known)
  · obtain ⟨c, hc, rfl⟩ := List.mem_map.mp other
    obtain ⟨member, ne⟩ := List.mem_filter.mp hc
    intro same
    exact absurd (List.inj_on_of_nodup_map unique member known same) (by simpa using ne)

theorem Sound.chained (h : Sound P sys role k) (known : X ∈ sys.objects) :
    Chained P X (sys.others X) sys.machine role k :=
  ⟨h.among known, fun _ hr => h.others_ne known ((h.among known).sources _ hr)⟩

theorem Sound.ready_init (r : Ready P fuel sys) (enough : 4 ≤ fuel) : ∃ role k, Sound P sys role k := by
  obtain ⟨role, k, inv⟩ := Inv.ready_init r enough
  refine ⟨role, k, inv, ?_⟩
  rw [r.empty]
  exact List.nodup_singleton _

theorem Sound.grow (h : Sound P ⟨s, xs⟩ role k) (c : Constructed P s xs role s' x role' k') :
    Sound P ⟨s', x :: xs⟩ role' k' := by
  obtain ⟨notRoot, unique⟩ := List.nodup_cons.mp h.apart
  have differs : x.eptPml4 ∉ s.constEpt :: xs.map EptCls.eptPml4 := by
    intro met
    have placed := h.toInv.placed met
    rw [c.new] at placed
    cases placed
  rw [List.mem_cons, not_or] at differs
  refine ⟨c.inv, ?_⟩
  change (s'.constEpt :: x.eptPml4 :: xs.map EptCls.eptPml4).Nodup
  rw [c.const]
  refine List.nodup_cons.mpr ⟨fun met => ?_, List.nodup_cons.mpr ⟨differs.2, unique⟩⟩
  rcases List.mem_cons.mp met with same | old
  · exact differs.1 same.symm
  · exact notRoot old

/-- set_pte starts with the machine of the system, perhaps after the first look at the MTRRs. -/
theorem Sound.chained_latch (h : Sound P ⟨s, xs⟩ role k) (known : X ∈ xs) (start : t = s ∨ t = s.latch) :
    Chained P X (System.others ⟨s, xs⟩ X) t role k := by
  have x := h.chained known
  rcases start with rfl | rfl
  · exact x
  · exact ⟨⟨x.tables.latch, x.root, x.placed, x.sources⟩, x.distinct⟩

theorem Sound.setPte (h : Sound P ⟨s, xs⟩ role k) (known : X ∈ xs) (low : Below512G gpa)
    (start : t = s ∨ t = s.latch) (done : Ept.setPte P fuel X gpa pte t = .ok (b, s')) :
    ∃ role' k', Sound P ⟨s', xs⟩ role' k' ∧ s'.constEpt = s.constEpt := by
  have chained := h.chained_latch known start
  have const : t.constEpt = s.constEpt ∧ t.constEptp = s.constEptp := by
    rcases start with rfl | rfl <;> exact ⟨rfl, rfl⟩
  have keeps : Keeps P X (System.others ⟨s, xs⟩ X) gpa pte
      fun u _ => u.constEpt = s.constEpt ∧ u.constEptp = s.constEptp :=
    ⟨fun _ _ _ _ _ _ _ _ _ inv => inv, fun _ _ _ _ _ _ _ _ _ _ _ _ inv => inv⟩
  obtain ⟨u, role', k', g, reached, inv, -, rfl⟩ :=
    chained.setPte_done keeps low.pml4Index const done
  have after := (reached.store pte).toAmong
  refine ⟨role', k', ⟨h.toInv.edited after inv.1 inv.2, ?_⟩, inv.1⟩
  change (u.constEpt :: _).Nodup
  rw [inv.1]
  exact h.apart

theorem Sound.step {e : Event} (h : Sound P sys role k) (step : Step P fuel sys e sys') :
    ∃ role' k', Sound P sys' role' k' ∧ sys'.machine.constEpt = sys.machine.constEpt := by
  cases step with
  | newClone known made =>
      obtain ⟨role', k', c⟩ := h.toInv.newClone known made
      exact ⟨role', k', h.grow c, c.const⟩
  | newView made =>
      obtain ⟨role', k', c⟩ := h.toInv.newView made
      exact ⟨role', k', h.grow c, c.const⟩
  | setPte known low done => exact h.setPte known low (.inl rfl) done
  | @setPteAccess s s' xs X gpa a b known low done =>
      obtain ⟨pte, t, start, same⟩ := setPteAccess_eq P fuel X gpa a s
      rw [same] at done
      exact h.setPte known low start done

theorem Sound.run {sys₀ : System} {es : List Event} (ready : Ready P fuel sys₀) (enough : 4 ≤ fuel)
    (run : Run (Step P fuel) sys₀ es sys) : ∃ role k, Sound P sys role k := by
  refine run.invariant (I := fun sys => ∃ role k, Sound P sys role k) (fun {s e t} inv step => ?_)
    (Sound.ready_init ready enough)
  obtain ⟨role, k, inv⟩ := inv
  obtain ⟨role', k', after, -⟩ := inv.step step
  exact ⟨role', k', after⟩

end Histories

end System

end LMalz.Ept
