import LMalz.Ept.Foreseen
import LMalz.Ept.Termination

/- Whether a set_pte changes what its object maps for other pages, and when. -/
namespace LMalz.Ept
open Transition

section Pages
variable {gpa gpa' : BitVec 64}

theorem place_ne_of_page (low : Below512G gpa) (low' : Below512G gpa')
    (other : gpa' >>> 12 ≠ gpa >>> 12) : place gpa' 4 ≠ place gpa 4 := by
  intro same
  have page := congrArg BitVec.toNat ((pageOf_eq_iff low low').mpr same)
  have small : gpa.toNat < 2^39 := low
  have small' : gpa'.toNat < 2^39 := low'
  refine other (BitVec.eq_of_toNat_eq ?_)
  simp only [pageOf, BitField.toNat_get] at page
  rw [BitVec.toNat_ushiftRight, BitVec.toNat_ushiftRight, Nat.shiftRight_eq_div_pow,
    Nat.shiftRight_eq_div_pow]
  omega

theorem exists_other_page (low : Below512G gpa) : ∃ gpa', Below512G gpa' ∧
    gpa' >>> 12 ≠ gpa >>> 12 ∧ place gpa' 3 = place gpa 3 := by
  have index : ptIndex (BitField.set gpa 12 (ptIndex gpa + 1)) = ptIndex gpa + 1 :=
    BitField.get_set _ (by omega)
  refine ⟨BitField.set gpa 12 (ptIndex gpa + 1), ?_, fun same => ?_, ?_⟩
  · have small : gpa.toNat < 2^39 := low
    have above := congrArg BitVec.toNat
      (show BitField.get (BitField.set gpa 12 (ptIndex gpa + 1)) 39 25 = BitField.get gpa 39 25 from
        BitField.get_set_apart _ (.inl (by omega)))
    rw [BitField.toNat_get, BitField.toNat_get] at above
    have bound := (BitField.set gpa 12 (ptIndex gpa + 1)).isLt
    rw [Below512G]
    omega
  · have pages := congrArg (fun v => BitVec.toNat v % 2^9) same
    simp only [BitVec.toNat_ushiftRight, Nat.shiftRight_eq_div_pow, ← BitField.toNat_get] at pages
    have equal : ptIndex gpa + 1 = ptIndex gpa := index.symm.trans (BitVec.eq_of_toNat_eq pages)
    exact absurd equal (by simp)
  · simp (disch := omega) only [place, indexAt, pml4Index, pdptIndex, pdIndex,
      BitField.get_set_apart]

end Pages

/-- The mappings of all other 4KB pages are the same. -/
def OnlyPage (X : EptCls) (gpa : BitVec 64) (s s' : Machine) : Prop :=
  ∀ gpa' : BitVec 64, gpa' >>> 12 ≠ gpa >>> 12 →
    translation s'.mem X.eptPml4 gpa' = translation s.mem X.eptPml4 gpa'

/-- What the overwritten entries forbid on the way of another page, the other entries of that way
forbid too; and an absent pde leaves its pages unmapped. -/
structure Harmless (s : Machine) (X : EptCls) (gpa : BitVec 64) (pte : Entry) (i : Nat) : Prop where
  copies : ∀ gpa', Below512G gpa' → gpa' >>> 12 ≠ gpa >>> 12 →
    allowed (uncopied s.mem X.eptPml4 gpa i gpa') = allowed (accessAt s.mem X.eptPml4 gpa')
  absent : PdeAbsent s.mem X.eptPml4 gpa i → access pte = .none ∨
    ∃ l, l < min (i - 1) 2 ∧ accessAt s.mem X.eptPml4 gpa l = .none

section Calls
variable {P : Platform} {X : EptCls} {others : List Frame} {gpa gpa' : BitVec 64} {pte : Entry}
  {s s' : Machine} {role : Frame → Option (List Index)} {k i fuel : Nat} {b : Bool}

theorem PdeAbsent.unmapped (absent : PdeAbsent s.mem X.eptPml4 gpa i)
    (here : place gpa' 3 = place gpa 3) : allowed (accessAt s.mem X.eptPml4 gpa') = none :=
  allowed_eq_none.mpr ⟨min (i - 1) 2, by omega,
    (accessAt_place (place_le (by omega) here)).trans absent.1⟩

theorem harmless_iff (low : Below512G gpa) (positive : 1 ≤ i) :
    (∀ gpa', Below512G gpa' → gpa' >>> 12 ≠ gpa >>> 12 →
      allowed (foreseen s.mem X.eptPml4 gpa pte i gpa') = allowed (accessAt s.mem X.eptPml4 gpa')) ↔
    Harmless s X gpa pte i := by
  constructor
  · intro same
    refine ⟨fun gpa' low' other => ?_, fun absent => ?_⟩
    · by_cases missing : PdeAbsent s.mem X.eptPml4 gpa i ∧ place gpa' 3 = place gpa 3
      · rw [missing.1.unmapped missing.2]
        refine allowed_eq_none.mpr ⟨min (i - 1) 2, by omega, ?_⟩
        rw [uncopied, if_neg (by omega), accessAt_place (place_le (by omega) missing.2)]
        exact missing.1.1
      · rw [← same gpa' low' other]
        exact allowed_congr fun l _ => (if_neg missing).symm
    · obtain ⟨gpa', low', other, here⟩ := exists_other_page low
      have blocked := (same gpa' low' other).trans (absent.unmapped here)
      obtain ⟨l, deep, none⟩ := allowed_eq_none.mp blocked
      rw [foreseen, if_pos ⟨absent, here⟩] at none
      by_cases above : l < min (i - 1) 2
      · rw [if_pos above, accessAt_place (place_le (by omega) here)] at none
        exact .inr ⟨l, above, none⟩
      · rw [if_neg above] at none
        by_cases leaf : l = 3
        · rw [if_pos leaf] at none
          exact .inl none
        · rw [if_neg leaf] at none
          exact absurd none (by decide)
  · intro harmless gpa' low' other
    by_cases missing : PdeAbsent s.mem X.eptPml4 gpa i ∧ place gpa' 3 = place gpa 3
    · rw [missing.1.unmapped missing.2]
      rcases harmless.absent missing.1 with forbids | ⟨l, above, none⟩
      · exact allowed_eq_none.mpr ⟨3, by omega, by
          rw [foreseen, if_pos missing, if_neg (by omega), if_pos rfl, forbids]⟩
      · exact allowed_eq_none.mpr ⟨l, by omega, by
          rw [foreseen, if_pos missing, if_pos above,
            accessAt_place (place_le (by omega) missing.2), none]⟩
    · rw [← harmless.copies gpa' low' other]
      exact allowed_congr fun l _ => if_neg missing

/-- A call that returned has set its entry, and other pages are mapped as foreseen. -/
theorem Chained.setPte_foreseen (x : Chained P X others s role k) (low : Below512G gpa)
    (top : TopShared s X gpa i) (pdes : IdentityPdes s.mem X.eptPml4)
    (done : setPte P fuel X gpa pte s = .ok (b, s')) :
    getPte s' X gpa = pte ∧ (∃ role', Shaped role' s'.mem ∧ role' X.eptPml4 = some []) ∧
    ∀ gpa', Below512G gpa' → gpa' >>> 12 ≠ gpa >>> 12 →
      allowed (accessAt s'.mem X.eptPml4 gpa') =
        allowed (foreseen s.mem X.eptPml4 gpa pte i gpa') ∧
      (frameAt s'.mem X.eptPml4 gpa' = frameAt s.mem X.eptPml4 gpa' ∨
        PdeAbsent s.mem X.eptPml4 gpa i ∧ place gpa' 3 = place gpa 3) := by
  have keeps : Keeps P X others gpa pte fun t _ => ∃ j, Foreseen X gpa pte s i t j :=
    ⟨fun t role k n f y room needs hf ⟨j, inv⟩ => inv.remap y low.pml4Index room needs hf,
      fun t role k f demo y room needs hf large same absent ⟨j, inv⟩ =>
        inv.split y low room needs hf large same absent⟩
  obtain ⟨t, role', k', g, reached, ⟨j, inv⟩, -, rfl⟩ :=
    x.setPte_done keeps low.pml4Index ⟨i, .start top pdes⟩ done
  have after := reached.store pte
  refine ⟨reached.getPte low.pml4Index pte, ⟨role', after.tables.shaped, after.root⟩,
    fun gpa' low' other => ?_⟩
  have needs := reached.needs_zero low.pml4Index
  obtain rfl := inv.top.last reached.toChained low.pml4Index needs
  obtain ⟨f, hf⟩ := reached.tables.shaped.upperTable reached.root low.pml4Index (Nat.le_refl 2)
  have present : ¬ PdeAbsent t.mem X.eptPml4 gpa 4 := by
    intro absent
    have pde : access (t.mem f (indexAt gpa 2)) = .none :=
      (accessAt_eq (entryAt_eq hf)).symm.trans absent.1
    have level := reached.level
    rw [reached.written_leaf low.pml4Index needs hf, if_pos (.inl pde)] at level
    omega
  have placed := reached.tables.shaped.role_tableAt reached.root (Nat.le_refl 3) reached.table
  have entries : ∀ l, l ≤ 3 → entryAt (t.store g (ptIndex gpa) pte).mem X.eptPml4 gpa' l =
      entryAt t.mem X.eptPml4 gpa' l := fun l deep =>
    store_other reached.tables reached.root placed (place_ne_of_page low low' other) deep
  constructor
  · rw [← inv.access gpa' low']
    refine allowed_congr fun l deep => ?_
    rw [accessAt_congr (entries l deep), foreseen, if_neg fun both => present both.1, uncopied,
      if_neg (by omega)]
  · rw [frameAt_congr (entries 3 (by omega)) (entries 2 (by omega))]
    exact inv.frame gpa' low'

theorem Chained.setPte_only_page (x : Chained P X others s role k) (low : Below512G gpa)
    (top : TopShared s X gpa i) (pdes : IdentityPdes s.mem X.eptPml4)
    (done : setPte P fuel X gpa pte s = .ok (b, s')) :
    OnlyPage X gpa s s' ↔ Harmless s X gpa pte i := by
  obtain ⟨-, ⟨role', shaped, root⟩, after⟩ := x.setPte_foreseen low top pdes done
  have before : ∀ gpa', Below512G gpa' → translation s.mem X.eptPml4 gpa' = _ := fun gpa' low' =>
    x.tables.shaped.translation_allowed x.root low'
  have now : ∀ gpa', Below512G gpa' → translation s'.mem X.eptPml4 gpa' = _ := fun gpa' low' =>
    shaped.translation_allowed root low'
  rw [← harmless_iff low top.positive]
  constructor
  · intro only gpa' low' other
    have same := congrArg (Option.map Prod.snd) (only gpa' other)
    rw [before gpa' low', now gpa' low', Option.map_map, Option.map_map] at same
    change Option.map id _ = Option.map id _ at same
    rw [Option.map_id, id, id] at same
    exact (after gpa' low' other).1.symm.trans same
  · intro same gpa' other
    by_cases low' : Below512G gpa'
    case neg =>
      rw [translation, translation, walk_upper shaped root low',
        walk_upper x.tables.shaped x.root low']
    obtain ⟨allows, frames⟩ := after gpa' low' other
    rw [before gpa' low', now gpa' low', allows, same gpa' low' other]
    rcases frames with frame | ⟨absent, here⟩
    · rw [frame]
    · rw [absent.unmapped here]
      rfl

end Calls

namespace System

/-- set_pte on an object that any history has made sets its entry. The other pages keep their
mappings exactly if the permissions that get lost on the way were of no effect. -/
theorem setPte_only_page_iff {P : Platform} {fuel₀ fuel : Nat} {sys₀ sys : System} {es : List Event}
    {X : EptCls} {gpa : BitVec 64} {pte : Entry} {s' : Machine} (ready : Ready P fuel₀ sys₀)
    (inited : 4 ≤ fuel₀) (run : Run (Step P fuel₀) sys₀ es sys) (known : X ∈ sys.objects)
    (low : Below512G gpa) (done : Ept.setPte P fuel X gpa pte sys.machine = .ok (true, s')) :
    getPte s' X gpa = pte ∧
      (OnlyPage X gpa sys.machine s' ↔
        ∃ i, TopShared sys.machine X gpa i ∧ Harmless sys.machine X gpa pte i) := by
  obtain ⟨⟨role, k, sound⟩, pdes⟩ := IdentityPdes.run ready inited run
  have x := sound.chained known
  have own := pdes _ (List.mem_cons_of_mem _ (List.mem_map_of_mem known))
  obtain ⟨i, top⟩ := x.topShared
  refine ⟨(x.setPte_foreseen low top own done).1, fun only => ?_, ?_⟩
  · exact ⟨i, top, (x.setPte_only_page low top own done).mp only⟩
  · rintro ⟨j, top', harmless⟩
    exact (x.setPte_only_page low top' own done).mpr harmless

theorem harmless_of_full {s : Machine} {X : EptCls} {gpa : BitVec 64} {pte : Entry} {i : Nat}
    (low : Below512G gpa) (full : ∀ gpa' l, Below512G gpa' → l ≤ 3 →
      accessAt s.mem X.eptPml4 gpa' l = .full) : Harmless s X gpa pte i := by
  refine ⟨fun gpa' low' _ => allowed_congr fun l deep => ?_, fun absent => ?_⟩
  · rw [uncopied, full gpa' l low' deep, ite_self]
  · exact absurd ((full gpa _ low (by omega)).symm.trans absent.1) (by decide)

theorem setPte_only_page_iff_copy : ∃ s₀ A s s',
    Run (Step coldPlatform (poolPages + 2)) ⟨s₀, []⟩ [.newClone none] ⟨s, [A]⟩ ∧
    Ept.setPte coldPlatform (poolPages + 2) A 0 0x5 s = .ok (true, s') ∧ getPte s' A 0 = 0x5 ∧
    OnlyPage A 0 s s' := by
  obtain ⟨s₀, A, s, role, ready, made, v, upper⟩ :=
    cold_clone (show 4 ≤ poolPages + 2 by decide)
  have run : Run (Step coldPlatform (poolPages + 2)) ⟨s₀, []⟩ [.newClone none] ⟨s, [A]⟩ :=
    .cons (.newClone (fun c none => nomatch none) made) (.nil _)
  have low : Below512G 0 := (by decide : (0 : BitVec 64).toNat < 2^39)
  obtain ⟨role', k, sound⟩ := Sound.run ready (by decide) run
  have x := sound.chained (X := A) List.mem_cons_self
  rcases x.setPte_returns low (Nat.le_refl (poolPages + 2)) 0x5 with ⟨s', done, -⟩ | ⟨-, short⟩
  · obtain ⟨entry, iff⟩ := setPte_only_page_iff ready (by decide) run List.mem_cons_self low done
    obtain ⟨i, top⟩ := x.topShared
    refine ⟨s₀, A, s, s', run, done, entry, iff.mpr ⟨i, top, harmless_of_full low
      fun gpa' l low' deep => ?_⟩⟩
    change accessAt s.mem A.eptPml4 gpa' l = .full
    cases he : entryAt s.mem A.eptPml4 gpa' l with
    | none => exact accessAt_none he
    | some e =>
        rw [accessAt_eq he]
        exact v.full gpa' l e low' deep (((v.copy gpa' l low' deep).1).symm.trans he)
  · have usable := v.tables.usable
    have size : Pool.poolSize = 0xA00000 := rfl
    rw [Short, pagesBound, EptCls.sources_of_parent v.parent, List.length_singleton] at short
    change s.limits.poolBigMemEnd < s.limits.poolUsable + _ at short
    omega

theorem cold_view : ∃ s₀ A s, Ready coldPlatform (poolPages + 2) ⟨s₀, []⟩ ∧
    Step coldPlatform (poolPages + 2) ⟨s₀, []⟩ (.newView .none) ⟨s, [A]⟩ ∧ A.parent = none ∧
    accessAt s.mem A.eptPml4 0x200000 0 = .full ∧ accessAt s.mem A.eptPml4 0x200000 1 = .none ∧
    tableAt s.mem A.eptPml4 0x200000 3 = none ∧ TopShared s A 0x200000 2 ∧
    s.limits.poolUsable = 0x1000 * 517 ∧ s.limits.poolBigMemEnd = Pool.poolSize := by
  have enough : 4 ≤ poolPages + 2 := by decide
  have low : Below512G 0x200000 := (by decide : (0x200000 : BitVec 64).toNat < 2^39)
  obtain ⟨s₀, done⟩ := init_succeeds coldMachine_fresh enough (by decide) rfl (by decide)
  obtain ⟨v, upper⟩ := ConstReady.init coldMachine_fresh enough done
  have size : s₀.limits.poolBigMemEnd = Pool.poolSize := upper
  have total : Pool.poolSize = 0xA00000 := rfl
  have leaf : tableAt s₀.mem s₀.constEpt 0x200000 3 = none := by
    rcases init_cases coldMachine_fresh (poolPages - 2) with died | ⟨-, refused⟩ |
      ⟨s', s'', done', built, mem, -, -, -, root, -⟩
    · have lost := died.1.symm.trans done
      cases lost
    · have lost := refused.symm.trans done
      cases lost
    obtain rfl : s'' = s₀ := by
      have same := done'.symm.trans done
      cases same
      rfl
    obtain ⟨-, -, pde, -⟩ := built.entries low.pml4Index
    rw [if_neg (by decide)] at pde
    rw [mem, root, tableAt_succ, pde, Option.bind_some, child, if_pos (.inl (largePage_newPde _ _))]
  rcases newView_spec v.tables v.const v.ready .none with died | ⟨room, A, hA, parent, made⟩
  · have short := died.2
    omega
  have const := v.tables.view_kept room v.const v.const .none
  obtain ⟨⟨e, d, h0, h0', h1, h1'⟩, t1, lower⟩ :=
    v.tables.view_entries room v.const .none low.pml4Index
  rw [← hA] at h0' h1' t1 lower
  refine ⟨s₀, A, _, ⟨⟨coldMachine, 0, coldMachine_fresh, done⟩, rfl⟩, .newView made, parent, ?_, ?_, ?_,
    ⟨by omega, by omega, fun _ => ?_, fun r hr j above => ?_⟩, rfl, size⟩
  · refine (accessAt_eq h0').trans ?_
    rw [access_setPageFrameNumber]
    exact v.full _ 0 e low (by omega) ((const.entry _ 0 (by omega)).symm.trans h0)
  · exact (accessAt_eq h1').trans (access_setAccess _ _)
  · exact ((lower 3 (by omega) (by omega)).2).trans ((const.table _ 3 (by omega)).trans leaf)
  · obtain ⟨g, hg⟩ := v.tables.shaped.upperTable v.const low.pml4Index (Nat.le_refl 2)
    have shared := (const.table 0x200000 2 (by omega)).trans hg
    exact ⟨s₀.constEpt, by rw [EptCls.sources_of_parent parent]; exact List.mem_singleton_self _, g,
      ((lower 2 (by omega) (by omega)).2).trans shared, shared⟩
  · rw [EptCls.sources_of_parent parent, List.mem_singleton] at hr
    change r = s₀.constEpt at hr
    subst hr
    have new : ∀ j n, j ≤ 3 → 515 ≤ n → n < poolPages →
        tableAt (s₀.view coldPlatform (0 + 515) .none).mem s₀.constEpt 0x200000 j ≠
          some (coldPlatform.page n) := by
      intro j n deep later inside met
      rw [const.table _ j deep] at met
      have placed := v.tables.shaped.role_tableAt v.const deep met
      rw [v.tables.unplaced (by omega) inside] at placed
      cases placed
    rintro ⟨g, left, right⟩
    obtain rfl | rfl : j = 0 ∨ j = 1 := by omega
    · obtain rfl : A.eptPml4 = g := Option.some.inj left
      rw [hA] at right
      exact new 0 _ (by omega) (by omega) (by omega) right
    · obtain rfl := Option.some.inj (t1.symm.trans left)
      exact new 1 _ (by omega) (by omega) room right

/-- EPT_CLS(false, false, false) maps nothing. When one page of the second 2MB is set, the page behind
it appears as well. -/
theorem setPte_maps_another_page : ∃ s₀ A s s', Ready coldPlatform (poolPages + 2) ⟨s₀, []⟩ ∧
    Run (Step coldPlatform (poolPages + 2)) ⟨s₀, []⟩ [.newView .none] ⟨s, [A]⟩ ∧
    Ept.setPte coldPlatform (poolPages + 2) A 0x200000 0x200007 s = .ok (true, s') ∧
    translation s.mem A.eptPml4 0x201000 = none ∧
    (∃ frame, translation s'.mem A.eptPml4 0x201000 = some (frame, .full)) ∧
    ¬ OnlyPage A 0x200000 s s' := by
  obtain ⟨s₀, A, s, ready, step, parent, top, forbids, leaf, shared, usable, upper⟩ := cold_view
  have run := Run.cons step (.nil _)
  obtain ⟨⟨role, k, sound⟩, pdes⟩ := IdentityPdes.run ready (by decide) run
  have x := sound.chained (X := A) List.mem_cons_self
  have low : Below512G 0x200000 := (by decide : (0x200000 : BitVec 64).toNat < 2^39)
  have low' : Below512G 0x201000 := (by decide : (0x201000 : BitVec 64).toNat < 2^39)
  have here : place 0x201000 3 = place (0x200000 : BitVec 64) 3 := by decide
  have other : (0x201000 : BitVec 64) >>> 12 ≠ 0x200000 >>> 12 := by decide
  have absent : PdeAbsent s.mem A.eptPml4 0x200000 2 := ⟨forbids, .inr leaf⟩
  have before : translation s.mem A.eptPml4 0x201000 = none := by
    rw [x.tables.shaped.translation_allowed x.root low', absent.unmapped here]
    rfl
  rcases x.setPte_returns low (Nat.le_refl (poolPages + 2)) 0x200007 with ⟨s', done, -⟩ | ⟨-, short⟩
  · obtain ⟨-, ⟨role', shaped, root⟩, after⟩ :=
      x.setPte_foreseen low shared (pdes _ (by simp)) done
    have levels : ∀ l, foreseen s.mem A.eptPml4 0x200000 0x200007 2 0x201000 l = .full := by
      intro l
      rw [foreseen, if_pos ⟨absent, here⟩]
      by_cases above : l < min (2 - 1) 2
      · obtain rfl : l = 0 := by omega
        rw [if_pos above, accessAt_place (place_le (show 1 ≤ 3 by omega) here), top]
      · rw [if_neg above]
        exact ite_eq_right_iff.mpr fun _ => by decide
    have mapped : ∃ frame, translation s'.mem A.eptPml4 0x201000 = some (frame, .full) := by
      refine ⟨frameAt s'.mem A.eptPml4 0x201000, ?_⟩
      rw [shaped.translation_allowed root low', (after _ low' other).1, allowed, levels 0, levels 1,
        levels 2, levels 3]
      rfl
    refine ⟨s₀, A, s, s', ready, run, done, before, mapped, fun only => ?_⟩
    obtain ⟨frame, now⟩ := mapped
    have lost := now.symm.trans ((only _ other).trans before)
    cases lost
  · rw [Short, pagesBound, EptCls.sources_of_parent parent, List.length_singleton] at short
    change s.limits.poolBigMemEnd < s.limits.poolUsable + _ at short
    have size : Pool.poolSize = 0xA00000 := rfl
    omega

end System

end LMalz.Ept
