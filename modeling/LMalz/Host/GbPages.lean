import LMalz.Host.PrivatePaths

/- ALhvMMrebuildPath on an address in a 1GB page of the new tree: the code takes words of the page for
a pde and a pte. -/
namespace LMalz.Host
open Ept (Entry Frame Index Machine Platform Outcome largePage pageFrameNumber setPageFrameNumber
  pml4Index pdptIndex pdIndex ptIndex poolPages)

/-- The frame that is taken for the page directory of an address. -/
def pdFrame (m : Memory) (new : Frame) (va : BitVec 64) : Frame :=
  pageFrameNumber (alHvMmGetPdpte m new va)

/-- The word that is taken for the pde is the pml4e of the new tree itself. -/
def TakesPml4e (m : Memory) (new : Frame) (va : BitVec 64) : Prop :=
  pdFrame m new va = new ∧ pdIndex va = pml4Index va

/-- `f` is a page table of the tree. -/
def Leaf (m : Memory) (root f : Frame) : Prop :=
  ∃ is, is.length = 3 ∧ PageTree.table next m root is = some f

section Walks
variable {m : Memory} {root f : Frame} {va : BitVec 64}

theorem gb_pdpte (gb : GbPage m root va) : present (alHvMmGetPdpte m root va) = true ∧
    largePage (alHvMmGetPdpte m root va) = true := by
  rw [getPdpte_present gb.1]
  exact gb.2

theorem walk_gb (gb : GbPage m root va) : (walk m root va).map Translation.pa =
    some (inPage (pageFrameNumber1gb (m (pageFrameNumber (m root (pml4Index va))) (pdptIndex va)))
      (BitField.get va 0 30 : BitVec 30)) := by
  obtain ⟨top, here, large⟩ := gb
  simp only [walk, top, here, large, Bool.true_eq_false, if_false, if_true, Option.map_some]

theorem walk_pte (reach : PageTree.table next m root (indices va) = some f)
    (here : present (m f (ptIndex va)) = true) : (walk m root va).map Translation.pa =
      some (inPage (pageFrameNumber (m f (ptIndex va))) (BitField.get va 0 12 : BitVec 12)) := by
  simp only [indices, PageTree.table, Option.bind_eq_some_iff] at reach
  obtain ⟨_, top, _, second, _, third, same⟩ := reach
  obtain ⟨here1, -, rfl⟩ := next_eq_some.mp top
  obtain ⟨here2, small2, rfl⟩ := next_eq_some.mp second
  obtain ⟨here3, small3, rfl⟩ := next_eq_some.mp third
  cases same
  simp only [walk, here1, here2, small2, here3, small3, here, Bool.true_eq_false, Bool.false_eq_true,
    if_false, Option.map_some]

theorem inPage_injective {n k : Nat} {p q : BitVec n} {o : BitVec k} (fits : n + k ≤ 64)
    (same : inPage p o = inPage q o) : p = q := by
  apply BitVec.eq_of_toNat_eq
  have values := congrArg BitVec.toNat same
  rw [toNat_inPage p o fits, toNat_inPage q o fits] at values
  exact Nat.eq_of_mul_eq_mul_right (Nat.two_pow_pos k) (Nat.add_right_cancel values)

theorem exists_indices (is : List Index) (three : is.length = 3) (a : Index) :
    ∃ va, indices va = is ∧ ptIndex va = a := by
  obtain ⟨i, j, k, rfl⟩ : ∃ i j k, is = [i, j, k] :=
    match is, three with
    | [i, j, k], _ => ⟨i, j, k, rfl⟩
  refine ⟨BitField.set (BitField.set (BitField.set (BitField.set 0 39 i) 30 j) 21 k) 12 a, ?_, ?_⟩
  · simp only [indices, pml4Index, pdptIndex, pdIndex]
    rw [BitField.get_set_apart _ (by omega), BitField.get_set_apart _ (by omega),
      BitField.get_set_apart _ (by omega), BitField.get_set _ (by omega),
      BitField.get_set_apart _ (by omega), BitField.get_set_apart _ (by omega),
      BitField.get_set _ (by omega), BitField.get_set_apart _ (by omega), BitField.get_set _ (by omega)]
  · exact BitField.get_set _ (by omega)

end Walks

section Call
variable {P : Platform} {old new : Frame} {role : Frame → Option (List Index)} {n : Nat}
  {s t u : Machine} {va : BitVec 64} {ret : Bool} {pdptNew pdtNew ptNew : Option Frame}
  {b c d : Nat}

/-- The machine after ALhvMMsetPDE. -/
def pdeSet (P : Platform) (old new : Frame) (va : BitVec 64) (s : Machine) (ptNew : Option Frame)
    (u : Machine) : Machine :=
  hang ptNew (pdFrame s.mem new va) (pdIndex va) (alHvMmGetPde (withCopies P old new va s) new va) u

/-- A 1GB page that is moved within its GB. -/
theorem Forest.private_moved (forest : Forest P old new role n t) {m : Memory} {f q : Frame}
    (isolated : Private old new va m t.mem)
    (reach : PageTree.table next t.mem new [pml4Index va] = some f)
    (large : largePage (t.mem f (pdptIndex va)) = true)
    (stays : pageFrameNumber1gb (setPageFrameNumber (t.mem f (pdptIndex va)) q) =
      pageFrameNumber1gb (t.mem f (pdptIndex va))) :
    Private old new va m
      (t.store f (pdptIndex va) (setPageFrameNumber (t.mem f (pdptIndex va)) q)).mem := by
  have place := forest.role_table forest.newRoot (by simp) reach
  have avoid : ¬ Belongs t.mem old f := isolated.apart 1 f (by omega) (by omega) reach
  have table (root : Frame) (js : List Index) : PageTree.table next
      (t.store f (pdptIndex va) (setPageFrameNumber (t.mem f (pdptIndex va)) q)).mem root js =
        PageTree.table next t.mem root js := by
    refine PageTree.table_congr_next fun ks b ls _ g _ => ?_
    by_cases here : g = f ∧ b = pdptIndex va
    · obtain ⟨rfl, rfl⟩ := here
      rw [store_here, next_of_large large]
      exact next_of_large (by rw [Ept.largePage_setPageFrameNumber, large])
    · rw [store_other (not_and_or.mp here)]
  have before : Agree old m t.mem := isolated.untouched
  refine ⟨fun g belongs => ?_, fun va' => ?_, fun k g low high met belongs => ?_⟩
  · rw [Agree.store avoid g (before.belongs.mpr belongs), before g belongs]
  · rw [← isolated.translations va']
    refine walk_congr (forest.mustBeZero new _ forest.newRoot) fun js e v short entry => ?_
    obtain ⟨g, met, rfl⟩ := Option.map_eq_some_iff.mp entry
    refine ⟨_, by rw [PageTree.entry, table, met, Option.map_some], ?_⟩
    by_cases here : g = f ∧ e = pdptIndex va
    · obtain ⟨rfl, rfl⟩ := here
      have same := forest.role_table forest.newRoot short met
      rw [place] at same
      obtain rfl := Option.some.inj same
      rw [store_here]
      exact .inr (.inr ⟨rfl, large, stays, q, rfl⟩)
    · rw [store_other (not_and_or.mp here)]
      exact .inl rfl
  · rw [table] at met
    refine isolated.apart k g low high met ?_
    obtain ⟨js, short, reach⟩ := belongs
    exact ⟨js, short, by rw [← table, reach]⟩

section Gb
variable (h : Forest P old new role n s) (gb : GbPage s.mem new va)
  (x : Copies P old new role va s u pdptNew pdtNew ptNew n b c d)
include h gb x

omit x in
theorem Forest.gb_pdpt : PageTree.table next s.mem new [pml4Index va] =
      some (pageFrameNumber (s.mem new (pml4Index va))) ∧
    role (pageFrameNumber (s.mem new (pml4Index va))) = some [pml4Index va] := by
  obtain ⟨top, -, -⟩ := gb
  refine ⟨?_, h.role_pdpt h.newRoot top⟩
  simp only [PageTree.table, next_of_present top (h.mustBeZero new _ h.newRoot top), Option.bind_some]

omit h gb in
theorem Copies.source {pt : Frame} (hq : ptNew = some pt) :
    u.mem pt = u.mem (pageFrameNumber (alHvMmGetPde (withCopies P old new va s) new va)) := by
  by_cases same : pageFrameNumber (alHvMmGetPde (withCopies P old new va s) new va) = pt
  · rw [same]
  · rw [x.ptCopy.contents pt hq, x.kept _ fun other => same ?_]
    rw [hq] at other
    exact (Option.some.inj other).symm

theorem Copies.pde_eq : alHvMmGetPde (withCopies P old new va s) new va =
    withCopies P old new va s (pdFrame s.mem new va) (pdIndex va) := by
  have pdpte : alHvMmGetPdpte (withCopies P old new va s) new va = alHvMmGetPdpte s.mem new va :=
    h.getPdpte_congr h.newRoot x.seen
  have here := (gb_pdpte gb).1
  rw [getPde_present (by rw [pdpte, here]), pdpte]
  rfl

theorem Copies.read (other : ptNew ≠ some (pdFrame s.mem new va)) :
    u.mem (pdFrame s.mem new va) (pdIndex va) = alHvMmGetPde (withCopies P old new va s) new va := by
  rw [x.pde_eq h gb, x.kept _ other]

theorem Copies.entry (placed : role (pdFrame s.mem new va) ≠ none) :
    s.mem (pdFrame s.mem new va) (pdIndex va) =
      alHvMmGetPde (withCopies P old new va s) new va := by
  rw [x.pde_eq h gb, x.seen _ placed]

omit x in
theorem Forest.pdpt_ne : pageFrameNumber (s.mem new (pml4Index va)) ≠ new := by
  intro same
  have place := (h.gb_pdpt gb).2
  rw [same, h.newRoot] at place
  cases place

omit gb in
theorem Copies.pt_ne {pt : Frame} (hpt : ptNew = some pt) : pt ≠ new := by
  rintro rfl
  have free := x.ptCopy.unplaced pt hpt
  rw [h.newRoot] at free
  cases free

theorem Copies.pde_taken (taken : TakesPml4e s.mem new va) :
    alHvMmGetPde (withCopies P old new va s) new va = s.mem new (pml4Index va) := by
  rw [← x.entry h gb (by rw [taken.1, h.newRoot]; simp), taken.1, taken.2]

theorem Copies.set_taken (taken : TakesPml4e s.mem new va) {pt : Frame} (hpt : ptNew = some pt) :
    pdeSet P old new va s ptNew u =
      u.store new (pml4Index va) (setPageFrameNumber (s.mem new (pml4Index va)) pt) := by
  rw [pdeSet, hpt, x.pde_taken h gb taken, taken.1, taken.2]
  rfl

/-- The setter of the PDPTE walks a tree in which the pml4e may have changed. -/
theorem Copies.top : (pdeSet P old new va s ptNew u).mem new (pml4Index va) = s.mem new (pml4Index va) ∨
    TakesPml4e s.mem new va ∧ ∃ pt, ptNew = some pt ∧
      (pdeSet P old new va s ptNew u).mem new (pml4Index va) =
        setPageFrameNumber (s.mem new (pml4Index va)) pt := by
  have atRoot : u.mem new = s.mem new := x.same new (by simp [h.newRoot])
  by_cases taken : TakesPml4e s.mem new va
  · cases hpt : ptNew with
    | none => exact .inl (congrFun atRoot _)
    | some pt =>
        refine .inr ⟨taken, pt, rfl, ?_⟩
        rw [← hpt, x.set_taken h gb taken hpt, store_here]
  · left
    rw [pdeSet, hang_apart, atRoot]
    by_contra both
    obtain ⟨frame, index⟩ := not_or.mp both
    exact taken ⟨(not_not.mp frame).symm, (not_not.mp index).symm⟩

theorem Copies.top_present :
    present ((pdeSet P old new va s ptNew u).mem new (pml4Index va)) = true := by
  rcases x.top h gb with same | ⟨-, pt, -, same⟩
  · rw [same, gb.1]
  · rw [same, present_setPageFrameNumber, gb.1]

theorem Copies.relink_gb :
    relinked P old new va s pdptNew pdtNew ptNew u =
      let v := pdeSet P old new va s ptNew u
      let w := hang pdtNew (pageFrameNumber (v.mem new (pml4Index va))) (pdptIndex va)
        (alHvMmGetPdpte s.mem new va) v
      hang pdptNew new (pml4Index va) (w.mem new (pml4Index va)) w := by
  have pdpte : alHvMmGetPdpte u.mem new va = alHvMmGetPdpte s.mem new va :=
    h.getPdpte_congr h.newRoot x.same
  have here := (gb_pdpte gb).1
  have setPde (e : Entry) : (alHvMmSetPde new va e u).2 =
      u.store (pdFrame s.mem new va) (pdIndex va) e := by
    simp [alHvMmSetPde, pdpte, here, pdFrame]
  have top := x.top_present h gb
  cases ptNew with
  | none =>
      simp only [pdeSet, hang] at top
      cases pdtNew <;> cases pdptNew <;>
        simp [relinked, relink, pdeSet, hang, alHvMmSetPdpte, alHvMmGetPml4e, top]
  | some pt =>
      simp only [pdeSet, hang] at top
      cases pdtNew <;> cases pdptNew <;>
        simp [relinked, relink, pdeSet, hang, setPde, alHvMmSetPdpte, alHvMmGetPml4e, top]

variable (goes : ¬ Refused P old new va s)

include goes in
omit h gb in
/-- ALhvMMsetPDE keeps the places, whatever it writes to. -/
theorem Copies.forest_pde {w : Machine} {role1 : Frame → Option (List Index)}
    (forest : Forest P old new role1 d w)
    (entry : role1 (pdFrame s.mem new va) ≠ none → w.mem (pdFrame s.mem new va) (pdIndex va) =
      alHvMmGetPde (withCopies P old new va s) new va)
    (free : ∀ pt, ptNew = some pt → role1 pt = none) (same : ∀ f, f ≠ new → w.mem f = u.mem f) :
    ∃ role', Forest P old new role' d (pdeSet P old new va s ptNew w) ∧
      (∀ g js, role1 g = some js → role' g = some js) := by
  cases ptNew with
  | none => exact ⟨role1, forest, fun _ _ place => place⟩
  | some pt =>
      have here := (accepted goes).2.2.2.2.2
      have small := (x.ptCopy.made.mp rfl).1
      obtain ⟨i, -, below, inside, page⟩ := x.ptCopy.pool pt rfl
      obtain ⟨role', after, keep, -⟩ := forest.store_copy entry here small (free pt rfl)
        ⟨i, below, inside, page⟩ fun is place short => by
          have child := forest.typed _ is (pdIndex va) _ place short
            (by rw [entry (by simp [place])]; exact next_of_present here small)
          rw [same pt, same, x.source rfl]
          · rintro root
            rw [root, forest.newRoot] at child
            simp at child
          · rintro rfl
            have root := forest.newRoot
            rw [free pt rfl] at root
            cases root
      exact ⟨role', after, keep⟩

theorem Copies.forest_root {w : Machine} {f : Frame} (forest : Forest P old new role d w)
    (hf : pdptNew = some f) (content : w.mem f = u.mem f) :
    ∃ role', Forest P old new role' d (w.store new (pml4Index va)
        (setPageFrameNumber (s.mem new (pml4Index va)) f)) ∧
      (∀ g js, role g = some js → role' g = some js) ∧
      (∀ g, role g = none → g ≠ f → role' g = none) := by
  have bound : b ≤ d := by
    obtain ⟨-, second, low, -⟩ := x.pages
    omega
  obtain ⟨i, -, below, inside, page⟩ := x.pdptCopy.pool f hf
  obtain ⟨role', after, keep, out⟩ := forest.hang (some f) (pml4Index va) (s.mem new (pml4Index va))
    h.newRoot (fun _ => h.mustBeZero new _ h.newRoot gb.1)
    (fun g hg => Option.some.inj hg ▸ x.pdptCopy.unplaced f hf)
    (fun g hg => ⟨i, by omega, inside, Option.some.inj hg ▸ page⟩)
    (fun g hg _ e t child => by
      obtain rfl := Option.some.inj hg
      rw [content, x.pdptCopy.contents f hf] at child
      exact h.typed _ _ e t (h.gb_pdpt gb).2 (by simp) child)
  exact ⟨role', after, keep, fun g free other => out g free fun same =>
    other (Option.some.inj same).symm⟩

section Shared
variable (shared : SharedPdpt s.mem old new va)
include shared goes

omit gb in
/-- Trees that share the PDPT agree on everything behind it. -/
theorem Copies.behind_pdpt : alHvMmGetPdpte s.mem new va = alHvMmGetPdpte s.mem old va ∧
    alHvMmGetPde (withCopies P old new va s) new va =
      alHvMmGetPde (withCopies P old new va s) old va := by
  obtain ⟨newHere, oldHere, pdpteOldHere, pdpteHere, -, -⟩ := accepted goes
  have pdpte : alHvMmGetPdpte s.mem new va = alHvMmGetPdpte s.mem old va := by
    rw [getPdpte_present newHere, getPdpte_present oldHere, shared]
  have seenNew : alHvMmGetPdpte (withCopies P old new va s) new va = alHvMmGetPdpte s.mem new va :=
    h.getPdpte_congr h.newRoot x.seen
  have seenOld : alHvMmGetPdpte (withCopies P old new va s) old va = alHvMmGetPdpte s.mem old va :=
    h.getPdpte_congr h.oldRoot x.seen
  refine ⟨pdpte, ?_⟩
  rw [getPde_present (by rw [seenNew, pdpteHere]), getPde_present (by rw [seenOld, pdpteOldHere]),
    seenNew, seenOld, pdpte]

omit gb in
theorem Copies.made_shared : ∃ f q, pdptNew = some f ∧ pdtNew = some q ∧ q = poolPage P s 1 ∧
    f ≠ q := by
  have sharedPd : SharedPd s.mem old new va := congrArg pageFrameNumber (x.behind_pdpt h goes shared).1
  obtain ⟨f, hf⟩ := Option.isSome_iff_exists.mp (x.pdptCopy.made.mpr shared)
  obtain ⟨q, hq⟩ := Option.isSome_iff_exists.mp (x.pdCopy.made.mpr sharedPd)
  have one : b = n + 1 := by rw [x.pages.1, if_pos shared]
  refine ⟨f, q, hf, hq, ?_, x.pdptCopy.apart x.pdCopy hf hq⟩
  rw [h.poolPage, (x.pdCopy.nth (by rw [x.pages.2.1]; split <;> omega) hq).1, one]

theorem Copies.made_taken (taken : TakesPml4e s.mem new va) : ∃ pt, ptNew = some pt := by
  refine Option.isSome_iff_exists.mp (x.ptCopy.made.mpr ⟨?_, ?_⟩)
  · rw [x.pde_taken h gb taken]
    exact h.mustBeZero new _ h.newRoot gb.1
  · rw [(x.behind_pdpt h goes shared).2]

/-- The PML4 is relinked last, and only this counts where the word was the pml4e. -/
theorem Copies.relink_taken (taken : TakesPml4e s.mem new va) : ∃ f pt, pdptNew = some f ∧
    ptNew = some pt ∧ relinked P old new va s pdptNew pdtNew ptNew u =
      (hang pdtNew pt (pdptIndex va) (alHvMmGetPdpte s.mem new va) u).store new (pml4Index va)
        (setPageFrameNumber (s.mem new (pml4Index va)) f) := by
  obtain ⟨f, q, hf, -, -⟩ := x.made_shared h goes shared
  obtain ⟨pt, hpt⟩ := x.made_taken h gb goes shared taken
  have ptNe := x.pt_ne h hpt
  refine ⟨f, pt, hf, hpt, ?_⟩
  rw [x.relink_gb h gb]
  simp only [x.set_taken h gb taken hpt, store_here, Ept.pageFrameNumber_setPageFrameNumber,
    hang_frame ptNe.symm, hf]
  rw [← hang_store (.inl ptNe)]
  simp only [hang, store_store, setPageFrameNumber_set]

theorem Copies.relink_shared (other : ¬ TakesPml4e s.mem new va) : ∃ f, pdptNew = some f ∧
    relinked P old new va s pdptNew pdtNew ptNew u =
      (hang pdtNew (pageFrameNumber (s.mem new (pml4Index va))) (pdptIndex va)
        (alHvMmGetPdpte s.mem new va) (pdeSet P old new va s ptNew u)).store new (pml4Index va)
        (setPageFrameNumber (s.mem new (pml4Index va)) f) := by
  obtain ⟨f, q, hf, -, -⟩ := x.made_shared h goes shared
  have top := (x.top h gb).resolve_right fun taken => other taken.1
  have pdptNe := (h.pdpt_ne gb).symm
  refine ⟨f, hf, ?_⟩
  rw [x.relink_gb h gb]
  simp only [top, hang_frame pdptNe, hf]
  rfl

theorem Copies.forest_shared : ∃ role', Forest P old new role' d
    (relinked P old new va s pdptNew pdtNew ptNew u) := by
  obtain ⟨reach, place⟩ := h.gb_pdpt gb
  by_cases taken : TakesPml4e s.mem new va
  · obtain ⟨f, pt, hf, hpt, eq⟩ := x.relink_taken h gb goes shared taken
    rw [eq]
    have forest : Forest P old new role d
        (hang pdtNew pt (pdptIndex va) (alHvMmGetPdpte s.mem new va) u) := by
      cases pdtNew with
      | none => exact x.forest
      | some q => exact x.forest.store_unplaced (x.ptCopy.unplaced pt hpt)
    obtain ⟨role', after, -, -⟩ := x.forest_root h gb forest hf (hang_frame (x.made_apart hf hpt))
    exact ⟨role', after⟩
  · obtain ⟨f, hf, eq⟩ := x.relink_shared h gb goes shared taken
    have apart : pdFrame s.mem new va ≠ new ∨ pdIndex va ≠ pml4Index va := by
      by_contra both
      obtain ⟨frame, index⟩ := not_or.mp both
      exact taken ⟨not_not.mp frame, not_not.mp index⟩
    rw [eq, hang_store (.inl (h.pdpt_ne gb)), pdeSet, hang_store apart]
    obtain ⟨role1, forest1, keep1, out1⟩ := x.forest_root h gb x.forest hf rfl
    have free : ∀ pt, ptNew = some pt → role1 pt = none := fun pt hpt =>
      out1 pt (x.ptCopy.unplaced pt hpt) (x.made_apart hf hpt).symm
    obtain ⟨role2, forest2, keep2⟩ := x.forest_pde goes forest1 (fun placed => by
      rw [store_other apart]
      refine x.read h gb fun same => ?_
      exact placed (free _ same)) free fun g other => store_frame other
    have large := (gb_pdpte gb).2
    exact ⟨role2, forest2.hang_leaf (by rw [keep2 _ _ (keep1 _ _ place)]; simp) large⟩

omit goes shared in
/-- With the PDPT as it was, the copy of it can take its place. -/
theorem Copies.private_root {w : Machine} {f : Frame} (forest : Forest P old new role d w)
    (same : Same role s.mem w.mem) (hf : pdptNew = some f) (content : w.mem f = u.mem f) :
    Private old new va s.mem
      (w.store new (pml4Index va) (setPageFrameNumber (s.mem new (pml4Index va)) f)).mem := by
  refine h.private_store forest same [] (by simp) rfl (fun root => h.apart ?_) gb.1
    (h.mustBeZero new _ h.newRoot gb.1) (x.pdptCopy.unplaced f hf)
    (by rw [content, x.pdptCopy.contents f hf]) fun k g low high other met => ?_
  · exact (Option.some.inj root).symm
  · by_cases one : k = 1
    · subst one
      exact absurd rfl other
    · rw [take_indices (by omega), gb_table gb] at met
      cases met

theorem Copies.shared_taken (taken : TakesPml4e s.mem new va) :
    Private old new va s.mem (relinked P old new va s pdptNew pdtNew ptNew u).mem := by
  obtain ⟨f, pt, hf, hpt, eq⟩ := x.relink_taken h gb goes shared taken
  have free := x.ptCopy.unplaced pt hpt
  rw [eq]
  refine x.private_root h gb ?_ (fun g placed => ?_) hf (hang_frame (x.made_apart hf hpt))
  · cases pdtNew with
    | none => exact x.forest
    | some q => exact x.forest.store_unplaced free
  · rw [hang_frame, x.same g placed]
    rintro rfl
    exact placed free

/-- Both setters write into the page of the copy and leave the PDPT as it was. -/
theorem Copies.shared_copy (other : ¬ TakesPml4e s.mem new va)
    (frame : pdFrame s.mem new va = poolPage P s 1) :
    Private old new va s.mem (relinked P old new va s pdptNew pdtNew ptNew u).mem := by
  obtain ⟨-, place⟩ := h.gb_pdpt gb
  obtain ⟨f', q, hf', hq, pageQ, ne⟩ := x.made_shared h goes shared
  obtain ⟨f, hf, eq⟩ := x.relink_shared h gb goes shared other
  obtain rfl : f = f' := Option.some.inj (hf.symm.trans hf')
  rw [← pageQ] at frame
  have free := x.pdCopy.unplaced q hq
  have others : ∀ g, g ≠ q → (pdeSet P old new va s ptNew u).mem g = u.mem g := fun g other => by
    rw [pdeSet, frame, hang_frame other]
  have pdptQ : pageFrameNumber (s.mem new (pml4Index va)) ≠ q := by
    intro same
    rw [same, free] at place
    cases place
  have stays : hang pdtNew (pageFrameNumber (s.mem new (pml4Index va))) (pdptIndex va)
      (alHvMmGetPdpte s.mem new va) (pdeSet P old new va s ptNew u) =
        pdeSet P old new va s ptNew u := by
    rw [hq, hang, setPageFrameNumber_self frame, getPdpte_present gb.1,
      ← x.same _ (by simp [place] : role (pageFrameNumber (s.mem new (pml4Index va))) ≠ none),
      ← others _ pdptQ, store_self]
  rw [eq, stays]
  refine x.private_root h gb ?_ (fun g placed => ?_) hf (others f ne)
  · rw [pdeSet, frame]
    cases ptNew with
    | none => exact x.forest
    | some pt => exact x.forest.store_unplaced free
  · rw [others, x.same g placed]
    rintro rfl
    exact placed free

/-- The 1GB page begins at the page of the copy, or its first page is the PML4. -/
theorem Copies.shared_iff : Private old new va s.mem
      (relinked P old new va s pdptNew pdtNew ptNew u).mem ↔
    pdFrame s.mem new va = poolPage P s 1 ∨ TakesPml4e s.mem new va := by
  constructor
  · intro isolated
    by_contra neither
    obtain ⟨moved, other⟩ := not_or.mp neither
    obtain ⟨-, q, -, hq, pageQ, -⟩ := x.made_shared h goes shared
    obtain ⟨f, hf, eq⟩ := x.relink_shared h gb goes shared other
    have belongs : Belongs s.mem old (pageFrameNumber (s.mem new (pml4Index va))) := by
      have oldHere := (accepted goes).2.1
      refine ⟨[pml4Index va], by simp, ?_⟩
      simp only [PageTree.table, next_of_present oldHere (h.mustBeZero old _ h.oldRoot oldHere),
        Option.bind_some, shared.symm]
    have kept := congrFun (isolated.untouched _ belongs) (pdptIndex va)
    rw [eq, store_frame (h.pdpt_ne gb), hq, hang, store_here, ← getPdpte_present gb.1] at kept
    exact setPageFrameNumber_ne (pageQ ▸ moved) kept
  · intro either
    by_cases taken : TakesPml4e s.mem new va
    · exact x.shared_taken h gb goes shared taken
    · exact x.shared_copy h gb goes shared taken (either.resolve_right taken)

end Shared

include goes in
/-- The trees keep their places, whatever was in the 1GB page. -/
theorem Copies.forest_unshared (unshared : ¬ SharedPdpt s.mem old new va) :
    ∃ role1, Forest P old new role1 d (pdeSet P old new va s ptNew u) ∧
      (∀ g js, role g = some js → role1 g = some js) ∧
      Forest P old new role1 d (relinked P old new va s pdptNew pdtNew ptNew u) := by
  have none : pdptNew = none := by simpa [unshared] using x.pdptCopy.made
  obtain ⟨role1, forest, keep⟩ := x.forest_pde goes x.forest (fun placed => x.read h gb fun same =>
    placed (x.ptCopy.unplaced _ same)) x.ptCopy.unplaced fun _ _ => rfl
  have large := (gb_pdpte gb).2
  refine ⟨role1, forest, keep, ?_⟩
  rw [x.relink_gb h gb, none]
  refine forest.hang_leaf ?_ large
  rw [forest.role_pdpt forest.newRoot (x.top_present h gb)]
  simp

theorem Copies.pdpte_kept : (pdeSet P old new va s ptNew u).mem
    (pageFrameNumber ((pdeSet P old new va s ptNew u).mem new (pml4Index va))) (pdptIndex va) =
      alHvMmGetPdpte s.mem new va := by
  obtain ⟨-, place⟩ := h.gb_pdpt gb
  have pdpte : u.mem (pageFrameNumber (s.mem new (pml4Index va))) (pdptIndex va) =
      alHvMmGetPdpte s.mem new va := by
    rw [x.same _ (by simp [place]), getPdpte_present gb.1]
  rcases x.top h gb with same | ⟨taken, pt, hpt, same⟩
  · rw [same]
    by_cases apart : pageFrameNumber (s.mem new (pml4Index va)) ≠ pdFrame s.mem new va ∨
        pdptIndex va ≠ pdIndex va
    · rw [pdeSet, hang_apart apart, pdpte]
    · obtain ⟨frame, index⟩ := not_or.mp apart
      rw [not_not] at frame index
      have pde : alHvMmGetPde (withCopies P old new va s) new va = alHvMmGetPdpte s.mem new va := by
        rw [← x.entry h gb (by rw [← frame]; simp [place]), ← frame, ← index, getPdpte_present gb.1]
      cases ptNew with
      | none => exact pdpte
      | some pt =>
          have small := (x.ptCopy.made.mp rfl).1
          rw [pde, (gb_pdpte gb).2] at small
          cases small
  · have ptNe : pt ≠ pdFrame s.mem new va := fun same => x.pt_ne h hpt (same.trans taken.1)
    rw [same, Ept.pageFrameNumber_setPageFrameNumber, pdeSet, hang_frame ptNe, x.source hpt,
      x.pde_taken h gb taken, pdpte]

/-- ALhvMMsetPDE does no harm to a page that is no table, and none to an upper table that the new tree
has for itself. -/
theorem Copies.set_isolates (unshared : ¬ SharedPdpt s.mem old new va)
    (spares : ∀ pt, ptNew = some pt →
      pageFrameNumber (alHvMmGetPde (withCopies P old new va s) new va) = pt ∨
        (¬ Belongs s.mem old (pdFrame s.mem new va) ∧ ¬ Leaf s.mem new (pdFrame s.mem new va)))
    (goes : ¬ Refused P old new va s) :
    Private old new va s.mem (pdeSet P old new va s ptNew u).mem := by
  have ofOld := h.agree h.oldRoot x.same
  have ofNew := h.agree h.newRoot x.same
  have path : ∀ k g, 1 ≤ k → k ≤ 3 → PageTree.table next s.mem new ((indices va).take k) = some g →
      ¬ Belongs s.mem old g := by
    intro k g low high met belongs
    by_cases one : k = 1
    · exact unshared ((h.shared_of_belongs met belongs).1 one)
    · rw [take_indices (by omega), gb_table gb] at met
      cases met
  have kept : Private old new va s.mem u.mem :=
    h.private_kept x.same fun k g low high met => path k g low high met
  cases hpt : ptNew with
  | none => exact kept
  | some pt =>
      subst hpt
      have here := (accepted goes).2.2.2.2.2
      have small := (x.ptCopy.made.mp rfl).1
      have free := x.ptCopy.unplaced pt rfl
      by_cases outside : ¬ Belongs s.mem old (pdFrame s.mem new va) ∧
          ¬ Belongs s.mem new (pdFrame s.mem new va)
      · refine kept.agree (Agree.store (mt ofOld.belongs.mp outside.1))
          (Agree.store (mt ofNew.belongs.mp outside.2)) fun a => ?_
        rw [x.same new (by simp [h.newRoot])]
        exact h.mustBeZero new a h.newRoot
      have placed : role (pdFrame s.mem new va) ≠ none := by
        intro none
        refine outside ⟨fun belongs => ?_, fun belongs => ?_⟩
        · exact h.placed h.oldRoot belongs none
        · exact h.placed h.newRoot belongs none
      have entry := x.entry h gb placed
      by_cases itself : pageFrameNumber (alHvMmGetPde (withCopies P old new va s) new va) = pt
      · have same : pdeSet P old new va s (some pt) u = u := by
          rw [pdeSet, hang, setPageFrameNumber_self itself, ← entry, ← x.same _ placed, store_self]
        rw [same]
        exact kept
      obtain ⟨notOld, notLeaf⟩ := (spares pt rfl).resolve_left itself
      have inNew : Belongs s.mem new (pdFrame s.mem new va) := by
        by_contra notNew
        exact outside ⟨notOld, notNew⟩
      obtain ⟨is, short, reach⟩ := inNew
      have shallow : is.length < 3 := by
        by_contra deep
        exact notLeaf ⟨is, by omega, reach⟩
      have child := h.typed _ is (pdIndex va) _ (h.role_table h.newRoot short reach) shallow
        (by rw [entry]; exact next_of_present here small)
      rw [pdeSet, hang, ← entry]
      refine h.private_store x.forest x.same is shallow reach (fun old => notOld ⟨is, short, old⟩)
        (by rw [entry, here]) (by rw [entry, small]) free ?_ fun k g low high _ met =>
          path k g low high met
      rw [x.ptCopy.contents pt rfl, entry, x.seen _ (by simp [child])]

section Unshared
variable (unshared : ¬ SharedPdpt s.mem old new va)
include goes unshared

omit goes gb in
theorem Copies.made_unshared : (∀ q, pdtNew = some q → q = poolPage P s 0) ∧
    ∀ pt, ptNew = some pt → pt = poolPage P s (if SharedPd s.mem old new va then 1 else 0) := by
  obtain ⟨first, second, -, last⟩ := x.pages
  rw [if_neg unshared] at first
  refine ⟨fun q hq => ?_, fun pt hpt => ?_⟩
  · rw [h.poolPage, (x.pdCopy.nth (by rw [second]; split <;> omega) hq).1, first]
  · rw [h.poolPage, (x.ptCopy.nth last hpt).1, second, first, Nat.add_zero]

omit goes in
theorem Copies.relink_unshared : relinked P old new va s pdptNew pdtNew ptNew u =
      hang pdtNew (pageFrameNumber ((pdeSet P old new va s ptNew u).mem new (pml4Index va)))
        (pdptIndex va) (alHvMmGetPdpte s.mem new va) (pdeSet P old new va s ptNew u) := by
  have none : pdptNew = none := by simpa [unshared] using x.pdptCopy.made
  rw [x.relink_gb h gb, none]
  rfl

theorem Copies.moves {q : Frame} (hq : pdtNew = some q)
    (isolated : Private old new va s.mem
      (relinked P old new va s pdptNew pdtNew ptNew u).mem) :
    pageFrameNumber1gb (setPageFrameNumber (alHvMmGetPdpte s.mem new va) q) =
      pageFrameNumber1gb (alHvMmGetPdpte s.mem new va) := by
  obtain ⟨role1, forest, -, -⟩ := x.forest_unshared h gb goes unshared
  have top := x.top_present h gb
  have place := forest.role_pdpt forest.newRoot top
  have before := isolated.translations va
  rw [x.relink_unshared h gb unshared, hq, hang] at before
  generalize pdeSet P old new va s ptNew u = v at before top place forest
  have newNe : new ≠ pageFrameNumber (v.mem new (pml4Index va)) := by
    intro same
    rw [← same, forest.newRoot] at place
    cases place
  have after : GbPage (v.store (pageFrameNumber (v.mem new (pml4Index va))) (pdptIndex va)
      (setPageFrameNumber (alHvMmGetPdpte s.mem new va) q)).mem new va := by
    simp only [GbPage, store_frame newNe, store_here]
    refine ⟨top, ?_, ?_⟩
    · rw [present_setPageFrameNumber, (gb_pdpte gb).1]
    · rw [Ept.largePage_setPageFrameNumber, (gb_pdpte gb).2]
  have pages := congrArg (Option.map Translation.pa) before
  rw [walk_gb after, walk_gb gb, store_frame newNe, store_here, ← getPdpte_present gb.1] at pages
  exact inPage_injective (by omega) (Option.some.inj pages)

omit goes in
theorem Copies.word_written {pt : Frame} (hpt : ptNew = some pt) :
    (relinked P old new va s pdptNew pdtNew ptNew u).mem (pdFrame s.mem new va) (pdIndex va) =
        setPageFrameNumber (alHvMmGetPde (withCopies P old new va s) new va) pt := by
  have word : (pdeSet P old new va s ptNew u).mem (pdFrame s.mem new va) (pdIndex va) =
      setPageFrameNumber (alHvMmGetPde (withCopies P old new va s) new va) pt := by
    rw [pdeSet, hpt, hang, store_here]
  rw [x.relink_unshared h gb unshared, hang_apart, word]
  by_contra both
  obtain ⟨frame, index⟩ := not_or.mp both
  rw [not_not] at frame index
  have kept := x.pdpte_kept h gb
  rw [← frame, ← index, word] at kept
  have small := (x.ptCopy.made.mp (by rw [hpt]; rfl)).1
  rw [← Ept.largePage_setPageFrameNumber _ pt, kept, (gb_pdpte gb).2] at small
  cases small

theorem Copies.leaf_reached {is : List Index} (three : is.length = 3)
    (reach : PageTree.table next s.mem new is = some (pdFrame s.mem new va)) :
    PageTree.table next (relinked P old new va s pdptNew pdtNew ptNew u).mem new is =
        some (pdFrame s.mem new va) := by
  obtain ⟨role1, forest, keep, -⟩ := x.forest_unshared h gb goes unshared
  have place := forest.role_pdpt forest.newRoot (x.top_present h gb)
  have leafPlace := h.role_table h.newRoot (by omega) reach
  rw [← reach, x.relink_unshared h gb unshared]
  refine PageTree.table_congr_next fun ks e ls split g met => ?_
  have short : ks.length < 3 := by
    rw [split, List.length_append, List.length_cons] at three
    omega
  have gPlace := h.role_table h.newRoot (by omega) met
  by_cases apart : g ≠ pageFrameNumber ((pdeSet P old new va s ptNew u).mem new (pml4Index va)) ∨
      e ≠ pdptIndex va
  · have other : g ≠ pdFrame s.mem new va := by
      rintro rfl
      rw [leafPlace] at gPlace
      obtain rfl := Option.some.inj gPlace
      omega
    rw [hang_apart apart, pdeSet, hang_frame other, x.same g (by simp [gPlace])]
  · obtain ⟨frame, index⟩ := not_or.mp apart
    rw [not_not] at frame index
    have ways := keep _ _ gPlace
    rw [frame, place] at ways
    obtain rfl := Option.some.inj ways
    rw [(h.gb_pdpt gb).1] at met
    obtain rfl := Option.some.inj met
    have large := (gb_pdpte gb).2
    subst index
    rw [← getPdpte_present gb.1, next_of_large large]
    refine next_of_large ?_
    cases pdtNew with
    | none => rw [hang, frame, x.pdpte_kept h gb, large]
    | some q => rw [hang, ← frame, store_here, Ept.largePage_setPageFrameNumber, large]

theorem Copies.unshared_iff : Private old new va s.mem
      (relinked P old new va s pdptNew pdtNew ptNew u).mem ↔
    (SharedPd s.mem old new va →
      pageFrameNumber1gb (setPageFrameNumber (alHvMmGetPdpte s.mem new va) (poolPage P s 0)) =
        pageFrameNumber1gb (alHvMmGetPdpte s.mem new va)) ∧
    (SharedPt (withCopies P old new va s) old new va →
      pageFrameNumber (alHvMmGetPde (withCopies P old new va s) new va) =
          poolPage P s (if SharedPd s.mem old new va then 1 else 0) ∨
        (¬ Belongs s.mem old (pdFrame s.mem new va) ∧ ¬ Leaf s.mem new (pdFrame s.mem new va))) := by
  obtain ⟨pageQ, pagePt⟩ := x.made_unshared h unshared
  constructor
  · intro isolated
    refine ⟨fun shared => ?_, fun shared => ?_⟩
    · obtain ⟨q, hq⟩ := Option.isSome_iff_exists.mp (x.pdCopy.made.mpr shared)
      rw [← pageQ q hq]
      exact x.moves h gb goes unshared hq isolated
    · obtain ⟨pt, hpt⟩ := Option.isSome_iff_exists.mp (x.ptCopy.made.mpr shared)
      rw [← pagePt pt hpt]
      by_contra harm
      obtain ⟨moved, placed⟩ := not_or.mp harm
      have written := x.word_written h gb unshared hpt
      by_cases inOld : Belongs s.mem old (pdFrame s.mem new va)
      · rw [isolated.untouched _ inOld, x.entry h gb (h.placed h.oldRoot inOld)] at written
        exact setPageFrameNumber_ne moved written.symm
      · obtain ⟨is, three, reach⟩ : Leaf s.mem new (pdFrame s.mem new va) := by
          by_contra leaf
          exact placed ⟨inOld, leaf⟩
        obtain ⟨va', rfl, index⟩ := exists_indices is three (pdIndex va)
        have here := (accepted goes).2.2.2.2.2
        have entry := x.entry h gb (h.placed h.newRoot ⟨_, by omega, reach⟩)
        have reached := x.leaf_reached h gb goes unshared three reach
        have pages := congrArg (Option.map Translation.pa) (isolated.translations va')
        rw [walk_pte reached (by rw [index, written, present_setPageFrameNumber, here]),
          walk_pte reach (by rw [index, entry, here]), index, written, entry,
          Ept.pageFrameNumber_setPageFrameNumber] at pages
        exact moved (inPage_injective (by omega) (Option.some.inj pages)).symm
  · rintro ⟨stays, spares⟩
    have set := x.set_isolates h gb unshared (fun pt hpt => by
      rw [pagePt pt hpt]
      exact spares (x.ptCopy.made.mp (by rw [hpt]; rfl))) goes
    rw [x.relink_unshared h gb unshared]
    cases hq : pdtNew with
    | none => exact set
    | some q =>
        obtain ⟨role1, forest, -, -⟩ := x.forest_unshared h gb goes unshared
        have top := x.top_present h gb
        have kept := x.pdpte_kept h gb
        have moved := stays (x.pdCopy.made.mp (by rw [hq]; rfl))
        rw [← pageQ q hq] at moved
        rw [hang, ← kept]
        refine forest.private_moved set ?_ (by rw [kept, (gb_pdpte gb).2]) (by rw [kept, moved])
        simp only [PageTree.table,
          next_of_present top (forest.mustBeZero new _ forest.newRoot top), Option.bind_some]

end Unshared

end Gb

end Call

end LMalz.Host
