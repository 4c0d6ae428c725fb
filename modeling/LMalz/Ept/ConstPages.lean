import LMalz.Ept.FirstWrite
import LMalz.Ept.Termination

/- The table pages of const_ept: as long as no set_pte starts to write in one of them, they are as
init left them. -/
namespace LMalz.Ept
open Transition

/-- A table page that const_ept reaches. -/
def ConstPage (s : Machine) (f : Frame) : Prop :=
  ∃ gpa n, n ≤ 3 ∧ tableAt s.mem s.constEpt gpa n = some f

section Pages
variable {m m' : Memory} {r f : Frame} {gpa : BitVec 64} {n : Nat}

theorem indexAt_get (gpa : BitVec 64) (deep : n ≤ 3) :
    indexAt gpa n = BitField.get gpa (39 - 9 * n) 9 := by
  match n, deep with
  | 0, _ => rfl
  | 1, _ => rfl
  | 2, _ => rfl
  | 3, _ => rfl

theorem exists_index (gpa : BitVec 64) (i : Index) (deep : n ≤ 3) :
    ∃ gpa', place gpa' n = place gpa n ∧ indexAt gpa' n = i := by
  refine ⟨BitField.set gpa (39 - 9 * n) i, ?_, ?_⟩
  · suffices above : ∀ j, j ≤ n → place (BitField.set gpa (39 - 9 * n) i) j = place gpa j from
      above n (Nat.le_refl n)
    intro j le
    induction j with
    | zero => rfl
    | succ j ih =>
        rw [place, place, ih (by omega), indexAt_get _ (by omega), indexAt_get _ (by omega),
          BitField.get_set_apart _ (by omega)]
  · rw [indexAt_get _ deep, BitField.get_set _ (by omega)]

theorem Kept.page (h : Kept m m' r) (deep : n ≤ 3) (hf : tableAt m r gpa n = some f) :
    m' f = m f := by
  funext i
  obtain ⟨gpa', same, index⟩ := exists_index gpa i deep
  have here : tableAt m r gpa' n = some f := by
    rw [tableAt, same]
    exact hf
  have entry := h.entry gpa' n deep
  rw [entryAt_eq here, entryAt_eq ((h.table gpa' n deep).trans here), index] at entry
  exact Option.some.inj entry

theorem const_mem_sources (X : EptCls) (c : Frame) : c ∈ X.sources c := by
  induction X with
  | root p v => exact List.mem_singleton_self c
  | cloneOf p v x ih => exact List.mem_cons_of_mem _ ih

end Pages

namespace System

/-- The first table that a set_pte writes is not one of const_ept. -/
def SparesConst (sys : System) : Event → Prop
  | .setPte X gpa _ | .setPteAccess X gpa _ =>
      ¬ Shares sys.machine.mem X.eptPml4 sys.machine.constEpt gpa (written sys.machine X gpa)
  | .newClone _ | .newView _ => True

section Runs
variable {P : Platform} {fuel : Nat} {sys₀ sys sys' : System} {role : Frame → Option (List Index)}
  {k : Nat} {s s' t : Machine} {xs : List EptCls} {X : EptCls} {gpa : BitVec 64} {pte : Entry}
  {b : Bool} {e : Event} {es : List Event}

theorem Sound.setPte_const (h : Sound P ⟨s, xs⟩ role k) (known : X ∈ xs) (low : Below512G gpa)
    (start : t = s ∨ t = s.latch) (done : Ept.setPte P fuel X gpa pte t = .ok (b, s'))
    (spares : ¬ Shares s.mem X.eptPml4 s.constEpt gpa (written s X gpa)) :
    Kept s.mem s'.mem s.constEpt := by
  have x := h.chained_latch known start
  rcases start with rfl | rfl <;>
    exact x.setPte_kept low.pml4Index List.mem_cons_self spares done

theorem Sound.setPte_spoils (h : Sound P ⟨s, xs⟩ role k) (known : X ∈ xs) (low : Below512G gpa)
    (start : t = s ∨ t = s.latch) (done : Ept.setPte P fuel X gpa pte t = .ok (b, s'))
    (shares : Shares s.mem X.eptPml4 s.constEpt gpa (written s X gpa)) :
    ∃ f, ConstPage s f ∧ s'.mem f ≠ s.mem f := by
  have x := h.chained_latch known start
  have same : t.mem = s.mem ∧ t.constEpt = s.constEpt ∧ written t X gpa = written s X gpa := by
    rcases start with rfl | rfl <;> exact ⟨rfl, rfl, rfl⟩
  cases needs : (needRemap t X gpa).1 with
  | zero =>
      have deep := (x.toAmong.table low.pml4Index).1
      have apart := x.unshared low.pml4Index needs (const_mem_sources X t.constEpt) _ deep
      rw [same.1, same.2.1, same.2.2] at apart
      exact absurd shares apart
  | succ n =>
      obtain ⟨upper, -⟩ := x.needs_spec low.pml4Index needs
      rw [← same.2.2, written_remap needs] at shares
      obtain ⟨f, hf, const⟩ := shares
      rw [← same.1] at hf
      have changed := x.setPte_overwrites low.pml4Index needs hf done
      rw [same.1] at changed
      exact ⟨f, ⟨gpa, n, by omega, const⟩, fun kept => changed (by rw [kept])⟩

theorem Sound.const_kept (h : Sound P sys role k) (step : Guarded (Step P fuel) SparesConst sys e sys') :
    Kept sys.machine.mem sys'.machine.mem sys.machine.constEpt := by
  obtain ⟨spares, step⟩ := step
  cases step with
  | newClone known made =>
      obtain ⟨role', k', c⟩ := h.toInv.newClone known made
      exact (c.old _ h.const).2
  | newView made =>
      obtain ⟨role', k', c⟩ := h.toInv.newView made
      exact (c.old _ h.const).2
  | setPte known low done => exact h.setPte_const known low (.inl rfl) done spares
  | @setPteAccess s s' xs X gpa a b known low done =>
      obtain ⟨pte, t, start, same⟩ := setPteAccess_eq P fuel X gpa a s
      rw [same] at done
      exact h.setPte_const known low start done spares

theorem Sound.const_spoiled (h : Sound P sys role k) (step : Step P fuel sys e sys')
    (spoils : ¬ sys.SparesConst e) :
    ∃ f, ConstPage sys.machine f ∧ sys'.machine.mem f ≠ sys.machine.mem f := by
  cases step with
  | newClone known made => exact absurd trivial spoils
  | newView made => exact absurd trivial spoils
  | setPte known low done => exact h.setPte_spoils known low (.inl rfl) done (not_not.mp spoils)
  | @setPteAccess s s' xs X gpa a b known low done =>
      obtain ⟨pte, t, start, same⟩ := setPteAccess_eq P fuel X gpa a s
      rw [same] at done
      exact h.setPte_spoils known low start done (not_not.mp spoils)

theorem Sound.const_run (ready : Ready P fuel sys₀) (inited : 4 ≤ fuel)
    (run : Run (Guarded (Step P fuel) SparesConst) sys₀ es sys) :
    (∃ role k, Sound P sys role k) ∧ sys.machine.constEpt = sys₀.machine.constEpt ∧
      Kept sys₀.machine.mem sys.machine.mem sys₀.machine.constEpt := by
  refine run.invariant (I := fun sys => (∃ role k, Sound P sys role k) ∧
    sys.machine.constEpt = sys₀.machine.constEpt ∧
      Kept sys₀.machine.mem sys.machine.mem sys₀.machine.constEpt) (fun {s e t} inv step => ?_)
    ⟨Sound.ready_init ready inited, rfl, Kept.refl _ _⟩
  obtain ⟨⟨role, k, sound⟩, const, kept⟩ := inv
  obtain ⟨role', k', after, same⟩ := sound.step step.2
  have more := sound.const_kept step
  rw [const] at more
  exact ⟨⟨role', k', after⟩, same.trans const, kept.trans more⟩

theorem ConstPage.kept {f : Frame} (kept : Kept s.mem s'.mem s.constEpt) (page : ConstPage s f) :
    s'.mem f = s.mem f := by
  obtain ⟨gpa, n, deep, hf⟩ := page
  exact kept.page deep hf

/-- The first set_pte that starts to write in a table of const_ept changes what init made. -/
theorem constPages_spoiled (ready : Ready P fuel sys₀) (inited : 4 ≤ fuel)
    (run : Run (Guarded (Step P fuel) SparesConst) sys₀ es sys) (step : Step P fuel sys e sys')
    (spoils : ¬ sys.SparesConst e) :
    ∃ f, ConstPage sys₀.machine f ∧ sys'.machine.mem f ≠ sys₀.machine.mem f := by
  obtain ⟨⟨role, k, sound⟩, const, kept⟩ := Sound.const_run ready inited run
  obtain ⟨f, ⟨gpa, n, deep, hf⟩, changed⟩ := sound.const_spoiled step spoils
  rw [const, kept.table gpa n deep] at hf
  have page : ConstPage sys₀.machine f := ⟨gpa, n, deep, hf⟩
  exact ⟨f, page, fun same => changed (same.trans (ConstPage.kept kept page).symm)⟩

/-- While every set_pte starts to write in a table that is not const_ept's, the pages of const_ept
are as init left them; the first one that does not changes them. -/
theorem constPages_kept_iff (ready : Ready P fuel sys₀) (inited : 4 ≤ fuel)
    (run : Run (Guarded (Step P fuel) SparesConst) sys₀ es sys) :
    (∀ f, ConstPage sys₀.machine f → sys.machine.mem f = sys₀.machine.mem f) ∧
    ∀ e sys', Step P fuel sys e sys' →
      ((∀ f, ConstPage sys₀.machine f → sys'.machine.mem f = sys₀.machine.mem f) ↔
        sys.SparesConst e) := by
  obtain ⟨⟨role, k, sound⟩, const, kept⟩ := Sound.const_run ready inited run
  refine ⟨fun f page => ConstPage.kept kept page, fun e sys' step => ⟨fun same => ?_, fun spares => ?_⟩⟩
  · by_contra spoils
    obtain ⟨f, page, changed⟩ := constPages_spoiled ready inited run step spoils
    exact changed (same f page)
  · have more := sound.const_kept ⟨spares, step⟩
    rw [const] at more
    exact fun f page => ConstPage.kept (kept.trans more) page

end Runs

section Copies
variable {P : Platform} {fuel : Nat} {A B : EptCls} {s s' t : Machine} {xs : List EptCls}
  {role : Frame → Option (List Index)} {k : Nat} {gpa : BitVec 64} {pte : Entry} {b : Bool}

theorem Sound.written_copy (h : Sound P ⟨s, xs⟩ role k) (known : A ∈ xs) (start : t = s ∨ t = s.latch)
    (low : Below512G gpa) (parent : A.parent = none) (shares : Shares s.mem A.eptPml4 s.constEpt gpa 1) :
    written t A gpa = 0 ∧
      ∀ r ∈ System.others ⟨s, xs⟩ A, ¬ Shares t.mem A.eptPml4 r gpa (written t A gpa) := by
  have x := h.chained_latch known start
  have shares : Shares t.mem A.eptPml4 t.constEpt gpa 1 := by
    rcases start with rfl | rfl <;> exact shares
  have level : written t A gpa = 0 := by
    cases needs : (needRemap t A gpa).1 with
    | zero => exact absurd shares (x.unshared low.pml4Index needs (const_mem_sources A _) 1 (by omega))
    | succ n =>
        obtain ⟨-, pre, u, post, split, -, -, above⟩ := x.needs_spec low.pml4Index needs
        have only : u ∈ A.sources t.constEpt := by simp [split]
        rw [EptCls.sources_of_parent parent, List.mem_singleton] at only
        rw [written_remap needs]
        by_contra deeper
        exact above 1 (by omega) (only ▸ shares)
  refine ⟨level, fun r hr => ?_⟩
  rw [level]
  rintro ⟨g, left, right⟩
  exact h.others_ne known hr (Option.some.inj (right.trans left.symm))

theorem EptCls.sources_of_clone {c : Frame} (parent : B.parent = some A) :
    B.sources c = A.eptPml4 :: A.sources c := by
  cases B with
  | root p v => cases parent
  | cloneOf p v x =>
      cases parent
      rfl

/-- An object got its own tables for the first 2MB after it was cloned. The clone still finds the
pdpt of const_ept, and shares with the object only the directories below it. -/
theorem Sound.clone_spoils (h : Sound P ⟨s, xs⟩ role k) (knownA : A ∈ xs) (knownB : B ∈ xs)
    (parentA : A.parent = none) (parentB : B.parent = some A) (start : t = s ∨ t = s.latch)
    (copied : ∀ gpa n, Below512G gpa → 1 ≤ n → n ≤ 3 →
      tableAt s.mem A.eptPml4 gpa n = tableAt s.mem s.constEpt gpa n ∧
        tableAt s.mem B.eptPml4 gpa n = tableAt s.mem s.constEpt gpa n)
    (done : Ept.setPte P fuel A 0 pte t = .ok (b, s')) :
    Shares s'.mem B.eptPml4 s'.constEpt 0x40000000 (written s' B 0x40000000) := by
  have low : Below512G 0 := (by decide : (0 : BitVec 64).toNat < 2^39)
  have low' : Below512G 0x40000000 := (by decide : (0x40000000 : BitVec 64).toNat < 2^39)
  have x := h.chained_latch knownA start
  have mem : t.mem = s.mem ∧ t.constEpt = s.constEpt := by
    rcases start with rfl | rfl <;> exact ⟨rfl, rfl⟩
  have other : B ≠ A := by
    rintro rfl
    rw [parentA] at parentB
    cases parentB
  obtain ⟨role', k', after, const⟩ := h.setPte knownA low start done
  obtain ⟨c₁, hc₁⟩ := h.tables.shaped.upperTable h.const low'.pml4Index (show 1 ≤ 2 by omega)
  obtain ⟨c₂, hc₂⟩ := h.tables.shaped.upperTable h.const low'.pml4Index (Nat.le_refl 2)
  have shares : Shares s.mem A.eptPml4 s.constEpt 0 1 := by
    obtain ⟨d, hd⟩ := h.tables.shaped.upperTable h.const low.pml4Index (show 1 ≤ 2 by omega)
    exact ⟨d, ((copied 0 1 low (by omega) (by omega)).1).trans hd, hd⟩
  have alone := (h.written_copy knownA start low parentA shares).2
  have keptB := x.setPte_kept low.pml4Index (mem_others knownB other) (alone _ (mem_others knownB other)) done
  have keptC := x.setPte_kept low.pml4Index List.mem_cons_self (alone _ List.mem_cons_self) done
  rw [mem.1] at keptB keptC
  -- the object has its own pdpt, with the directory of const_ept for the second GB
  have apartA : ¬ Shares s'.mem A.eptPml4 s.constEpt 0x40000000 1 := by
    rw [Shares.place_iff (show place 0x40000000 1 = place 0 1 by decide), ← mem.2]
    exact x.setPte_apart low.pml4Index (const_mem_sources A _) done 1 (by omega)
  have tableA : tableAt s'.mem A.eptPml4 0x40000000 2 = some c₂ := by
    rw [x.setPte_elsewhere low.pml4Index (by omega) (by decide) done, mem.1,
      (copied _ 2 low' (by omega) (by omega)).1, hc₂]
  have tableB : ∀ {n c}, 1 ≤ n → n ≤ 3 → tableAt s.mem s.constEpt 0x40000000 n = some c →
      tableAt s'.mem B.eptPml4 0x40000000 n = some c := by
    intro n c one deep hc
    rw [keptB.table _ n deep, (copied _ n low' one deep).2, hc]
  have level : written s' B 0x40000000 = 1 := by
    have shaped := after.tables.shaped
    rcases shaped.needRemapOf (after.roots B knownB) (after.roots A knownA) low'.pml4Index with
      ⟨-, apart⟩ | ⟨n, e, found, upper, -, sharesN, above⟩
    · exact absurd ⟨c₂, tableB (by omega) (by omega) hc₂, tableA⟩ (apart 2 (by omega) (by omega))
    · have notFirst : n ≠ 0 := by
        rintro rfl
        obtain ⟨g, left, right⟩ := sharesN
        rw [tableB (by omega) (by omega) hc₁] at left
        obtain rfl := Option.some.inj left
        exact apartA ⟨_, right, (keptC.table _ 1 (by omega)).trans hc₁⟩
      have second : n = 1 := by
        by_contra deeper
        exact above 2 (by omega) (by omega) ⟨c₂, tableB (by omega) (by omega) hc₂, tableA⟩
      subst second
      refine written_remap ?_
      rw [needRemap, EptCls.sources_of_clone parentB, needRemapLoop, found]
      rfl
  rw [level, const]
  exact ⟨c₁, tableB (by omega) (by omega) hc₁, (keptC.table _ 1 (by omega)).trans hc₁⟩

end Copies

theorem cold_cloned_copy : ∃ sys₀ s A B,
    Ready coldPlatform (poolPages + 2) sys₀ ∧ A.parent = none ∧ B.parent = some A ∧
    Run (Guarded (Step coldPlatform (poolPages + 2)) SparesConst) sys₀
      [.newClone none, .newClone (some A), .setPteAccess A 0 .full] ⟨s, [B, A]⟩ ∧
    Shares s.mem B.eptPml4 s.constEpt 0x40000000 (written s B 0x40000000) ∧
    s.limits.poolUsable ≤ 0x1000 * 521 ∧ s.limits.poolBigMemEnd = Pool.poolSize := by
  obtain ⟨s₀, A, s₁, role, ready, made, v, upper⟩ :=
    cold_clone (show 4 ≤ poolPages + 2 by decide)
  have size : Pool.poolSize = 0xA00000 := rfl
  rcases newClone_spec v.tables (some A) v.ready with died | ⟨room, B, hB, parent, made₂⟩
  · have short := died.2
    omega
  obtain ⟨s₂, hs₂⟩ : ∃ s₂, s₂ = (s₁.withPages (516 + 1)).fill (coldPlatform.page 516)
      (s₁.mem A.eptPml4) := ⟨_, rfl⟩
  have keptA : Kept s₁.mem s₂.mem A.eptPml4 := hs₂ ▸ v.tables.fill_kept room v.root
  have keptC : Kept s₁.mem s₂.mem s₁.constEpt := hs₂ ▸ v.tables.fill_kept room v.const
  have top : ∀ gpa, s₂.mem B.eptPml4 (pml4Index gpa) = s₂.mem A.eptPml4 (pml4Index gpa) := by
    intro gpa
    rw [hB, hs₂]
    exact v.tables.copyRoot_sameTop room v.root gpa
  have const : s₂.constEpt = s₁.constEpt := by rw [hs₂]; rfl
  have usable : s₂.limits.poolUsable = 0x1000 * 517 := by rw [hs₂]; rfl
  have memEnd : s₂.limits.poolBigMemEnd = Pool.poolSize := by rw [hs₂]; exact upper
  change newClone coldPlatform (some A) s₁ = .ok (B, (s₁.withPages (516 + 1)).fill
    (coldPlatform.page 516) (s₁.mem A.eptPml4)) at made₂
  rw [← hs₂] at made₂
  have tables : ∀ gpa n, Below512G gpa → 1 ≤ n → n ≤ 3 →
      tableAt s₂.mem A.eptPml4 gpa n = tableAt s₂.mem s₂.constEpt gpa n ∧
        tableAt s₂.mem B.eptPml4 gpa n = tableAt s₂.mem s₂.constEpt gpa n := by
    intro gpa n low one deep
    have left : tableAt s₂.mem A.eptPml4 gpa n = tableAt s₂.mem s₂.constEpt gpa n := by
      rw [const, keptA.table gpa n deep, keptC.table gpa n deep]
      exact (v.copy gpa n low deep).2 one
    obtain ⟨m, rfl⟩ : ∃ m, n = m + 1 := ⟨n - 1, by omega⟩
    exact ⟨left, ((sameTop (top gpa) m).2).trans left⟩
  have run₂ : Run (Guarded (Step coldPlatform (poolPages + 2)) SparesConst) ⟨s₀, []⟩
      [.newClone none, .newClone (some A)] ⟨s₂, [B, A]⟩ :=
    .cons ⟨trivial, .newClone (fun c none => nomatch none) made⟩
      (.cons ⟨trivial, .newClone (fun c hc => Option.some.inj hc ▸ List.mem_cons_self) made₂⟩ (.nil _))
  obtain ⟨role₂, k₂, h₂⟩ := Sound.run ready (by decide) (run₂.mono fun guarded => guarded.2)
  have knownA : A ∈ [B, A] := by simp
  have low : Below512G 0 := (by decide : (0 : BitVec 64).toNat < 2^39)
  have shares : Shares s₂.mem A.eptPml4 s₂.constEpt 0 1 := by
    obtain ⟨d, hd⟩ := h₂.tables.shaped.upperTable h₂.const low.pml4Index (show 1 ≤ 2 by omega)
    exact ⟨d, ((tables 0 1 low (by omega) (by omega)).1).trans hd, hd⟩
  have spares := (h₂.written_copy knownA (.inl rfl) low v.parent shares).2 _ List.mem_cons_self
  obtain ⟨pte, t, start, same⟩ :=
    setPteAccess_eq coldPlatform (poolPages + 2) A 0 .full s₂
  have limits : t.limits = s₂.limits := by rcases start with rfl | rfl <;> rfl
  rcases (h₂.chained_latch knownA start).setPte_returns low (Nat.le_refl (poolPages + 2))
      (setAccess pte .full) with ⟨s₃, done, -, pages, upper₃⟩ | ⟨-, short⟩
  · rw [pagesBound, EptCls.sources_of_parent v.parent, List.length_singleton, limits] at pages
    rw [limits] at upper₃
    exact ⟨⟨s₀, []⟩, s₃, A, B, ready, v.parent, parent,
      run₂.snoc ⟨spares, .setPteAccess knownA low (same.trans done)⟩,
      h₂.clone_spoils knownA List.mem_cons_self v.parent parent start tables done, by omega,
      upper₃.trans memEnd⟩
  · rw [Short, pagesBound, EptCls.sources_of_parent v.parent, List.length_singleton, limits] at short
    omega

theorem constPages_kept_iff_cold : ∃ (sys₀ : System) (s : Machine) (A B : EptCls),
    Run (Guarded (Step coldPlatform (poolPages + 2)) SparesConst) sys₀
      [.newClone none, .newClone (some A), .setPteAccess A 0 .full] ⟨s, [B, A]⟩ ∧
    ∀ f, ConstPage sys₀.machine f → s.mem f = sys₀.machine.mem f := by
  obtain ⟨sys₀, s, A, B, ready, -, -, run, -⟩ := cold_cloned_copy
  exact ⟨sys₀, s, A, B, run, (constPages_kept_iff ready (by decide) run).1⟩

/-- A set_pte of a page in the second GB on the clone then writes into the pdpt of const_ept. -/
theorem constPages_overwritten : ∃ (sys₀ sys : System) (A B : EptCls),
    Ready coldPlatform (poolPages + 2) sys₀ ∧
    Run (Step coldPlatform (poolPages + 2)) sys₀ [.newClone none, .newClone (some A),
      .setPteAccess A 0 .full, .setPteAccess B 0x40000000 .full] sys ∧
    ∃ f, ConstPage sys₀.machine f ∧ sys.machine.mem f ≠ sys₀.machine.mem f := by
  obtain ⟨sys₀, s, A, B, ready, parentA, parentB, run, shares, usable, upper⟩ := cold_cloned_copy
  obtain ⟨role, k, h⟩ := Sound.run ready (by decide) (run.mono fun guarded => guarded.2)
  have size : Pool.poolSize = 0xA00000 := rfl
  have low : Below512G 0x40000000 := (by decide : (0x40000000 : BitVec 64).toNat < 2^39)
  obtain ⟨pte, t, start, same⟩ :=
    setPteAccess_eq coldPlatform (poolPages + 2) B 0x40000000 .full s
  have limits : t.limits = s.limits := by rcases start with rfl | rfl <;> rfl
  rcases (h.chained_latch List.mem_cons_self start).setPte_returns low (Nat.le_refl (poolPages + 2))
      (setAccess pte .full) with ⟨s', done, -⟩ | ⟨-, short⟩
  · have step : Step coldPlatform (poolPages + 2) ⟨s, [B, A]⟩ (.setPteAccess B 0x40000000 .full)
        ⟨s', [B, A]⟩ := .setPteAccess List.mem_cons_self low (same.trans done)
    exact ⟨sys₀, ⟨s', [B, A]⟩, A, B, ready, (run.mono fun guarded => guarded.2).snoc step,
      constPages_spoiled ready (by decide) run step (not_not.mpr shares)⟩
  · rw [Short, pagesBound, EptCls.sources_of_clone parentB, EptCls.sources_of_parent parentA,
      List.length_cons, List.length_singleton, limits] at short
    omega

end System

end LMalz.Ept
