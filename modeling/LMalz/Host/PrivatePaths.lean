import LMalz.Host.Forest

/- What a call of ALhvMMrebuildPath copies, and what it does to an address in no 1GB page. -/
namespace LMalz.Host
open Ept (Entry Frame Index Machine Platform Outcome largePage pageFrameNumber setPageFrameNumber
  pml4Index pdptIndex pdIndex ptIndex poolPages)

section Conditions
variable (m : Memory) (old new : Frame) (va : BitVec 64)

def SharedPdpt : Prop :=
  pageFrameNumber (m new (pml4Index va)) = pageFrameNumber (m old (pml4Index va))

def SharedPd : Prop :=
  pageFrameNumber (alHvMmGetPdpte m new va) = pageFrameNumber (alHvMmGetPdpte m old va)

def SharedPt : Prop :=
  largePage (alHvMmGetPde m new va) = false ∧
    pageFrameNumber (alHvMmGetPde m new va) = pageFrameNumber (alHvMmGetPde m old va)

instance : Decidable (SharedPdpt m old new va) := inferInstanceAs (Decidable (_ = _))
instance : Decidable (SharedPd m old new va) := inferInstanceAs (Decidable (_ = _))

end Conditions

/-- The page that the pool hands out after `i` others. -/
def poolPage (P : Platform) (s : Machine) (i : Nat) : Frame :=
  P.page ((s.limits.poolUsable / 0x1000).toNat + i)

/-- The memory with the copies of the PDPT and the PD. For an address in a 1GB page the code takes
words of that page for a pde and a pte, and the copies may be in it. -/
def withCopies (P : Platform) (old new : Frame) (va : BitVec 64) (s : Machine) : Memory :=
  let m := withCopy s.mem (SharedPdpt s.mem old new va) (poolPage P s 0)
    (pageFrameNumber (s.mem new (pml4Index va)))
  withCopy m (SharedPd s.mem old new va)
    (poolPage P s (if SharedPdpt s.mem old new va then 1 else 0))
    (pageFrameNumber (alHvMmGetPdpte s.mem new va))

/-- The tests on which the call returns 0. -/
def Refused (P : Platform) (old new : Frame) (va : BitVec 64) (s : Machine) : Prop :=
  let m := withCopies P old new va s
  let pdeOld := alHvMmGetPde m old va
  let pde := alHvMmGetPde m new va
  present (s.mem new (pml4Index va)) = false ∨ present (s.mem old (pml4Index va)) = false ∨
    present (alHvMmGetPdpte s.mem old va) = false ∨ present (alHvMmGetPdpte s.mem new va) = false ∨
    present pdeOld = false ∨ present pde = false ∨
    (largePage pde = false ∧ (largePage pdeOld = true ∨
      (pageFrameNumber pde = pageFrameNumber pdeOld ∧
        present (m (pageFrameNumber pde) (ptIndex va)) = false)))

/-- The indices on the way to the page table of an address. -/
def indices (va : BitVec 64) : List Index := [pml4Index va, pdptIndex va, pdIndex va]

/-- The old tables are not written, the new tree translates as before, and the tables on the way to
the address belong to the new tree alone. -/
structure Private (old new : Frame) (va : BitVec 64) (m m' : Memory) : Prop where
  untouched : ∀ f, Belongs m old f → m' f = m f
  translations : ∀ va', walk m' new va' = walk m new va'
  apart : ∀ k f, 1 ≤ k → k ≤ 3 →
    PageTree.table next m' new ((indices va).take k) = some f → ¬ Belongs m' old f

/-- What a call is for: 1 stands for a private path, 0 for tables left as they were. -/
def Isolates (old new : Frame) (va : BitVec 64) (m m' : Memory) (ret : Bool) : Prop :=
  if ret then Private old new va m m'
  else ∀ f, Belongs m old f ∨ Belongs m new f → m' f = m f

/-- A call that returns. -/
def Rebuilt (P : Platform) (old new : Frame) (s : Machine) (va : BitVec 64) (t : Machine) : Prop :=
  ∃ ret, alHvMmRebuildPath P old new va s = .ok (ret, t)

/-- The copies of a call that goes on to its end, and the machine `u` after them. -/
structure Copies (P : Platform) (old new : Frame) (role : Frame → Option (List Index))
    (va : BitVec 64) (s u : Machine) (pdptNew pdtNew ptNew : Option Frame) (a b c d : Nat) :
    Prop where
  forest : Forest P old new role d u
  same : Same role s.mem u.mem
  seen : Same role s.mem (withCopies P old new va s)
  pdptCopy : Copied P role s.mem u.mem (SharedPdpt s.mem old new va)
    (pageFrameNumber (s.mem new (pml4Index va))) a b pdptNew
  pdCopy : Copied P role (withCopies P old new va s) u.mem (SharedPd s.mem old new va)
    (pageFrameNumber (alHvMmGetPdpte s.mem new va)) b c pdtNew
  ptCopy : Copied P role (withCopies P old new va s) u.mem
    (SharedPt (withCopies P old new va s) old new va)
    (pageFrameNumber (alHvMmGetPde (withCopies P old new va s) new va)) c d ptNew
  kept : ∀ f, ptNew ≠ some f → u.mem f = withCopies P old new va s f
  pages : b = a + (if SharedPdpt s.mem old new va then 1 else 0) ∧
    c = b + (if SharedPd s.mem old new va then 1 else 0) ∧ c ≤ d ∧ d ≤ c + 1

/-- The end of a call, with the pdpte and the pde that it has read. -/
def relinked (P : Platform) (old new : Frame) (va : BitVec 64) (s : Machine)
    (pdptNew pdtNew ptNew : Option Frame) (u : Machine) : Machine :=
  relink new va (alHvMmGetPde (withCopies P old new va s) new va) (alHvMmGetPdpte s.mem new va)
    ptNew pdtNew pdptNew u

section Call
variable {P : Platform} {old new pdpt pd : Frame} {role : Frame → Option (List Index)} {n : Nat}
  {s t u : Machine} {va : BitVec 64} {ret : Bool}

theorem Copied.of_page {m m' u : Memory} {shared : Prop} {f : Frame} {a b : Nat} {page : Option Frame}
    (h : Copied P role m u shared f a b page) (same : m f = m' f) :
    Copied P role m' u shared f a b page :=
  ⟨h.made, h.unplaced, fun q hq => (h.contents q hq).trans same, h.pool⟩

theorem Copied.from_earlier {m u : Memory} {shared : Prop} {f : Frame} {a a' b : Nat}
    {page : Option Frame} (h : Copied P role m u shared f a b page) (earlier : a' ≤ a) :
    Copied P role m u shared f a' b page :=
  ⟨h.made, h.unplaced, h.contents, fun q hq => (h.pool q hq).imp fun i hi => ⟨by omega, hi.2⟩⟩

theorem Copied.nth {m u : Memory} {shared : Prop} {f q : Frame} {a b : Nat} {page : Option Frame}
    (h : Copied P role m u shared f a b page) (one : b ≤ a + 1) (hq : page = some q) :
    q = P.page a ∧ a < poolPages := by
  obtain ⟨i, low, high, inside, rfl⟩ := h.pool q hq
  obtain rfl : i = a := by omega
  exact ⟨rfl, inside⟩

theorem Forest.copyPt (h : Forest P old new role n s) {pdeOld pde : Entry} {done : Bool}
    {page : Option Frame} (run : copyPt P va pdeOld pde s = .ok (done, page, t)) :
    ∃ n', n ≤ n' ∧ n' ≤ n + 1 ∧ Forest P old new role n' t ∧ Same role s.mem t.mem ∧
      (∀ f, page ≠ some f → t.mem f = s.mem f) ∧
      (done = false ↔ largePage pde = false ∧ (largePage pdeOld = true ∨
        (pageFrameNumber pde = pageFrameNumber pdeOld ∧
          present (s.mem (pageFrameNumber pde) (ptIndex va)) = false))) ∧
      Copied P role s.mem t.mem
        (largePage pde = false ∧ largePage pdeOld = false ∧ pageFrameNumber pde = pageFrameNumber pdeOld)
        (pageFrameNumber pde) n n' page := by
  unfold Host.copyPt at run
  rcases large : largePage pde
  case true =>
    rw [if_pos large] at run
    cases run
    exact ⟨n, Nat.le_refl n, Nat.le_succ n, h, Same.refl _ _, fun _ _ => rfl, by simp, by simp, nofun,
      nofun, nofun⟩
  rw [if_neg (by simp [large])] at run
  rcases largeOld : largePage pdeOld
  case true =>
    rw [if_pos largeOld] at run
    cases run
    exact ⟨n, Nat.le_refl n, Nat.le_succ n, h, Same.refl _ _, fun _ _ => rfl, by simp, by simp, nofun,
      nofun, nofun⟩
  rw [if_neg (by simp [largeOld])] at run
  obtain ⟨⟨ptNew, s'⟩, copied, rest⟩ := Outcome.of_bind run
  obtain ⟨n', grown, forest, same, -, mem, copy⟩ := h.copyShared copied
  have bounds : n ≤ n' ∧ n' ≤ n + 1 := by
    rw [grown]
    split <;> omega
  cases ptNew with
  | none =>
      cases rest
      have apart : pageFrameNumber pde ≠ pageFrameNumber pdeOld := by simpa using copy.made
      have kept : t.mem = s.mem := by rw [mem, withCopy, if_neg apart]
      exact ⟨n', bounds.1, bounds.2, forest, same, fun f _ => congrFun kept f, by simp [apart],
        ⟨by simp [apart], nofun, nofun, nofun⟩⟩
  | some q =>
      cases rest
      have shared : pageFrameNumber pde = pageFrameNumber pdeOld := by simpa using copy.made
      refine ⟨n', bounds.1, bounds.2, forest, same, fun f other => ?_, ?_, ⟨by simp [shared],
        copy.unplaced, copy.contents, copy.pool⟩⟩
      · obtain ⟨rfl, -⟩ := copy.nth bounds.2 rfl
        rw [mem, withCopy, if_pos shared, Function.update_of_ne fun same => other (by rw [same])]
      · rw [copy.contents q rfl]
        simp [shared]

/-- The number of the first page left is what the counter of the pool says. -/
theorem Forest.poolPage (h : Forest P old new role n s) (i : Nat) : poolPage P s i = P.page (n + i) := by
  have pages : (s.limits.poolUsable / 0x1000).toNat = n := by
    rw [h.usable]
    omega
  rw [Host.poolPage, pages]

theorem accepted (goes : ¬ Refused P old new va s) : present (s.mem new (pml4Index va)) = true ∧
    present (s.mem old (pml4Index va)) = true ∧ present (alHvMmGetPdpte s.mem old va) = true ∧
    present (alHvMmGetPdpte s.mem new va) = true ∧
    present (alHvMmGetPde (withCopies P old new va s) old va) = true ∧
    present (alHvMmGetPde (withCopies P old new va s) new va) = true := by
  simp only [Refused, not_or, Bool.not_eq_false] at goes
  exact ⟨goes.1, goes.2.1, goes.2.2.1, goes.2.2.2.1, goes.2.2.2.2.1, goes.2.2.2.2.2.1⟩

/-- A call refuses and leaves the tables alone, or it makes the copies and hangs them in. -/
theorem Forest.rebuild_cases (h : Forest P old new role n s)
    (done : alHvMmRebuildPath P old new va s = .ok (ret, t)) :
    (ret = false ∧ Refused P old new va s ∧ Same role s.mem t.mem ∧
      ∃ n', Forest P old new role n' t) ∨
    (ret = true ∧ ¬ Refused P old new va s ∧
      ∃ u pdptNew pdtNew ptNew b c d,
        Copies P old new role va s u pdptNew pdtNew ptNew n b c d ∧
        t = relinked P old new va s pdptNew pdtNew ptNew u) := by
  unfold alHvMmRebuildPath at done
  by_cases absent : present (s.mem new (pml4Index va)) = false ∨ present (s.mem old (pml4Index va)) = false
  · rw [if_pos absent] at done
    cases done
    exact .inl ⟨rfl, absent.imp_right .inl, Same.refl _ _, n, h⟩
  rw [if_neg absent] at done
  obtain ⟨newHere, oldHere⟩ := not_or.mp absent
  obtain ⟨⟨pdptNew, s1⟩, run1, done⟩ := Outcome.of_bind done
  obtain ⟨b, first, forest1, same1, kept1, mem1, copy1⟩ := h.copyShared run1
  simp only [h.getPdpte_congr h.oldRoot same1, h.getPdpte_congr h.newRoot same1] at done
  by_cases absent2 : present (alHvMmGetPdpte s.mem old va) = false ∨
      present (alHvMmGetPdpte s.mem new va) = false
  · rw [if_pos absent2] at done
    cases done
    exact .inl ⟨rfl, .inr (.inr (absent2.imp_right .inl)), same1, b, forest1⟩
  rw [if_neg absent2] at done
  obtain ⟨pdpteOldHere, pdpteHere⟩ := not_or.mp absent2
  obtain ⟨⟨pdtNew, s2⟩, run2, done⟩ := Outcome.of_bind done
  obtain ⟨c, second, forest2, same2, kept2, mem2, copy2⟩ := forest1.copyShared run2
  have same12 : Same role s.mem s2.mem := same1.trans same2
  have seen : s2.mem = withCopies P old new va s := by
    rw [mem2, mem1, withCopies, h.poolPage, h.poolPage, first]
    rfl
  have source : s2.mem (pageFrameNumber (alHvMmGetPdpte s.mem new va)) =
      s1.mem (pageFrameNumber (alHvMmGetPdpte s.mem new va)) := by
    rw [mem2, withCopy_source]
  simp only [seen] at done
  by_cases absent3 : present (alHvMmGetPde (withCopies P old new va s) old va) = false ∨
      present (alHvMmGetPde (withCopies P old new va s) new va) = false
  · rw [if_pos absent3] at done
    cases done
    exact .inl ⟨rfl, .inr (.inr (.inr (.inr (absent3.imp_right .inl)))), same12, c, forest2⟩
  rw [if_neg absent3] at done
  obtain ⟨⟨go, ptNew, s3⟩, run3, done⟩ := Outcome.of_bind done
  obtain ⟨d, cd, dc, forest3, same3, kept3, stops, copy3⟩ := forest2.copyPt run3
  have same123 : Same role s.mem s3.mem := same12.trans same3
  rw [seen] at stops copy3 kept3
  have kept3' : ∀ i, i < c → i < poolPages → s3.mem (P.page i) = s2.mem (P.page i) := by
    intro i below inside
    rw [kept3 _ fun same => ?_, seen]
    obtain ⟨j, above, _, inside', same⟩ := copy3.pool _ same
    exact P.page_ne inside inside' (by omega) same
  by_cases stop : go = false
  · rw [if_pos stop] at done
    cases done
    exact .inl ⟨rfl, .inr (.inr (.inr (.inr (.inr (.inr (stops.mp stop)))))), same123, d, forest3⟩
  rw [if_neg stop] at done
  cases done
  have goes := mt stops.mpr stop
  have ab : n ≤ b ∧ b ≤ c := by
    rw [second, first]
    omega
  refine .inr ⟨rfl, ?_, s3, pdptNew, pdtNew, ptNew, b, c, d,
    ⟨forest3, same123, seen ▸ same12, ?_, ?_, ?_, kept3, first, second, cd, dc⟩, rfl⟩
  · intro refused
    unfold Refused at refused
    rcases refused with e | e | e | e | e | e | why
    · exact newHere e
    · exact oldHere e
    · exact pdpteOldHere e
    · exact pdpteHere e
    · exact absent3 (.inl e)
    · exact absent3 (.inr e)
    · exact goes why
  · refine copy1.later fun i below inside => ?_
    rw [kept3' i (by omega) inside, kept2 i below inside]
  · refine (copy2.later fun i below inside => kept3' i below inside).of_page ?_
    rw [← seen, source]
  · refine ⟨copy3.made.trans ?_, copy3.unplaced, copy3.contents, copy3.pool⟩
    refine ⟨fun all => ⟨all.1, all.2.2⟩, fun both => ⟨both.1, ?_, both.2⟩⟩
    by_contra large
    exact goes ⟨both.1, .inl (by simpa using large)⟩

section Ways
variable {pdptNew pdtNew ptNew : Option Frame} {a b c d : Nat}

theorem Forest.path_apart (h : Forest P old new role n s) (path : Path s.mem new va pdpt pd) :
    new ≠ pd ∧ new ≠ pdpt ∧ pdpt ≠ pd := by
  have root := h.newRoot
  obtain ⟨first, second⟩ := h.role_pd h.newRoot path
  refine ⟨?_, ?_, ?_⟩ <;> rintro rfl
  · simp [root] at second
  · simp [root] at first
  · simp [first] at second

section Path
variable (h : Forest P old new role n s) (path : Path s.mem new va pdpt pd)
  (x : Copies P old new role va s u pdptNew pdtNew ptNew a b c d)
include h path x

theorem Copies.pde : alHvMmGetPde (withCopies P old new va s) new va = s.mem pd (pdIndex va) := by
  rw [(path.congr h h.newRoot x.seen).getPde, x.seen pd (by simp [(h.role_pd h.newRoot path).2])]

omit h in
theorem Copies.pdpt_contents {q : Frame} (hq : pdptNew = some q) : u.mem q = s.mem pdpt := by
  rw [x.pdptCopy.contents q hq, path.toPdpt]

theorem Copies.pd_contents {q : Frame} (hq : pdtNew = some q) : u.mem q = s.mem pd := by
  rw [x.pdCopy.contents q hq, path.getPdpte, path.toPd,
    x.seen pd (by simp [(h.role_pd h.newRoot path).2])]

theorem Copies.relink_eq : relinked P old new va s pdptNew pdtNew ptNew u =
      hang pdptNew new (pml4Index va) (s.mem new (pml4Index va))
        (hang pdtNew pdpt (pdptIndex va) (s.mem pdpt (pdptIndex va))
          (hang ptNew pd (pdIndex va) (s.mem pd (pdIndex va)) u)) := by
  obtain ⟨newPd, newPdpt, pdptPd⟩ := h.path_apart path
  rw [relinked, (path.congr h h.newRoot x.same).relink newPd newPdpt pdptPd, x.pde h path, path.getPdpte,
    x.same new (by simp [h.newRoot])]

omit h path in
theorem Copies.made_apart {f pt : Frame} (hf : pdptNew = some f) (hpt : ptNew = some pt) : f ≠ pt :=
  x.pdptCopy.apart (x.ptCopy.from_earlier (by rw [x.pages.2.1]; omega)) hf hpt

/-- Whatever was shared, the tables have one place each after the call. -/
theorem Copies.forest_relinked :
    ∃ role', Forest P old new role' d (hang pdptNew new (pml4Index va) (s.mem new (pml4Index va))
        (hang pdtNew pdpt (pdptIndex va) (s.mem pdpt (pdptIndex va))
          (hang ptNew pd (pdIndex va) (s.mem pd (pdIndex va)) u))) := by
  obtain ⟨rolePdpt, rolePd⟩ := h.role_pd h.newRoot path
  have unplaced_ne : ∀ {q f : Frame}, role q = none → role f ≠ none → q ≠ f := by
    rintro q f free placed rfl
    exact placed free
  have order : b ≤ c ∧ c ≤ d := ⟨by rw [x.pages.2.1]; omega, x.pages.2.2.1⟩
  obtain ⟨role1, forest1, keep1, free1⟩ := x.forest.hang ptNew (pdIndex va) (s.mem pd (pdIndex va))
    rolePd nofun x.ptCopy.unplaced
    (fun q hq => (x.ptCopy.pool q hq).imp fun i hi => ⟨hi.2.1, hi.2.2⟩)
    (fun q hq short => absurd short (by simp))
  obtain ⟨role2, forest2, keep2, free2⟩ := forest1.hang pdtNew (pdptIndex va)
    (s.mem pdpt (pdptIndex va)) (keep1 _ _ rolePdpt) nofun
    (fun q hq => free1 q (x.pdCopy.unplaced q hq) fun hq' => x.pdCopy.apart x.ptCopy hq hq' rfl)
    (fun q hq => (x.pdCopy.pool q hq).imp fun i hi => ⟨by omega, hi.2.2⟩)
    (fun q hq _ k g child => by
      rw [hang_frame (unplaced_ne (x.pdCopy.unplaced q hq) (by simp [rolePd])),
        x.pd_contents h path hq] at child
      exact keep1 _ _ (h.typed pd _ k g rolePd (by simp) child))
  obtain ⟨role3, forest3, -, -⟩ := forest2.hang pdptNew (pml4Index va) (s.mem new (pml4Index va))
    (keep2 _ _ (keep1 _ _ h.newRoot)) (fun _ => h.mustBeZero new _ h.newRoot path.pml4e)
    (fun q hq => free2 q (free1 q (x.pdptCopy.unplaced q hq)
        fun hq' => x.made_apart hq hq' rfl)
      fun hq' => x.pdptCopy.apart x.pdCopy hq hq' rfl)
    (fun q hq => (x.pdptCopy.pool q hq).imp fun i hi => ⟨by omega, hi.2.2⟩)
    (fun q hq _ k g child => by
      rw [hang_frame (unplaced_ne (x.pdptCopy.unplaced q hq) (by simp [rolePdpt])),
        hang_frame (unplaced_ne (x.pdptCopy.unplaced q hq) (by simp [rolePd])),
        x.pdpt_contents path hq] at child
      exact keep2 _ _ (keep1 _ _ (h.typed pdpt _ k g rolePdpt (by simp) child)))
  exact ⟨role3, forest3⟩

end Path

end Ways

theorem Path.tables {m : Memory} {root : Frame} (path : Path m root va pdpt pd)
    (mustBeZero : largePage (m root (pml4Index va)) = false) :
    PageTree.table next m root [pml4Index va] = some pdpt ∧
      PageTree.table next m root [pml4Index va, pdptIndex va] = some pd := by
  have first : PageTree.table next m root [pml4Index va] = some pdpt := by
    simp only [PageTree.table, next_of_present path.pml4e mustBeZero, Option.bind_some, path.toPdpt]
  refine ⟨first, ?_⟩
  rw [show [pml4Index va, pdptIndex va] = [pml4Index va] ++ [pdptIndex va] from rfl,
    PageTree.table_snoc, first, Option.bind_some, next_of_present path.pdpte path.small, path.toPd]

theorem table_indices {root f : Frame} {m : Memory} {k : Nat}
    (reach : PageTree.table next m root ((indices va).take k) = some f) :
    (k = 1 → f = pageFrameNumber (m root (pml4Index va))) ∧
      (k = 2 → f = pageFrameNumber (alHvMmGetPdpte m root va)) ∧
      (k = 3 → largePage (alHvMmGetPde m root va) = false ∧
        f = pageFrameNumber (alHvMmGetPde m root va)) := by
  refine ⟨?_, ?_, ?_⟩ <;> rintro rfl
  · simp only [indices, List.take, PageTree.table, Option.bind_eq_some_iff] at reach
    obtain ⟨_, top, same⟩ := reach
    cases same
    exact (next_eq_some.mp top).2.2.symm
  · simp only [indices, List.take, PageTree.table, Option.bind_eq_some_iff] at reach
    obtain ⟨_, top, _, second, same⟩ := reach
    cases same
    obtain ⟨here, -, rfl⟩ := next_eq_some.mp top
    rw [getPdpte_present here]
    exact (next_eq_some.mp second).2.2.symm
  · simp only [indices, List.take, PageTree.table, Option.bind_eq_some_iff] at reach
    obtain ⟨_, top, _, second, _, third, same⟩ := reach
    cases same
    obtain ⟨here, -, rfl⟩ := next_eq_some.mp top
    obtain ⟨here2, -, rfl⟩ := next_eq_some.mp second
    rw [← getPdpte_present here] at here2 third
    rw [getPde_present here2]
    obtain ⟨-, small, same⟩ := next_eq_some.mp third
    exact ⟨small, same.symm⟩

/-- A table on the way to the address that belongs to both trees. -/
theorem Forest.shared_of_belongs (h : Forest P old new role n s) {f : Frame} {k : Nat}
    (reach : PageTree.table next s.mem new ((indices va).take k) = some f)
    (belongs : Belongs s.mem old f) :
    (k = 1 → SharedPdpt s.mem old new va) ∧ (k = 2 → SharedPd s.mem old new va) ∧
      (k = 3 → SharedPt s.mem old new va) := by
  obtain ⟨js, short, reachOld⟩ := belongs
  have place := h.role_table h.newRoot (List.length_take_le' k (indices va)) reach
  rw [h.role_table h.oldRoot short reachOld] at place
  obtain rfl := Option.some.inj place
  obtain ⟨n1, n2, n3⟩ := table_indices reach
  obtain ⟨o1, o2, o3⟩ := table_indices reachOld
  refine ⟨fun hk => ?_, fun hk => ?_, fun hk => ?_⟩
  · exact (n1 hk).symm.trans (o1 hk)
  · exact (n2 hk).symm.trans (o2 hk)
  · exact ⟨(n3 hk).1, (n3 hk).2.symm.trans (o3 hk).2⟩

theorem Forest.private_kept (h : Forest P old new role n s) (same : Same role s.mem t.mem)
    (apart : ∀ k f, 1 ≤ k → k ≤ 3 → PageTree.table next s.mem new ((indices va).take k) = some f →
      ¬ Belongs s.mem old f) : Private old new va s.mem t.mem := by
  have ofOld := h.agree h.oldRoot same
  have ofNew := h.agree h.newRoot same
  refine ⟨ofOld, fun va' => ofNew.walk (h.mustBeZero new _ h.newRoot),
    fun k f low high reach belongs => ?_⟩
  rw [ofOld.belongs] at belongs
  rw [ofNew.table (Nat.le_trans (List.length_take_le' _ _) (by simp [indices]))] at reach
  exact apart k f low high reach belongs

/-- One copy is hung into a table that the old tree does not have. -/
theorem Forest.private_store (h : Forest P old new role n s) {d : Nat}
    (forest : Forest P old new role d u) (same : Same role s.mem u.mem) {f q : Frame} (is : List Index)
    {a : Index} (shallow : is.length < 3) (reach : PageTree.table next s.mem new is = some f)
    (avoid : PageTree.table next s.mem old is ≠ some f) (here : present (s.mem f a) = true)
    (small : largePage (s.mem f a) = false) (free : role q = none)
    (copy : u.mem q = s.mem (pageFrameNumber (s.mem f a)))
    (others : ∀ k g, 1 ≤ k → k ≤ 3 → (indices va).take k ≠ is ++ [a] →
      PageTree.table next s.mem new ((indices va).take k) = some g → ¬ Belongs s.mem old g) :
    Private old new va s.mem (u.store f a (setPageFrameNumber (s.mem f a) q)).mem := by
  have short : ∀ k, ((indices va).take k).length ≤ 3 := fun k => List.length_take_le' k (indices va)
  have ofOld := h.agree h.oldRoot same
  have ofNew := h.agree h.newRoot same
  have placed : role f = some is := h.role_table h.newRoot (Nat.le_of_lt shallow) reach
  have atF : u.mem f = s.mem f := same f (by simp [placed])
  have child : role (pageFrameNumber (s.mem f a)) = some (is ++ [a]) :=
    h.typed f _ a _ placed shallow (next_of_present here small)
  have copyU : u.mem q = u.mem (pageFrameNumber (u.mem f a)) := by
    rw [copy, atF, same _ (by simp [child])]
  have reachU : PageTree.table next u.mem new is = some f := by rw [ofNew.table (by omega), reach]
  have avoidU : PageTree.table next u.mem old is ≠ some f := by
    rw [ofOld.table (by omega)]
    exact avoid
  have hereU : present (u.mem f a) = true := by rw [atF, here]
  have smallU : largePage (u.mem f a) = false := by rw [atF, small]
  rw [← atF]
  refine ⟨fun g belongs => ?_, fun va' => ?_, fun k g low high met belongs => ?_⟩
  · rw [forest.store_untouched placed avoidU (ofOld.belongs.mpr belongs), ofOld g belongs]
  · rw [forest.store_walk placed free reachU shallow hereU smallU copyU,
      ofNew.walk (h.mustBeZero new _ h.newRoot)]
  · rw [forest.store_belongs placed free avoidU, ofOld.belongs] at belongs
    rw [forest.store_table placed free reachU hereU smallU copyU (short k)] at met
    by_cases replaced : (indices va).take k = is ++ [a]
    · rw [if_pos replaced] at met
      obtain rfl := Option.some.inj met
      exact h.placed h.oldRoot belongs free
    · rw [if_neg replaced, ofNew.table (Nat.le_succ_of_le (short k))] at met
      exact others k g low high replaced met belongs

theorem Private.agree {m m' m'' : Memory} (h : Private old new va m m') (ofOld : Agree old m' m'')
    (ofNew : Agree new m' m'')
    (mustBeZero : ∀ a, present (m' new a) = true → largePage (m' new a) = false) :
    Private old new va m m'' := by
  have before : Agree old m m' := h.untouched
  refine ⟨fun f belongs => ?_, fun va' => ?_, fun k f low high reach belongs => ?_⟩
  · rw [ofOld f (before.belongs.mpr belongs), before f belongs]
  · rw [ofNew.walk (mustBeZero _), h.translations]
  · rw [ofNew.table (Nat.le_trans (List.length_take_le' _ _) (by simp [indices]))] at reach
    exact h.apart k f low high reach (ofOld.belongs.mp belongs)

section Outcomes
variable {pdptNew pdtNew ptNew : Option Frame} {a b c d : Nat}
variable (h : Forest P old new role n s) (path : Path s.mem new va pdpt pd)
  (x : Copies P old new role va s u pdptNew pdtNew ptNew a b c d)
include h path x

theorem Copies.writes_pdpt (oldHere : present (s.mem old (pml4Index va)) = true)
    (shared : SharedPdpt s.mem old new va) :
    Belongs s.mem old pdpt ∧
      (hang pdptNew new (pml4Index va) (s.mem new (pml4Index va))
        (hang pdtNew pdpt (pdptIndex va) (s.mem pdpt (pdptIndex va))
          (hang ptNew pd (pdIndex va) (s.mem pd (pdIndex va)) u))).mem pdpt ≠ s.mem pdpt := by
  obtain ⟨newPd, newPdpt, pdptPd⟩ := h.path_apart path
  obtain ⟨rolePdpt, rolePd⟩ := h.role_pd h.newRoot path
  have toPdpt : pageFrameNumber (s.mem old (pml4Index va)) = pdpt := shared.symm.trans path.toPdpt
  have same : alHvMmGetPdpte s.mem old va = s.mem pdpt (pdptIndex va) := by
    rw [getPdpte_present oldHere, toPdpt]
  have sharedPd : SharedPd s.mem old new va := by rw [SharedPd, same, path.getPdpte]
  obtain ⟨q, hq⟩ := Option.isSome_iff_exists.mp (x.pdCopy.made.mpr sharedPd)
  refine ⟨⟨[pml4Index va], by simp, ?_⟩, fun kept => ?_⟩
  · simp only [PageTree.table,
      next_of_present oldHere (h.mustBeZero old _ h.oldRoot oldHere), Option.bind_some, toPdpt]
  · have atEntry := congrFun kept (pdptIndex va)
    rw [hang_frame newPdpt.symm, hq, hang, store_here] at atEntry
    refine setPageFrameNumber_ne ?_ atEntry
    rw [path.toPd]
    rintro rfl
    rw [x.pdCopy.unplaced pd hq] at rolePd
    cases rolePd

theorem Copies.writes_pd (noGb : ¬ GbPage s.mem old va)
    (oldHere : present (alHvMmGetPdpte s.mem old va) = true)
    (here : present (s.mem pd (pdIndex va)) = true) (shared : SharedPd s.mem old new va)
    (small : largePage (s.mem pd (pdIndex va)) = false) :
    Belongs s.mem old pd ∧
      (hang pdptNew new (pml4Index va) (s.mem new (pml4Index va))
        (hang pdtNew pdpt (pdptIndex va) (s.mem pdpt (pdptIndex va))
          (hang ptNew pd (pdIndex va) (s.mem pd (pdIndex va)) u))).mem pd ≠ s.mem pd := by
  obtain ⟨newPd, newPdpt, pdptPd⟩ := h.path_apart path
  obtain ⟨pdptOld, pdOld, pathOld⟩ := Path.of_pdpte noGb oldHere
  obtain rfl : pd = pdOld := by
    rw [← path.toPd, ← pathOld.toPd, ← path.getPdpte, ← pathOld.getPdpte]
    exact shared
  have rolePt := h.role_pt h.newRoot path here small
  have pdeOld : alHvMmGetPde (withCopies P old new va s) old va = s.mem pd (pdIndex va) := by
    rw [(pathOld.congr h h.oldRoot x.seen).getPde, x.seen pd (by simp [(h.role_pd h.newRoot path).2])]
  have sharedPt : SharedPt (withCopies P old new va s) old new va := by
    rw [SharedPt, x.pde h path, pdeOld]
    exact ⟨small, rfl⟩
  obtain ⟨q, hq⟩ := Option.isSome_iff_exists.mp (x.ptCopy.made.mpr sharedPt)
  refine ⟨⟨[pml4Index va, pdptIndex va], by simp, ?_⟩, fun kept => ?_⟩
  · exact (pathOld.tables (h.mustBeZero old _ h.oldRoot pathOld.pml4e)).2
  · have atEntry := congrFun kept (pdIndex va)
    rw [hang_frame newPd.symm, hang_frame pdptPd.symm, hq, hang, store_here] at atEntry
    refine setPageFrameNumber_ne ?_ atEntry
    intro same
    rw [same, x.ptCopy.unplaced q hq] at rolePt
    cases rolePt

/-- The copies of a call on a private PDPT are hung in without touching the old tree, if no table is
written that the old tree has. -/
theorem Copies.isolates (here : present (s.mem pd (pdIndex va)) = true)
    (pdpt' : ¬ SharedPdpt s.mem old new va)
    (pdOut : pdtNew = none ∨ ptNew ≠ none → ¬ Belongs s.mem old pd)
    (ptOut : ptNew = none ∨ pdtNew ≠ none → ∀ g,
      PageTree.table next s.mem new (indices va) = some g → ¬ Belongs s.mem old g) :
    Private old new va s.mem
      (hang pdptNew new (pml4Index va) (s.mem new (pml4Index va))
        (hang pdtNew pdpt (pdptIndex va) (s.mem pdpt (pdptIndex va))
          (hang ptNew pd (pdIndex va) (s.mem pd (pdIndex va)) u))).mem := by
  obtain ⟨toPdpt, toPd⟩ := path.tables (h.mustBeZero new _ h.newRoot path.pml4e)
  obtain ⟨newPd, newPdpt, pdptPd⟩ := h.path_apart path
  obtain ⟨rolePdpt, rolePd⟩ := h.role_pd h.newRoot path
  have pdptOut : ¬ Belongs s.mem old pdpt := fun belongs =>
    pdpt' ((h.shared_of_belongs (k := 1) toPdpt belongs).1 rfl)
  have out : ∀ k g, 1 ≤ k → k ≤ 3 → (k = 2 → pdtNew = none ∨ ptNew ≠ none) →
      (k = 3 → ptNew = none ∨ pdtNew ≠ none) →
      PageTree.table next s.mem new ((indices va).take k) = some g → ¬ Belongs s.mem old g := by
    intro k g low high two three met
    obtain rfl | rfl | rfl : k = 1 ∨ k = 2 ∨ k = 3 := by omega
    · obtain rfl := Option.some.inj (toPdpt.symm.trans met)
      exact pdptOut
    · obtain rfl := Option.some.inj (toPd.symm.trans met)
      exact pdOut (two rfl)
    · exact ptOut (three rfl) g met
  cases pdptNew with
  | some q => exact absurd (x.pdptCopy.made.mp rfl) pdpt'
  | none =>
  cases pdtNew with
  | none =>
      cases ptNew with
      | none =>
          exact h.private_kept x.same fun k g low high met =>
            out k g low high (fun _ => .inl rfl) (fun _ => .inl rfl) met
      | some pt =>
          have shared := x.ptCopy.made.mp rfl
          rw [SharedPt, x.pde h path] at shared
          refine h.private_store x.forest x.same [pml4Index va, pdptIndex va] (by simp) toPd
            (fun reach => pdOut (.inl rfl) ⟨_, by simp, reach⟩) here shared.1 (x.ptCopy.unplaced pt rfl)
            ?_ fun k g low high other met => ?_
          · rw [x.ptCopy.contents pt rfl, x.pde h path,
              x.seen _ (by simp [h.role_pt h.newRoot path here shared.1])]
          · refine out k g low high (fun _ => .inl rfl) (fun three => ?_) met
            subst three
            exact absurd rfl other
  | some q =>
      have hung : Private old new va s.mem
          (u.store pdpt (pdptIndex va) (setPageFrameNumber (s.mem pdpt (pdptIndex va)) q)).mem := by
        refine h.private_store x.forest x.same [pml4Index va] (by simp) toPdpt
          (fun reach => pdptOut ⟨_, by simp, reach⟩) path.pdpte path.small (x.pdCopy.unplaced q rfl)
          (by rw [x.pd_contents h path rfl, path.toPd]) fun k g low high other met => ?_
        refine out k g low high (fun two => ?_) (fun _ => .inr (by simp)) met
        subst two
        exact absurd rfl other
      cases ptNew with
      | none => exact hung
      | some pt =>
          have swap := store_comm (s := u) (e := setPageFrameNumber (s.mem pd (pdIndex va)) pt)
            (v := setPageFrameNumber (s.mem pdpt (pdptIndex va)) q) (a := pdIndex va)
            (b := pdptIndex va) (.inl pdptPd.symm)
          simp only [hang, swap]
          have atPdpt : u.mem pdpt = s.mem pdpt := x.same pdpt (by simp [rolePdpt])
          have reachU : PageTree.table next u.mem new [pml4Index va] = some pdpt := by
            rw [(h.agree h.newRoot x.same).table (by simp), toPdpt]
          refine hung.agree (Agree.store fun belongs => ?_) (Agree.store fun belongs => ?_)
            fun e here => ?_
          · have before : Agree old s.mem _ := hung.untouched
            exact pdOut (.inr (by simp)) (before.belongs.mp belongs)
          · obtain ⟨js, short, reach⟩ := belongs
            rw [← atPdpt, x.forest.store_table rolePdpt (x.pdCopy.unplaced q rfl) reachU
              (by rw [atPdpt, path.pdpte]) (by rw [atPdpt, path.small])
              (by rw [x.pd_contents h path rfl, atPdpt, path.toPd, x.same pd (by simp [rolePd])])
              short] at reach
            split at reach
            · obtain rfl := Option.some.inj reach
              rw [x.pdCopy.unplaced q rfl] at rolePd
              cases rolePd
            · rename_i other
              have place := x.forest.role_table h.newRoot short reach
              rw [rolePd] at place
              exact other (Option.some.inj place).symm
          · rw [store_frame newPdpt, x.same new (by simp [h.newRoot])] at here ⊢
            exact h.mustBeZero new e h.newRoot here

end Outcomes

theorem gb_table {m : Memory} {root : Frame} (gb : GbPage m root va) (js : List Index) :
    PageTree.table next m root (pml4Index va :: pdptIndex va :: js) = none := by
  obtain ⟨-, -, large⟩ := gb
  simp only [PageTree.table]
  cases child : next (m root (pml4Index va)) with
  | none => rfl
  | some f =>
      obtain ⟨-, -, rfl⟩ := next_eq_some.mp child
      rw [Option.bind_some, next_of_large large, Option.bind_none]

theorem take_indices {k : Nat} (low : 2 ≤ k) :
    (indices va).take k = pml4Index va :: pdptIndex va :: [pdIndex va].take (k - 2) := by
  obtain ⟨l, rfl⟩ : ∃ l, k = l + 2 := ⟨k - 2, by omega⟩
  rfl

theorem Forest.gb_outside (h : Forest P old new role n s) (gb : GbPage s.mem old va) {f : Frame}
    {k : Nat} (low : 2 ≤ k) (place : role f = some ((indices va).take k)) : ¬ Belongs s.mem old f := by
  rintro ⟨js, short, reach⟩
  have place' := h.role_table h.oldRoot short reach
  rw [place] at place'
  obtain rfl := Option.some.inj place'
  rw [take_indices low, gb_table gb] at reach
  cases reach

theorem Copies.path_iff {pdptNew pdtNew ptNew : Option Frame} {a b c d : Nat}
    (h : Forest P old new role n s) (path : Path s.mem new va pdpt pd)
    (x : Copies P old new role va s u pdptNew pdtNew ptNew a b c d) (goes : ¬ Refused P old new va s) :
    Private old new va s.mem (relinked P old new va s pdptNew pdtNew ptNew u).mem ↔
      ¬ SharedPdpt s.mem old new va ∧ (¬ SharedPd s.mem old new va ∨ GbPage s.mem old va ∨
        largePage (alHvMmGetPde s.mem new va) = true) := by
  obtain ⟨newHere, oldHere, pdpteOldHere, pdpteHere, pdeOldHere, pdeHere⟩ := accepted goes
  rw [x.pde h path] at pdeHere
  obtain ⟨rolePdpt, rolePd⟩ := h.role_pd h.newRoot path
  obtain ⟨-, toPd⟩ := path.tables (h.mustBeZero new _ h.newRoot path.pml4e)
  rw [x.relink_eq h path, path.getPde]
  constructor
  · intro isolated
    refine ⟨fun shared => ?_, ?_⟩
    · obtain ⟨belongs, changed⟩ := x.writes_pdpt h path oldHere shared
      exact changed (isolated.untouched _ belongs)
    · by_contra none
      obtain ⟨shared, rest⟩ := not_or.mp none
      obtain ⟨noGb, small⟩ := not_or.mp rest
      obtain ⟨belongs, changed⟩ := x.writes_pd h path noGb pdpteOldHere pdeHere (not_not.mp shared)
        (by simpa using small)
      exact changed (isolated.untouched _ belongs)
  · rintro ⟨pdpt', rest⟩
    by_cases gb : GbPage s.mem old va
    · exact x.isolates h path pdeHere pdpt' (fun _ => h.gb_outside gb (k := 2) (Nat.le_refl 2) rolePd)
        fun _ g met => h.gb_outside gb (k := 3) (by omega) (h.role_table h.newRoot (by simp [indices]) met)
    obtain ⟨pdptOld, pdOld, pathOld⟩ := Path.of_pdpte gb pdpteOldHere
    have pdeOld : alHvMmGetPde (withCopies P old new va s) old va = alHvMmGetPde s.mem old va := by
      rw [(pathOld.congr h h.oldRoot x.seen).getPde, pathOld.getPde,
        x.seen _ (by simp [(h.role_pd h.oldRoot pathOld).2])]
    have sharedPt : SharedPt (withCopies P old new va s) old new va ↔ SharedPt s.mem old new va := by
      rw [SharedPt, SharedPt, pdeOld, x.pde h path, path.getPde]
    have rest : ¬ SharedPd s.mem old new va ∨ largePage (s.mem pd (pdIndex va)) = true :=
      rest.imp_right fun either => either.resolve_left gb
    refine x.isolates h path pdeHere pdpt' (fun which belongs => ?_) fun which g met belongs => ?_
    · have shared := (h.shared_of_belongs (k := 2) toPd belongs).2.1 rfl
      rcases which with none | some
      · simpa [none] using x.pdCopy.made.mpr shared
      · have pt := x.ptCopy.made.mp (Option.isSome_iff_ne_none.mpr some)
        rw [SharedPt, x.pde h path] at pt
        simp [pt.1, shared] at rest
    · have shared := (h.shared_of_belongs (k := 3) met belongs).2.2 rfl
      rcases which with none | some
      · simpa [none] using x.ptCopy.made.mpr (sharedPt.mpr shared)
      · have pd' := x.pdCopy.made.mp (Option.isSome_iff_ne_none.mpr some)
        rw [SharedPt, path.getPde] at shared
        simp [shared.1, pd'] at rest

/-- A tree whose pages have one place each, and a page that is no part of it whose entries are
copies of the root's or lead nowhere. -/
theorem Forest.of_copy (typed : PageTree.Typed next 3 role s.mem)
    (root : role old = some []) (only : ∀ f, role f = some [] → f = old) (outside : role new = none)
    (copied : ∀ a, s.mem new a = s.mem old a ∨ present (s.mem new a) = false)
    (mustBeZero : ∀ a, present (s.mem old a) = true → largePage (s.mem old a) = false)
    (bound : n ≤ poolPages) (usable : s.limits.poolUsable = 0x1000 * n)
    (top : Pool.InPool s.limits.poolBigMemEnd)
    (fresh : ∀ i, n ≤ i → i < poolPages → role (P.page i) = none ∧ P.page i ≠ new) :
    Forest P old new (Function.update role new (some [])) n s := by
  have apart : new ≠ old := by
    rintro rfl
    rw [root] at outside
    cases outside
  have keep : ∀ f js, role f = some js → f ≠ new := by
    rintro f js place rfl
    rw [outside] at place
    cases place
  refine ⟨fun f is a g place short child => ?_, ?_, Function.update_self _ _ _, apart,
    fun f a place here => ?_, bound, usable, top, fun i above inside => ?_⟩
  · have whose : ∃ f', role f' = some is ∧ next (s.mem f' a) = some g := by
      by_cases here : f = new
      · subst here
        rw [Function.update_self] at place
        obtain rfl := Option.some.inj place
        rcases copied a with same | absent
        · exact ⟨old, root, same ▸ child⟩
        · rw [next_eq_some, absent] at child
          cases child.1
      · rw [Function.update_of_ne here] at place
        exact ⟨f, place, child⟩
    obtain ⟨f', place', child'⟩ := whose
    have below := typed f' is a g place' short child'
    rw [Function.update_of_ne (keep g _ below), below]
  · rw [Function.update_of_ne apart.symm, root]
  · by_cases isNew : f = new
    · subst isNew
      rcases copied a with same | absent
      · rw [same] at here ⊢
        exact mustBeZero a here
      · rw [absent] at here
        cases here
    · rw [Function.update_of_ne isNew] at place
      obtain rfl := only f place
      exact mustBeZero a here
  · obtain ⟨free, other⟩ := fresh i above inside
    rw [Function.update_of_ne other, free]

end Call

end LMalz.Host
