import LMalz.Monitor.Violation

/- What the cores have cached of the two EPTs: ALvmxMNTsetTarget executes INVEPT on its own core
only. -/
namespace LMalz.Monitor
open Ept Transition

/-- The guest-physical mappings that a core has cached, by the top table and the page: may the page
be executed? -/
abbrev EptCache := Frame → Frame → Option Bool

def EptCache.invept : EptCache := fun _ _ => none

def EptCache.set (cache : EptCache) (root page : Frame) (b : Option Bool) : EptCache :=
  fun r p => if r = root ∧ p = page then b else cache r p

structure CachedCores where
  cores : Cores
  cache : Nat → EptCache

namespace CachedCores

/-- The top table in force on a core. -/
def root (sys : CachedCores) (i : Nat) : Frame := pageFrameNumber (sys.cores.core i).eptPointer

def walked (sys : CachedCores) (i : Nat) (gpa : BitVec 64) : Bool :=
  allowsExecute sys.cores.machine ⟨0, gpa⟩ (sys.cores.core i)

/-- Core i executes the page of the address, by what it has cached or else by the tables. -/
def executes (sys : CachedCores) (i : Nat) (gpa : BitVec 64) : Bool :=
  (sys.cache i (sys.root i) (pageOf gpa)).getD (sys.walked i gpa)

def edit (sys : CachedCores) (s : Machine) : CachedCores :=
  { sys with cores := ⟨s, sys.cores.core⟩ }

def invept (sys : CachedCores) (i : Nat) : CachedCores :=
  { sys with cache := Function.update sys.cache i .invept }

def setEntry (sys : CachedCores) (i : Nat) (root page : Frame) (b : Option Bool) : CachedCores :=
  { sys with cache := Function.update sys.cache i ((sys.cache i).set root page b) }

def setCore (sys : CachedCores) (i : Nat) (c : Core) : CachedCores :=
  { sys with cores := ⟨sys.cores.machine, Function.update sys.cores.core i c⟩ }

end CachedCores

inductive CacheEvent where
  | setTarget (i : Nat) (c : Call)
  | request (size : Int)
  | fill (i : Nat) (gpa : BitVec 64)
  | evict (i : Nat) (root page : Frame)
  | violation (i : Nat) (v : Violation)

/-- A core caches a translation at any time and drops any at any time. A violation drops the one it
is about. -/
inductive CacheStep (P : Platform) (fuel : Nat) (target vice : EptCls) :
    CachedCores → CacheEvent → CachedCores → Prop
  | setTarget {sys : CachedCores} {s : Machine} {i : Nat} {c : Call}
      (step : Step P fuel target vice sys.cores.machine (.setTarget c) s) :
      CacheStep P fuel target vice sys (.setTarget i c) ((sys.edit s).invept i)
  | request {sys : CachedCores} {s : Machine} {size : Int}
      (step : Step P fuel target vice sys.cores.machine (.request size) s) :
      CacheStep P fuel target vice sys (.request size) (sys.edit s)
  | fill {sys : CachedCores} {i : Nat} {gpa : BitVec 64} (low : Below512G gpa) :
      CacheStep P fuel target vice sys (.fill i gpa)
        (sys.setEntry i (sys.root i) (pageOf gpa) (some (sys.walked i gpa)))
  | evict {sys : CachedCores} {i : Nat} {root page : Frame} :
      CacheStep P fuel target vice sys (.evict i root page) (sys.setEntry i root page none)
  | violation {sys : CachedCores} {i : Nat} {v : Violation} {c : Core}
      (execute : v.executeAccess = true) (low : Below512G v.physicalAddress)
      (forbidden : sys.executes i v.physicalAddress = false)
      (exit : violationExit target vice sys.cores.machine v (sys.cores.core i) = some c) :
      CacheStep P fuel target vice sys (.violation i v)
        ((sys.setEntry i (sys.root i) (pageOf v.physicalAddress) none).setCore i c)

/-- The pages that an event passes to set_pte. -/
def CacheEvent.pages : CacheEvent → List Frame
  | .setTarget _ c => Event.pages (.setTarget c)
  | _ => []

def CacheEvent.passed (es : List CacheEvent) : List Frame := es.flatMap CacheEvent.pages

/-- What a core has cached was in the tables at some time: a page that the vice EPT forbade or the
target EPT allowed was passed. -/
structure EptCache.Past (target vice : EptCls) (pages : List Frame) (cache : EptCache) : Prop where
  vice : ∀ page, cache vice.eptPml4 page = some false → page ∈ pages
  target : ∀ page, cache target.eptPml4 page = some true → page ∈ pages

structure CachedCores.Sound (P : Platform) (target vice : EptCls) (pages : List Frame)
    (sys : CachedCores) : Prop where
  monitored : ∃ k, Monitored P target vice sys.cores.machine pages k
  core : ∀ i, ∃ n, (sys.cores.core i).Sound target vice n
  past : ∀ i, (sys.cache i).Past target vice pages

/-- Nothing is cached when ALvmxMNTinit returns; a core may fill its cache at once. -/
structure CachedCores.Started (P : Platform) (fuel : Nat) (target vice : EptCls)
    (sys : CachedCores) : Prop where
  cores : sys.cores.Started P fuel target vice
  cache : ∀ i, sys.cache i = .invept

theorem cached_one_page : ∃ target vice sys₀ s,
    CachedCores.Started coldPlatform 6 target vice sys₀ ∧
    Step coldPlatform 6 target vice sys₀.cores.machine (.setTarget ⟨0x5000, 0x1000, id⟩) s := by
  obtain ⟨target, vice, sys₀, sys, k, start, run, -⟩ := cores_one_page
  cases run with
  | cons first none =>
      cases first with
      | edit step => exact ⟨target, vice, ⟨_, fun _ => .invept⟩, _, ⟨start, fun _ => rfl⟩, step⟩

section Caches
variable {target vice : EptCls} {pages more : List Frame} {cache : EptCache} {root page : Frame}
  {b : Option Bool}

theorem EptCache.set_here : cache.set root page b root page = b := if_pos ⟨rfl, rfl⟩

theorem EptCache.set_other {r p : Frame} (apart : r ≠ root) :
    cache.set root page b r p = cache r p :=
  if_neg fun same => apart same.1

theorem EptCache.set_cases {r p : Frame} {d : Bool} (found : cache.set root page b r p = some d) :
    (r = root ∧ p = page ∧ b = some d) ∨ cache r p = some d := by
  rw [EptCache.set] at found
  split at found
  · next here => exact .inl ⟨here.1, here.2, found⟩
  · exact .inr found

theorem EptCache.invept_past : EptCache.invept.Past target vice pages := by
  constructor
  · intro page found
    cases found
  · intro page found
    cases found

theorem EptCache.Past.mono (past : cache.Past target vice pages) (sub : pages ⊆ more) :
    cache.Past target vice more :=
  ⟨fun page found => sub (past.vice page found), fun page found => sub (past.target page found)⟩

theorem EptCache.Past.set (past : cache.Past target vice pages)
    (inVice : root = vice.eptPml4 → b = some false → page ∈ pages)
    (inTarget : root = target.eptPml4 → b = some true → page ∈ pages) :
    (cache.set root page b).Past target vice pages := by
  constructor
  · intro p found
    rcases EptCache.set_cases found with ⟨same, rfl, value⟩ | before
    · exact inVice same.symm value
    · exact past.vice p before
  · intro p found
    rcases EptCache.set_cases found with ⟨same, rfl, value⟩ | before
    · exact inTarget same.symm value
    · exact past.target p before

theorem EptCache.Past.drop (past : cache.Past target vice pages) :
    (cache.set root page none).Past target vice pages := by
  apply past.set
  · intro _ value
    cases value
  · intro _ value
    cases value

end Caches

section Steps
variable {P : Platform} {fuel : Nat} {target vice : EptCls} {s : Machine} {sys sys' : CachedCores}
  {e : CacheEvent} {es : List CacheEvent} {v : Violation} {c : Core}
  {pages : List Frame} {i k n : Nat}
  {gpa : BitVec 64}

theorem Core.Sound.root (sound : c.Sound target vice n) (pointers : Pointers target vice) :
    pageFrameNumber c.eptPointer = if n % 2 = 0 then vice.eptPml4 else target.eptPml4 := by
  rw [sound.pointer]
  split
  · exact pointers.vice
  · exact pointers.target

theorem Monitored.apart (h : Monitored P target vice s pages k) :
    vice.eptPml4 ≠ target.eptPml4 := by
  obtain ⟨role, p⟩ := h
  exact p.mapsX.distinct vice.eptPml4 (by simp)

/-- With the target EPT in force any violation of execution ends the visit. -/
theorem Monitored.leave (h : Monitored P target vice s pages k) (pointers : Pointers target vice)
    (sound : c.Sound target vice n) (odd : n % 2 ≠ 0) (execute : v.executeAccess = true) :
    monitorEptViolationHandler target vice s v c =
      (true, { c with eptPointer := vice.eptpV, callbacks := c.callbacks ++ [.exit] }) := by
  have inTarget : pageFrameNumber c.eptPointer = target.eptPml4 := by
    rw [sound.root pointers, if_neg odd]
  rw [monitorEptViolationHandler, if_neg (by simp [execute]), inTarget, pointers.vice,
    pointers.target,
    if_neg h.apart.symm, if_pos rfl]

/-- The handler takes a violation that only the cache of the core still sees, too: with the vice EPT
in force the page was passed, with the target EPT it does not look at the page. -/
theorem Monitored.violation_cached (h : Monitored P target vice s pages k)
    (pointers : Pointers target vice)
    (sound : c.Sound target vice n) (execute : v.executeAccess = true)
    (low : Below512G v.physicalAddress)
    (passed : n % 2 = 0 → pageOf v.physicalAddress ∈ pages) :
    ∃ c', monitorEptViolationHandler target vice s v c = (true, c') ∧
      c'.Sound target vice (n + 1) := by
  by_cases even : n % 2 = 0
  · have forbidden : allowsExecute s v c = false := by
      rw [h.allowsExecute_vice pointers low (sound.pointer.trans (if_pos even)), Bool.not_eq_false',
        decide_eq_true_eq]
      exact passed even
    obtain ⟨c', handled, sound', -⟩ := h.violation pointers sound execute low forbidden
    exact ⟨c', handled, sound'⟩
  · refine ⟨_, h.leave pointers sound even execute, ⟨?_, ?_, sound.alive⟩⟩
    · rw [alternating_succ, if_neg even, sound.callbacks]
    · rw [if_pos (by omega)]

namespace CachedCores

theorem setCore_core : (sys.setCore i c).cores.core i = c := Function.update_self ..

theorem setCore_other {j : Nat} (apart : i ≠ j) :
    (sys.setCore j c).cores.core i = sys.cores.core i :=
  Function.update_of_ne apart ..

theorem invept_cache : (sys.invept i).cache i = .invept := Function.update_self ..

theorem invept_other {j : Nat} (apart : i ≠ j) : (sys.invept j).cache i = sys.cache i :=
  Function.update_of_ne apart ..

theorem invept_cases {j : Nat} {r p : Frame} {d : Bool}
    (found : (sys.invept j).cache i r p = some d) :
    sys.cache i r p = some d := by
  by_cases here : i = j
  · rw [here, invept_cache] at found
    cases found
  · rwa [invept_other here] at found

theorem setEntry_cache {root page : Frame} {b : Option Bool} :
    (sys.setEntry i root page b).cache i = (sys.cache i).set root page b :=
  Function.update_self ..

theorem setEntry_other {j : Nat} {root page : Frame} {b : Option Bool} (apart : i ≠ j) :
    (sys.setEntry j root page b).cache i = sys.cache i :=
  Function.update_of_ne apart ..

theorem setEntry_cases {j : Nat} {root page r p : Frame} {b : Option Bool} {d : Bool}
    (found : (sys.setEntry j root page b).cache i r p = some d) :
    (i = j ∧ r = root ∧ p = page ∧ b = some d) ∨ sys.cache i r p = some d := by
  by_cases here : i = j
  · rw [here, setEntry_cache] at found
    rw [here]
    exact (EptCache.set_cases found).imp_left fun new => ⟨rfl, new⟩
  · rw [setEntry_other here] at found
    exact .inr found

theorem Sound.walked (sound : sys.Sound P target vice pages) (pointers : Pointers target vice)
    (core : (sys.cores.core i).Sound target vice n) (low : Below512G gpa) :
    sys.walked i gpa =
      if n % 2 = 0 then !decide (pageOf gpa ∈ pages) else decide (pageOf gpa ∈ pages) := by
  obtain ⟨k, h⟩ := sound.monitored
  split
  · next even =>
      exact h.allowsExecute_vice (v := ⟨0, gpa⟩) pointers low (core.pointer.trans (if_pos even))
  · next odd =>
      exact h.allowsExecute_target (v := ⟨0, gpa⟩) pointers low (core.pointer.trans (if_neg odd))

/-- A core that the vice EPT stops was stopped at a page passed, whether the tables or the cache
stopped it. -/
theorem Sound.stopped (sound : sys.Sound P target vice pages) (pointers : Pointers target vice)
    (core : (sys.cores.core i).Sound target vice n) (low : Below512G gpa)
    (forbidden : sys.executes i gpa = false) (even : n % 2 = 0) : pageOf gpa ∈ pages := by
  have root : sys.root i = vice.eptPml4 := (core.root pointers).trans (if_pos even)
  rw [executes, root] at forbidden
  cases cached : sys.cache i vice.eptPml4 (pageOf gpa) with
  | none =>
      rw [cached, Option.getD_none, sound.walked pointers core low, if_pos even] at forbidden
      simpa using forbidden
  | some b =>
      rw [cached, Option.getD_some] at forbidden
      rw [forbidden] at cached
      exact (sound.past i).vice _ cached

/-- A core that the target EPT stops at a page passed has an old translation of it. -/
theorem Sound.stale (sound : sys.Sound P target vice pages) (pointers : Pointers target vice)
    (core : (sys.cores.core i).Sound target vice n) (low : Below512G gpa)
    (forbidden : sys.executes i gpa = false) (odd : ¬ n % 2 = 0) (passed : pageOf gpa ∈ pages) :
    sys.cache i target.eptPml4 (pageOf gpa) = some false := by
  have root : sys.root i = target.eptPml4 := (core.root pointers).trans (if_neg odd)
  rw [executes, root] at forbidden
  cases cached : sys.cache i target.eptPml4 (pageOf gpa) with
  | none =>
      rw [cached, Option.getD_none, sound.walked pointers core low, if_neg odd] at forbidden
      simp [passed] at forbidden
  | some b =>
      rw [cached, Option.getD_some] at forbidden
      rw [forbidden]

theorem Sound.violation (sound : sys.Sound P target vice pages) (pointers : Pointers target vice)
    (core : (sys.cores.core i).Sound target vice n) (execute : v.executeAccess = true)
    (low : Below512G v.physicalAddress) (forbidden : sys.executes i v.physicalAddress = false) :
    ∃ c, monitorEptViolationHandler target vice sys.cores.machine v (sys.cores.core i) = (true, c) ∧
      violationExit target vice sys.cores.machine v (sys.cores.core i) = some c ∧
      c.Sound target vice (n + 1) := by
  obtain ⟨k, h⟩ := sound.monitored
  obtain ⟨c, handled, after⟩ := h.violation_cached pointers core execute low
    (sound.stopped pointers core low forbidden)
  exact ⟨c, handled, violationExit_eq handled, after⟩

theorem Sound.fill (sound : sys.Sound P target vice pages) (pointers : Pointers target vice)
    (low : Below512G gpa) :
    ((sys.cache i).set (sys.root i) (pageOf gpa) (some (sys.walked i gpa))).Past
      target vice pages := by
  obtain ⟨k, h⟩ := sound.monitored
  obtain ⟨n, core⟩ := sound.core i
  have root : sys.root i = _ := core.root pointers
  rw [sound.walked pointers core low]
  by_cases even : n % 2 = 0
  · rw [if_pos even] at root ⊢
    apply (sound.past i).set
    · intro _ value
      simpa using value
    · intro same _
      exact absurd (root.symm.trans same) h.apart
  · rw [if_neg even] at root ⊢
    apply (sound.past i).set
    · intro same _
      exact absurd (same.symm.trans root) h.apart
    · intro _ value
      simpa using value

theorem setEntry_past {j : Nat} {root page : Frame} {b : Option Bool}
    (past : ∀ i, (sys.cache i).Past target vice pages)
    (here : ((sys.cache j).set root page b).Past target vice pages) :
    ((sys.setEntry j root page b).cache i).Past target vice pages := by
  by_cases same : i = j
  · rw [same, setEntry_cache]
    exact here
  · rw [setEntry_other same]
    exact past i

theorem Sound.step (sound : sys.Sound P target vice pages) (pointers : Pointers target vice)
    (enough : 6 ≤ fuel) (step : CacheStep P fuel target vice sys e sys') :
    sys'.Sound P target vice (e.pages ++ pages) := by
  obtain ⟨k, h⟩ := sound.monitored
  cases step with
  | @setTarget s j c step =>
      obtain ⟨k', after, -⟩ := h.step enough step
      refine ⟨⟨k', after⟩, sound.core, fun i => ?_⟩
      have past : (sys.cache i).Past target vice (Event.pages (.setTarget c) ++ pages) :=
        (sound.past i).mono (List.subset_append_right _ _)
      exact ⟨fun page found => past.vice page (invept_cases found),
        fun page found => past.target page (invept_cases found)⟩
  | @request s size step =>
      obtain ⟨k', after, -⟩ := h.step enough step
      exact ⟨⟨k', after⟩, sound.core, sound.past⟩
  | fill low =>
      exact ⟨⟨k, h⟩, sound.core, fun _ => setEntry_past sound.past (sound.fill pointers low)⟩
  | @evict j root page =>
      exact ⟨⟨k, h⟩, sound.core, fun _ => setEntry_past sound.past (sound.past j).drop⟩
  | @violation j v c execute low forbidden exit =>
      refine ⟨⟨k, h⟩, fun i => ?_, fun _ => setEntry_past sound.past (sound.past j).drop⟩
      by_cases here : i = j
      · obtain ⟨n, core⟩ := sound.core j
        obtain ⟨c', -, exits, after⟩ := sound.violation pointers core execute low forbidden
        rw [exits] at exit
        rw [here, setCore_core, ← Option.some.inj exit]
        exact ⟨n + 1, after⟩
      · rw [setCore_other here]
        exact sound.core i

theorem Sound.congr (sound : sys.Sound P target vice pages) {more : List Frame}
    (same : ∀ page, page ∈ pages ↔ page ∈ more) : sys.Sound P target vice more := by
  obtain ⟨k, h⟩ := sound.monitored
  exact ⟨⟨k, h.congr fun page => (same page).symm⟩, sound.core,
    fun i => (sound.past i).mono fun page => (same page).mp⟩

theorem Sound.run (run : Run (CacheStep P fuel target vice) sys es sys')
    (pointers : Pointers target vice)
    (enough : 6 ≤ fuel) (sound : sys.Sound P target vice pages) :
    sys'.Sound P target vice (CacheEvent.passed es ++ pages) := by
  induction run generalizing pages with
  | nil s => exact sound
  | cons first _ ih =>
      apply (ih (sound.step pointers enough first)).congr
      intro page
      simp only [CacheEvent.passed, List.flatMap_cons, List.mem_append]
      tauto

theorem Started.sound (start : sys.Started P fuel target vice) (enough : 4 ≤ fuel) :
    sys.Sound P target vice [] := by
  obtain ⟨-, core⟩ := start.cores.sound enough
  refine ⟨start.cores.machine.monitored enough, core, fun i => ?_⟩
  rw [start.cache i]
  exact EptCache.invept_past

end CachedCores

end Steps

/-- No call of ALvmxMNTsetTarget is among the events, and core i runs into the page only. -/
def CacheEvent.Retries (i : Nat) (page : Frame) : CacheEvent → Prop
  | .setTarget _ _ => False
  | .violation j v => j = i → pageOf v.physicalAddress = page
  | _ => True

theorem CacheEvent.Retries.pages {i : Nat} {page : Frame} {e : CacheEvent}
    (retry : e.Retries i page) : e.pages = [] := by
  cases e with
  | setTarget => exact retry.elim
  | request => rfl
  | fill => rfl
  | evict => rfl
  | violation => rfl

def CacheEvent.violates (i : Nat) : CacheEvent → Bool
  | .violation j _ => j = i
  | _ => false

/-- The violations that core i can still run into at the page: to come from the vice EPT, and, where
a translation of the target EPT is out of date, to leave for it and to come again. -/
def CachedCores.retries (target : EptCls) (passed : Prop) [Decidable passed] (i : Nat)
    (page : Frame)
    (sys : CachedCores) : Nat :=
  if passed then
    (if sys.root i = target.eptPml4 then 0 else 1) +
      if sys.cache i target.eptPml4 page = some false then 2 else 0
  else if sys.root i = target.eptPml4 then 1 else 0

section Retries
variable {P : Platform} {fuel : Nat} {target vice : EptCls} {sys sys' : CachedCores}
  {e : CacheEvent}
  {es : List CacheEvent} {pages : List Frame} {i : Nat} {page : Frame}

namespace CachedCores

theorem retries_le_three : sys.retries target (page ∈ pages) i page ≤ 3 := by
  rw [retries]
  split_ifs <;> omega

theorem retries_mono (root : sys'.root i = sys.root i)
    (stale : page ∈ pages → sys'.cache i target.eptPml4 page = some false →
      sys.cache i target.eptPml4 page = some false) :
    sys'.retries target (page ∈ pages) i page ≤ sys.retries target (page ∈ pages) i page := by
  rw [retries, retries, root]
  split
  · next passed =>
      by_cases later : sys'.cache i target.eptPml4 page = some false
      · rw [if_pos later, if_pos (stale passed later)]
      · rw [if_neg later]
        omega
  · exact Nat.le_refl _

theorem Sound.retries_violation (sound : sys.Sound P target vice pages)
    (pointers : Pointers target vice)
    {v : Violation} {c : Core} (execute : v.executeAccess = true)
    (low : Below512G v.physicalAddress) (forbidden : sys.executes i v.physicalAddress = false)
    (exit : violationExit target vice sys.cores.machine v (sys.cores.core i) = some c) :
    ((sys.setEntry i (sys.root i) (pageOf v.physicalAddress) none).setCore i c).retries target
        (pageOf v.physicalAddress ∈ pages) i (pageOf v.physicalAddress) + 1 ≤
      sys.retries target (pageOf v.physicalAddress ∈ pages) i (pageOf v.physicalAddress) := by
  obtain ⟨k, h⟩ := sound.monitored
  obtain ⟨n, core⟩ := sound.core i
  obtain ⟨c', -, exits, after⟩ := sound.violation pointers core execute low forbidden
  obtain rfl : c' = c := Option.some.inj (exits.symm.trans exit)
  have root : sys.root i = _ := core.root pointers
  have caches :
      ((sys.setEntry i (sys.root i) (pageOf v.physicalAddress) none).setCore i c').cache i =
      (sys.cache i).set (sys.root i) (pageOf v.physicalAddress) none := setEntry_cache
  have next : ((sys.setEntry i (sys.root i) (pageOf v.physicalAddress) none).setCore i c').root i =
      if (n + 1) % 2 = 0 then vice.eptPml4 else target.eptPml4 := by
    rw [CachedCores.root, setCore_core]
    exact after.root pointers
  by_cases even : n % 2 = 0
  · have passed := sound.stopped pointers core low forbidden even
    rw [if_pos even] at root
    rw [if_neg (by omega)] at next
    rw [retries, retries, next, caches, root, if_pos passed, if_pos passed, if_pos rfl,
      if_neg h.apart,
      EptCache.set_other h.apart.symm]
    omega
  · rw [if_neg even] at root
    rw [if_pos (by omega)] at next
    rw [retries, retries, next, caches, root, if_neg h.apart, if_pos rfl, EptCache.set_here]
    by_cases passed : pageOf v.physicalAddress ∈ pages
    · rw [if_pos passed, if_pos passed,
        if_pos (sound.stale pointers core low forbidden even passed)]
      decide
    · rw [if_neg passed, if_neg passed, if_neg h.apart, if_pos rfl]

theorem Sound.retries_step (sound : sys.Sound P target vice pages) (pointers : Pointers target vice)
    (retry : e.Retries i page) (step : CacheStep P fuel target vice sys e sys') :
    sys'.retries target (page ∈ pages) i page + (if e.violates i then 1 else 0) ≤
      sys.retries target (page ∈ pages) i page := by
  cases step with
  | setTarget step => exact retry.elim
  | request step => exact Nat.le_refl _
  | @fill j gpa low =>
      refine retries_mono rfl fun passed later => ?_
      rcases setEntry_cases later with ⟨-, inForce, rfl, value⟩ | before
      · obtain ⟨k, h⟩ := sound.monitored
        obtain ⟨n, core⟩ := sound.core j
        have root : sys.root j = _ := core.root pointers
        have odd : ¬ n % 2 = 0 := fun even => h.apart (by rw [inForce, root, if_pos even])
        rw [sound.walked pointers core low, if_neg odd] at value
        simp [passed] at value
      · exact before
  | @evict j root p =>
      refine retries_mono rfl fun passed later => ?_
      rcases setEntry_cases later with ⟨-, -, -, value⟩ | before
      · cases value
      · exact before
  | @violation j v c execute low forbidden exit =>
      by_cases here : j = i
      · subst here
        rw [CacheEvent.violates, decide_eq_true rfl, if_pos rfl, ← retry rfl]
        exact sound.retries_violation pointers execute low forbidden exit
      · rw [CacheEvent.violates, decide_eq_false here]
        refine retries_mono ?_ fun passed later => ?_
        · rw [root, setCore_other (Ne.symm here)]
          rfl
        rcases setEntry_cases later with ⟨same, -⟩ | before
        · exact absurd same.symm here
        · exact before

theorem Sound.retries_run (run : Run (CacheStep P fuel target vice) sys es sys')
    (pointers : Pointers target vice) (enough : 6 ≤ fuel) (sound : sys.Sound P target vice pages)
    (retry : ∀ e ∈ es, e.Retries i page) :
    sys'.retries target (page ∈ pages) i page + es.countP (CacheEvent.violates i) ≤
      sys.retries target (page ∈ pages) i page := by
  induction run with
  | nil s => exact Nat.le_refl _
  | @cons s u t e es first _ ih =>
      obtain ⟨here, later⟩ := List.forall_mem_cons.mp retry
      have step := sound.retries_step pointers here first
      have after := sound.step pointers enough first
      rw [here.pages] at after
      have rest := ih after later
      rw [List.countP_cons]
      omega

end CachedCores

end Retries

section Runs
variable {P : Platform} {fuel : Nat} {target vice : EptCls} {sys₀ sys : CachedCores}
  {es : List CacheEvent}

theorem CachedCores.Started.reached (start : sys₀.Started P fuel target vice) (enough : 6 ≤ fuel)
    (run : Run (CacheStep P fuel target vice) sys₀ es sys) :
    sys.Sound P target vice (CacheEvent.passed es) := by
  have sound := (start.sound (by omega)).run run start.cores.machine.pointers enough
  rwa [List.append_nil] at sound

/-- Whatever the cores have cached, each uses one of the two EPTs and alternates between them; the
monitor takes each violation, also one that comes from a translation that is out of date. -/
theorem cached_violations (start : sys₀.Started P fuel target vice) (enough : 6 ≤ fuel)
    (run : Run (CacheStep P fuel target vice) sys₀ es sys) (i : Nat) :
    ((sys.cores.core i).eptPointer = vice.eptpV ∨ (sys.cores.core i).eptPointer = target.eptpV) ∧
    (∃ n, (sys.cores.core i).callbacks = alternating n) ∧ (sys.cores.core i).killed = false ∧
    ∀ v : Violation, v.executeAccess = true → Below512G v.physicalAddress →
      sys.executes i v.physicalAddress = false →
      ∃ c, monitorEptViolationHandler target vice sys.cores.machine v (sys.cores.core i) =
        (true, c) ∧
        violationExit target vice sys.cores.machine v (sys.cores.core i) = some c ∧
          c.killed = false := by
  have sound := start.reached enough run
  obtain ⟨n, core⟩ := sound.core i
  refine ⟨?_, ⟨n, core.callbacks⟩, core.alive, fun v execute low forbidden => ?_⟩
  · rw [core.pointer]
    by_cases even : n % 2 = 0
    · exact .inl (if_pos even)
    · exact .inr (if_neg even)
  · obtain ⟨c, handled, exit, after⟩ :=
      sound.violation start.cores.machine.pointers core execute low forbidden
    exact ⟨c, handled, exit, after.alive⟩

theorem cached_violations_one_page : ∃ target vice sys₀ s,
    Run (CacheStep coldPlatform 6 target vice) sys₀ [.setTarget 1 ⟨0x5000, 0x1000, id⟩] s ∧
    (s.cores.core 0).killed = false ∧ ∃ n, (s.cores.core 0).callbacks = alternating n := by
  obtain ⟨target, vice, sys₀, s, start, step⟩ := cached_one_page
  have run : Run (CacheStep coldPlatform 6 target vice) sys₀
    [.setTarget 1 ⟨0x5000, 0x1000, id⟩] _ :=
    .cons (.setTarget step) (.nil _)
  have reached := cached_violations start (Nat.le_refl 6) run 0
  exact ⟨target, vice, sys₀, _, run, reached.2.2.1, reached.2.1⟩

/-- A core that goes on to execute a page gets there after three violations at most, however often
it and the other cores fill and drop their caches meanwhile. -/
theorem cached_retries_end (start : sys₀.Started P fuel target vice) (enough : 6 ≤ fuel)
    (run : Run (CacheStep P fuel target vice) sys₀ es sys) (i : Nat) :
    (∀ v : Violation, v.executeAccess = true → Below512G v.physicalAddress →
      sys.executes i v.physicalAddress = true ∨
        ∃ t, CacheStep P fuel target vice sys (.violation i v) t) ∧
    ∀ page later t, (∀ e ∈ later, e.Retries i page) →
      Run (CacheStep P fuel target vice) sys later t →
      later.countP (CacheEvent.violates i) ≤ 3 := by
  have pointers := start.cores.machine.pointers
  have sound := start.reached enough run
  constructor
  · intro v execute low
    by_cases allowed : sys.executes i v.physicalAddress = true
    · exact .inl allowed
    · obtain ⟨n, core⟩ := sound.core i
      have forbidden := Bool.eq_false_of_not_eq_true allowed
      obtain ⟨c, -, exit, -⟩ := sound.violation pointers core execute low forbidden
      exact .inr ⟨_, .violation execute low forbidden exit⟩
  · intro page later t retry goes
    have bound := sound.retries_run goes pointers enough retry
    have most : sys.retries target (page ∈ CacheEvent.passed es) i page ≤ 3 :=
      CachedCores.retries_le_three
    omega

theorem cached_retries_end_one_page : ∃ target vice sys₀ s,
    Run (CacheStep coldPlatform 6 target vice) sys₀ [.setTarget 1 ⟨0x5000, 0x1000, id⟩] s ∧
    (s.executes 0 0x5123 = true ∨
      ∃ t, CacheStep coldPlatform 6 target vice s (.violation 0 ⟨4, 0x5123⟩) t) ∧
    ∀ later t, (∀ e ∈ later, e.Retries 0 5) → Run (CacheStep coldPlatform 6 target vice) s later t →
      later.countP (CacheEvent.violates 0) ≤ 3 := by
  obtain ⟨target, vice, sys₀, s, start, step⟩ := cached_one_page
  have run : Run (CacheStep coldPlatform 6 target vice) sys₀
    [.setTarget 1 ⟨0x5000, 0x1000, id⟩] _ :=
    .cons (.setTarget step) (.nil _)
  have reached := cached_retries_end start (Nat.le_refl 6) run 0
  have low : Below512G 0x5123 := (by decide : (0x5123 : BitVec 64).toNat < 2^39)
  exact ⟨target, vice, sys₀, _, run, reached.1 ⟨4, 0x5123⟩ (by decide) low, reached.2 5⟩

/-- No translation of the vice EPT is left that lets core i execute one of the pages. -/
def CachedCores.Clear (vice : EptCls) (i : Nat) (gone : List Frame) (sys : CachedCores) : Prop :=
  ∀ page ∈ gone, sys.cache i vice.eptPml4 page ≠ some true

namespace CachedCores

/-- The tables of the vice EPT forbid the pages, so they do not come back. -/
theorem Clear.step {i : Nat} {e : CacheEvent} {t : CachedCores} {gone pages : List Frame}
    (clear : sys.Clear vice i gone) (sound : sys.Sound P target vice pages)
    (pointers : Pointers target vice)
    (sub : gone ⊆ pages) (step : CacheStep P fuel target vice sys e t) : t.Clear vice i gone := by
  intro page inside found
  cases step with
  | setTarget step => exact clear page inside (invept_cases found)
  | request step => exact clear page inside found
  | @fill j gpa low =>
      rcases setEntry_cases found with ⟨-, inForce, rfl, value⟩ | before
      · obtain ⟨k, h⟩ := sound.monitored
        obtain ⟨n, core⟩ := sound.core j
        have root : sys.root j = _ := core.root pointers
        have even : n % 2 = 0 := by
          by_contra odd
          exact h.apart (by rw [inForce, root, if_neg odd])
        rw [sound.walked pointers core low, if_pos even] at value
        simp [sub inside] at value
      · exact clear page inside before
  | @evict j root p =>
      rcases setEntry_cases found with ⟨-, -, -, value⟩ | before
      · cases value
      · exact clear page inside before
  | @violation j v c execute low forbidden exit =>
      rcases setEntry_cases found with ⟨-, -, -, value⟩ | before
      · cases value
      · exact clear page inside before

theorem Clear.run {i : Nat} {t : CachedCores} {gone pages : List Frame}
    (run : Run (CacheStep P fuel target vice) sys es t) (clear : sys.Clear vice i gone)
    (sound : sys.Sound P target vice pages) (pointers : Pointers target vice) (enough : 6 ≤ fuel)
    (sub : gone ⊆ pages) : t.Clear vice i gone := by
  induction run generalizing pages with
  | nil s => exact clear
  | cons first _ ih =>
      exact ih (clear.step sound pointers sub first) (sound.step pointers enough first)
        (List.subset_append_of_subset_right _ sub)

/-- Where the vice EPT can only be executed by an old translation, and none is left, the core is in
the target EPT. -/
theorem Clear.inTarget {i : Nat} {gpa : BitVec 64} {gone pages : List Frame}
    (clear : sys.Clear vice i gone)
    (sound : sys.Sound P target vice pages) (pointers : Pointers target vice) (sub : gone ⊆ pages)
    (low : Below512G gpa) (inside : pageOf gpa ∈ gone) (executes : sys.executes i gpa = true) :
    (sys.cores.core i).eptPointer = target.eptpV := by
  obtain ⟨n, core⟩ := sound.core i
  by_cases even : n % 2 = 0
  · have root : sys.root i = vice.eptPml4 := (core.root pointers).trans (if_pos even)
    rw [CachedCores.executes, root] at executes
    cases cached : sys.cache i vice.eptPml4 (pageOf gpa) with
    | none =>
        rw [cached, Option.getD_none, sound.walked pointers core low, if_pos even] at executes
        simp [sub inside] at executes
    | some b =>
        rw [cached, Option.getD_some] at executes
        rw [executes] at cached
        exact absurd cached (clear _ inside)
  · rw [core.pointer, if_neg even]

end CachedCores

/-- After a call on core a, exactly core a is sure to run the pages passed up to then with the
target EPT in force, in any run: INVEPT is executed on the calling core only, and any other core may
have cached that the vice EPT lets it execute the page. -/
theorem reported_iff_caller {a i : Nat} {c : Call} {pa : BitVec 64} {s : Machine}
    (start : sys₀.Started P fuel target vice) (enough : 6 ≤ fuel) (passes : pa ∈ c.addresses)
    (returns : Step P fuel target vice sys₀.cores.machine (.setTarget c) s) :
    (∀ before after t,
      Run (CacheStep P fuel target vice) sys₀ (before ++ .setTarget a c :: after) t →
      ∀ gpa, Below512G gpa → pageOf gpa ∈ CacheEvent.passed (before ++ [.setTarget a c]) →
        t.executes i gpa = true → (t.cores.core i).eptPointer = target.eptpV) ↔ i = a := by
  have pointers := start.cores.machine.pointers
  constructor
  · intro all
    by_contra other
    have low : Below512G pa := by
      cases returns with
      | setTarget below _ => exact below pa passes
    have core : (sys₀.cores.core i).Sound target vice 0 := by
      rw [start.cores.core i]
      exact ⟨rfl, rfl, rfl⟩
    have sound := start.sound (by omega)
    have walked : sys₀.walked i pa = true := by
      rw [sound.walked pointers core low]
      rfl
    have run : Run (CacheStep P fuel target vice) sys₀ ([.fill i pa] ++ .setTarget a c :: [])
        (((sys₀.setEntry i (sys₀.root i) (pageOf pa) (some (sys₀.walked i pa))).edit s).invept a) :=
      .cons (.fill low) (.cons (.setTarget returns) (.nil _))
    have passed : pageOf pa ∈ CacheEvent.passed ([.fill i pa] ++ [.setTarget a c]) :=
      List.mem_flatMap.mpr ⟨.setTarget a c, by simp, List.mem_map_of_mem passes⟩
    have old :
        (((sys₀.setEntry i (sys₀.root i) (pageOf pa) (some (sys₀.walked i pa))).edit s).invept a).cache i
        (sys₀.root i) (pageOf pa) = some true := by
      rw [CachedCores.invept_other other, ← walked]
      exact congrFun (congrFun CachedCores.setEntry_cache _) _ |>.trans EptCache.set_here
    have inTarget := all _ _ _ run pa low passed (congrArg (Option.getD · _) old)
    have inVice : (sys₀.cores.core i).eptPointer = vice.eptpV := core.pointer
    obtain ⟨k, h⟩ := sound.monitored
    apply h.apart
    rw [← pointers.vice, ← pointers.target, ← inVice]
    exact congrArg pageFrameNumber inTarget
  · rintro rfl before after t run gpa low inside executes
    rw [List.append_cons] at run
    obtain ⟨u, called, rest⟩ := run.of_append
    have sound := start.reached enough called
    have clear : u.Clear vice i (CacheEvent.passed (before ++ [.setTarget i c])) := by
      obtain ⟨u', -, last⟩ := called.of_append
      cases last with
      | cons call none =>
          cases none
          cases call with
          | setTarget step =>
              intro page _ found
              rw [CachedCores.invept_cache] at found
              cases found
    have later := clear.run rest sound pointers enough (List.Subset.refl _)
    exact later.inTarget (sound.run rest pointers enough) pointers (List.subset_append_right _ _)
      low inside executes

theorem reported_iff_caller_one_page : ∃ target vice sys₀,
    CachedCores.Started coldPlatform 6 target vice sys₀ ∧ ∀ i,
    (∀ before after t,
      Run (CacheStep coldPlatform 6 target vice) sys₀
        (before ++ .setTarget 0 ⟨0x5000, 0x1000, id⟩ :: after) t →
      ∀ gpa, Below512G gpa →
        pageOf gpa ∈ CacheEvent.passed (before ++ [.setTarget 0 ⟨0x5000, 0x1000, id⟩]) →
        t.executes i gpa = true → (t.cores.core i).eptPointer = target.eptpV) ↔ i = 0 := by
  obtain ⟨target, vice, sys₀, s, start, step⟩ := cached_one_page
  have passes : (0x5000 : BitVec 64) ∈ (Call.mk 0x5000 0x1000 id).addresses := by decide
  exact ⟨target, vice, sys₀, start, fun i => reported_iff_caller start (Nat.le_refl 6) passes step⟩

end Runs

end LMalz.Monitor
