import LMalz.Lib.Loop
import LMalz.Monitor.Violation

/- A core tries an instruction again after each violation of execution. -/
namespace LMalz.Monitor
open Ept Transition

/-- An instruction: the page of its first byte, the next page if it crosses a page boundary, and
what the processor writes into the exit qualification besides execute_access. -/
structure Fetch where
  first : BitVec 64
  second : Option (BitVec 64)
  otherBits : BitVec 64

def Fetch.pages (f : Fetch) : List (BitVec 64) := f.first :: f.second.toList

def Fetch.violation (f : Fetch) (gpa : BitVec 64) : Violation := ⟨setFlag f.otherBits 2 true, gpa⟩

section Fetches
variable (target vice : EptCls) (s : Machine) (f : Fetch)

/-- One try. It goes on after a violation that was handled, and returns the core with the
instruction fetched, or none when the machine was killed. -/
def fetchOnce (c : Core) : Core ⊕ Option Core :=
  match f.pages.find? fun gpa => !allowsExecute s (f.violation gpa) c with
  | none => .inr (some c)
  | some gpa =>
      match violationExit target vice s (f.violation gpa) c with
      | none => .inr none
      | some c => if c.killed then .inr none else .inl c

/-- All pages of the instruction are monitored, or none is. -/
def SameStatus : Prop :=
  ∀ a ∈ f.pages, ∀ b ∈ f.pages, executable s target a = executable s target b

end Fetches

section Ends
variable {P : Platform} {fuel : Nat} {target vice : EptCls} {s : Machine} {f : Fetch} {c : Core}
  {pages : List Frame} {k n : Nat} {r : Option Core}

theorem Fetch.executeAccess (f : Fetch) (gpa : BitVec 64) : (f.violation gpa).executeAccess = true :=
  flag_setFlag f.otherBits 2 true (by decide)

theorem Monitored.allows (h : Monitored P target vice s pages k) (pointers : Pointers target vice)
    (sound : c.Sound target vice n) : ∃ flip, ∀ gpa, Below512G gpa →
      allowsExecute s (f.violation gpa) c = (executable s target gpa ^^ flip) := by
  by_cases even : n % 2 = 0
  · refine ⟨true, fun gpa low => ?_⟩
    have pointer : c.eptPointer = vice.eptpV := by rw [sound.pointer, if_pos even]
    rw [h.allowsExecute_vice pointers low pointer, h.executable_target low, Bool.xor_true]
    rfl
  · refine ⟨false, fun gpa low => ?_⟩
    have pointer : c.eptPointer = target.eptpV := by rw [sound.pointer, if_neg even]
    rw [h.allowsExecute_target pointers low pointer, h.executable_target low, Bool.xor_false]
    rfl

theorem fetchOnce_done (allowed : ∀ gpa ∈ f.pages, allowsExecute s (f.violation gpa) c = true) :
    fetchOnce target vice s f c = .inr (some c) := by
  have nothing : f.pages.find? (fun gpa => !allowsExecute s (f.violation gpa) c) = none :=
    List.find?_eq_none.mpr fun gpa here => by simp [allowed gpa here]
  rw [fetchOnce, nothing]

theorem Monitored.fetchOnce (h : Monitored P target vice s pages k) (pointers : Pointers target vice)
    (sound : c.Sound target vice n) (low : ∀ gpa ∈ f.pages, Below512G gpa) {a : BitVec 64}
    (here : a ∈ f.pages) (forbidden : allowsExecute s (f.violation a) c = false) :
    ∃ c', fetchOnce target vice s f c = .inl c' ∧ c'.Sound target vice (n + 1) ∧
      ∃ gpa ∈ f.pages, allowsExecute s (f.violation gpa) c' = true := by
  obtain ⟨gpa, found⟩ : ∃ gpa, f.pages.find? (fun gpa => !allowsExecute s (f.violation gpa) c) =
      some gpa := by
    cases find : f.pages.find? (fun gpa => !allowsExecute s (f.violation gpa) c) with
    | none =>
        have allowed := List.find?_eq_none.mp find a here
        simp [forbidden] at allowed
    | some gpa => exact ⟨gpa, rfl⟩
  have inside := List.mem_of_find?_eq_some found
  have first : allowsExecute s (f.violation gpa) c = false := by
    have none := List.find?_some found
    rwa [Bool.not_eq_true'] at none
  obtain ⟨c', handled, sound', allowed⟩ := h.violation pointers sound (f.executeAccess gpa)
    (low gpa inside) first
  refine ⟨c', ?_, sound', gpa, inside, allowed⟩
  simp only [Monitor.fetchOnce, found, violationExit_eq handled, sound'.alive, Bool.false_eq_true,
    if_false]

theorem Monitored.fetch_ends (h : Monitored P target vice s pages k) (pointers : Pointers target vice)
    (sound : c.Sound target vice n) (low : ∀ gpa ∈ f.pages, Below512G gpa)
    (same : SameStatus target s f) :
    ∃ c', Loop.Returns (Monitor.fetchOnce target vice s f) c (some c') ∧
      ∀ gpa ∈ f.pages, allowsExecute s (f.violation gpa) c' = true := by
  by_cases allowed : ∀ gpa ∈ f.pages, allowsExecute s (f.violation gpa) c = true
  · exact ⟨c, .done (fetchOnce_done allowed), allowed⟩
  · obtain ⟨a, here, forbidden⟩ : ∃ a ∈ f.pages, allowsExecute s (f.violation a) c = false := by
      simpa using allowed
    obtain ⟨c', next, sound', gpa, inside, one⟩ := h.fetchOnce pointers sound low here forbidden
    obtain ⟨flip, allows⟩ := h.allows (f := f) pointers sound'
    have all : ∀ b ∈ f.pages, allowsExecute s (f.violation b) c' = true := by
      intro b hb
      rw [allows b (low b hb), same b hb gpa inside, ← allows gpa (low gpa inside)]
      exact one
    exact ⟨c', .next next (.done (fetchOnce_done all)), all⟩

/-- With pages of both kinds each of the two EPTs forbids one of them. -/
theorem Monitored.fetch_goes_on (h : Monitored P target vice s pages k)
    (pointers : Pointers target vice) (sound : c.Sound target vice n)
    (low : ∀ gpa ∈ f.pages, Below512G gpa) (mixed : ¬ SameStatus target s f) :
    ¬ Loop.Returns (Monitor.fetchOnce target vice s f) c r := by
  have start : ∃ n, c.Sound target vice n := ⟨n, sound⟩
  refine Loop.Returns.false_of_invariant (I := fun c => ∃ n, c.Sound target vice n) ?_ start
  rintro c ⟨n, sound⟩
  obtain ⟨flip, allows⟩ := h.allows (f := f) pointers sound
  obtain ⟨a, here, b, hb, apart⟩ : ∃ a ∈ f.pages, ∃ b ∈ f.pages,
      executable s target a ≠ executable s target b := by
    simpa [SameStatus] using mixed
  by_cases forbidden : allowsExecute s (f.violation a) c = false
  · obtain ⟨c', next, sound', -⟩ := h.fetchOnce pointers sound low here forbidden
    exact ⟨c', next, n + 1, sound'⟩
  · have other : allowsExecute s (f.violation b) c = false := by
      rw [allows a (low a here)] at forbidden
      rw [allows b (low b hb)]
      revert forbidden apart
      cases executable s target a <;> cases executable s target b <;> cases flip <;> decide
    obtain ⟨c', next, sound', -⟩ := h.fetchOnce pointers sound low hb other
    exact ⟨c', next, n + 1, sound'⟩

end Ends

section Runs
variable {P : Platform} {fuel : Nat} {target vice : EptCls} {sys₀ sys : Cores} {es : List CoreEvent}

/-- In every state of every run, on every core: the retries of a fetch end exactly when the pages of
the instruction have the same status, and they end with all its pages allowed. -/
theorem fetch_ends_iff (start : sys₀.Started P fuel target vice) (enough : 6 ≤ fuel)
    (run : Run (CoreStep P fuel target vice) sys₀ es sys) (i : Nat) (f : Fetch)
    (low : ∀ gpa ∈ f.pages, Below512G gpa) :
    ((∃ r, Loop.Returns (fetchOnce target vice sys.machine f) (sys.core i) r) ↔
      SameStatus target sys.machine f) ∧
    ∀ r, Loop.Returns (fetchOnce target vice sys.machine f) (sys.core i) r → ∃ c, r = some c ∧
      ∀ gpa ∈ f.pages, allowsExecute sys.machine (f.violation gpa) c = true := by
  have pointers := start.machine.pointers
  have sound := run.invariant (fun inv step => inv.step pointers enough step)
    (start.sound (by omega))
  obtain ⟨pages, k, h⟩ := sound.monitored
  obtain ⟨n, ci⟩ := sound.core i
  have ends : ∀ {r}, Loop.Returns (fetchOnce target vice sys.machine f) (sys.core i) r →
      SameStatus target sys.machine f := by
    intro r returns
    by_contra mixed
    exact h.fetch_goes_on pointers ci low mixed returns
  constructor
  · refine ⟨fun ⟨r, returns⟩ => ends returns, fun same => ?_⟩
    obtain ⟨c, returns, -⟩ := h.fetch_ends pointers ci low same
    exact ⟨some c, returns⟩
  · intro r returns
    obtain ⟨c, returns', allowed⟩ := h.fetch_ends pointers ci low (ends returns)
    exact ⟨c, returns.unique returns', allowed⟩

theorem fetch_ends_iff_one_page : ∃ target vice sys₀ sys,
    Run (CoreStep coldPlatform 6 target vice) sys₀ [.edit (.setTarget ⟨0x5000, 0x1000, id⟩)] sys ∧
    ∃ r, Loop.Returns (fetchOnce target vice sys.machine ⟨0x5123, none, 0⟩) (sys.core 0) r := by
  obtain ⟨target, vice, sys₀, sys, k, start, run, -⟩ := cores_one_page
  have low : ∀ gpa ∈ (Fetch.mk 0x5123 none 0).pages, Below512G gpa := by
    intro gpa here
    rw [List.mem_singleton.mp here]
    exact (by decide : (0x5123 : BitVec 64).toNat < 2^39)
  have same : SameStatus target sys.machine ⟨0x5123, none, 0⟩ := by
    intro a ha b hb
    rw [List.mem_singleton.mp ha, List.mem_singleton.mp hb]
  exact ⟨target, vice, sys₀, sys, run,
    (fetch_ends_iff start (Nat.le_refl 6) run 0 _ low).1.mpr same⟩

/-- An instruction that begins in a monitored page and ends in the next page, which is not
monitored: each violation is handled, and the fetch never ends. -/
theorem fetch_livelock : ∃ target vice sys₀ sys,
    Cores.Started coldPlatform 6 target vice sys₀ ∧
    Run (CoreStep coldPlatform 6 target vice) sys₀ [.edit (.setTarget ⟨0x5000, 0x1000, id⟩)] sys ∧
    ∀ r, ¬ Loop.Returns (fetchOnce target vice sys.machine ⟨0x5ffe, some 0x6000, 0⟩) (sys.core 0) r := by
  obtain ⟨target, vice, sys₀, sys, k, start, run, h, vices⟩ := cores_one_page
  have low : ∀ gpa ∈ (Fetch.mk 0x5ffe (some 0x6000) 0).pages, Below512G gpa := by
    intro gpa here
    rcases List.mem_cons.mp here with rfl | second
    · exact (by decide : (0x5ffe : BitVec 64).toNat < 2^39)
    · rw [List.mem_singleton.mp second]
      exact (by decide : (0x6000 : BitVec 64).toNat < 2^39)
  have mixed : ¬ SameStatus target sys.machine ⟨0x5ffe, some 0x6000, 0⟩ := by
    intro same
    have one := same 0x5ffe (by decide) 0x6000 (by decide)
    rw [h.executable_target (low _ (by decide)), h.executable_target (low _ (by decide))] at one
    exact absurd one (by decide)
  have sound : (sys.core 0).Sound target vice 0 := by
    rw [vices 0]
    exact ⟨rfl, rfl, rfl⟩
  exact ⟨target, vice, sys₀, sys, start, run, fun r =>
    h.fetch_goes_on start.machine.pointers sound low mixed⟩

end Runs

end LMalz.Monitor
