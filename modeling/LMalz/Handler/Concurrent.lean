import LMalz.Handler.BoundedList
import LMalz.Lib.Interleaving
import Mathlib.Algebra.GroupWithZero.Nat
import Mathlib.Data.List.Perm.Basic

/- Concurrent calls of add_handler, one shared access for each step. -/
namespace LMalz.Handler
open Function (update)
open LinkChain Transition Interleaving

instance : NeZero handlerLimit := ⟨Nat.succ_ne_zero 9⟩

/-- The next access of a call, with the locals it still uses. -/
inductive Pc where
  /-- The compare-exchange loop, with the slots still to be tried. -/
  | exchange (rest : List Slot)
  /-- add_set_link at the end: the test `handler_start == -1`. -/
  | testStart (n : Slot)
  /-- The write `handler_start = n` on an empty chain. -/
  | setStart (n : Slot)
  /-- get_link_end: its own test of handler_start. -/
  | endTestStart (n : Slot)
  /-- The read `i = handler_start`. -/
  | endStart (n : Slot)
  /-- The test `handler_link[i] == -1`. -/
  | endTest (n i : Slot)
  /-- The read `i = handler_link[i]`. -/
  | endNext (n i : Slot)
  /-- The write `handler_link[end] = n`. -/
  | setEnd (n e : Slot)
  /-- add_set_link at the front: the read of handler_start. -/
  | readStart (n : Slot)
  /-- The write `handler_link[n] = handler_start`, of the value read. -/
  | setLink (n : Slot) (start : Option Slot)
  /-- The write `handler_start = n` of a front insertion. -/
  | pushStart (n : Slot)
  /-- The call has returned: 1 out of the iteration of a slot, or 0. -/
  | ret (slot : Option Slot)
  deriving DecidableEq, Repr

structure AddCall (T : Type) where
  handler : T
  toend : Bool
  pc : Pc
  deriving DecidableEq, Repr

namespace AddCall
variable {T : Type}

/-- The slots in the order of the loop. -/
def slots (toend : Bool) : List Slot :=
  if toend then (List.finRange handlerLimit).reverse else List.finRange handlerLimit

def enter (handler : T) (toend : Bool) : AddCall T := ⟨handler, toend, .exchange (slots toend)⟩

def goto (c : AddCall T) (pc : Pc) : AddCall T := { c with pc := pc }

/-- The next step of a call. It has none once it has returned, and none where it would
use -1 as an index. -/
def next (h : HandlerCls T) (c : AddCall T) : Option (HandlerCls T × AddCall T) :=
  match c.pc with
  | .exchange [] => some (h, c.goto (.ret none))
  | .exchange (i :: rest) => match h.handlers i with
      | none => some ({ h with handlers := update h.handlers i (some c.handler) },
          c.goto (if c.toend then .testStart i else .readStart i))
      | some _ => some (h, c.goto (.exchange rest))
  | .testStart n => match h.handlerStart with
      | none => some (h, c.goto (.setStart n))
      | some _ => some (h, c.goto (.endTestStart n))
  | .setStart n => some ({ h with handlerStart := some n }, c.goto (.ret (some n)))
  | .endTestStart n => h.handlerStart.map fun _ => (h, c.goto (.endStart n))
  | .endStart n => h.handlerStart.map fun i => (h, c.goto (.endTest n i))
  | .endTest n i => match h.handlerLink i with
      | none => some (h, c.goto (.setEnd n i))
      | some _ => some (h, c.goto (.endNext n i))
  | .endNext n i => (h.handlerLink i).map fun j => (h, c.goto (.endTest n j))
  | .setEnd n e => some ({ h with handlerLink := update h.handlerLink e (some n) },
      c.goto (.ret (some n)))
  | .readStart n => some (h, c.goto (.setLink n h.handlerStart))
  | .setLink n start => some ({ h with handlerLink := update h.handlerLink n start },
      c.goto (.pushStart n))
  | .pushStart n => some ({ h with handlerStart := some n }, c.goto (.ret (some n)))
  | .ret _ => none

/-- The slot a call has claimed. -/
def slot (c : AddCall T) : Option Slot :=
  match c.pc with
  | .exchange _ => none
  | .testStart n | .setStart n | .endTestStart n | .endStart n | .endTest n _ | .endNext n _
  | .setEnd n _ | .readStart n | .setLink n _ | .pushStart n => some n
  | .ret slot => slot

/-- The slot of a call that has returned 1. -/
def linked (c : AddCall T) : Option Slot :=
  match c.pc with
  | .ret slot => slot
  | _ => none

/-- The handler of a call that has returned 1. -/
def registered (c : AddCall T) : Option T := c.linked.map fun _ => c.handler

def Returned1 (c : AddCall T) : Prop := ∃ n, c.pc = .ret (some n)

theorem Returned1.linked_eq {c : AddCall T} (done : c.Returned1) : c.linked = c.slot := by
  obtain ⟨n, at_ret⟩ := done
  simp only [linked, slot, at_ret]

theorem Returned1.registered_eq {c : AddCall T} (done : c.Returned1) :
    c.registered = some c.handler := by
  obtain ⟨n, at_ret⟩ := done
  simp only [registered, linked, at_ret, Option.map_some]

/-- A write of handler_start or of the last link finds what the call has read there,
and the slot that becomes the last one has the link -1. -/
def Fresh (h : HandlerCls T) (c : AddCall T) : Prop :=
  match c.pc with
  | .setStart n => h.handlerStart = none ∧ h.handlerLink n = none
  | .setEnd n e => h.handlerLink e = none ∧ h.handlerLink n = none
  | .pushStart n => h.handlerStart = h.handlerLink n
  | _ => True

instance (h : HandlerCls T) (c : AddCall T) [DecidableEq T] : Decidable (c.Fresh h) := by
  unfold Fresh
  split <;> infer_instance

end AddCall

section System
variable {T : Type}

abbrev AddSystem (T : Type) := Config (HandlerCls T) (AddCall T)

/-- All the calls are entered; one that makes its first step late starts late. -/
def AddSystem.start (h : HandlerCls T) (adds : List (T × Bool)) : AddSystem T :=
  ⟨h, adds.map fun (handler, toend) => AddCall.enter handler toend⟩

def AddStep : AddSystem T → Nat → AddSystem T → Prop :=
  Step fun h c h' c' => c.next h = some (h', c')

/-- Every write that links a slot is made on what its call has read. -/
def FreshStep : AddSystem T → Nat → Prop := Before fun h c _ => c.Fresh h

section Alone
variable {h h' : HandlerCls T} {c c' : AddCall T} {f : T} {toend : Bool} {n i e : Slot}

/-- Steps of one call that nothing interrupts. -/
def Alone (h : HandlerCls T) (c : AddCall T) (h' : HandlerCls T) (c' : AddCall T) : Prop :=
  ∃ ks, Run AddStep ⟨h, [c]⟩ ks ⟨h', [c']⟩

theorem Alone.refl : Alone h c h c := ⟨[], .nil _⟩

theorem Alone.cons {h₁ : HandlerCls T} {c₁ : AddCall T} (first : c.next h = some (h₁, c₁))
    (rest : Alone h₁ c₁ h' c') : Alone h c h' c' := by
  obtain ⟨ks, run⟩ := rest
  have taken : AddStep ⟨h, [] ++ c :: []⟩ 0 ⟨h₁, [] ++ c₁ :: []⟩ := .step first
  exact ⟨0 :: ks, .cons taken run⟩

theorem alone_none (rest : List Slot) (full : rest.find? (fun i => (h.handlers i).isNone) = none) :
    Alone h ⟨f, toend, .exchange rest⟩ h ⟨f, toend, .ret none⟩ := by
  induction rest with
  | nil => exact .cons rfl .refl
  | cons i rest ih =>
      rw [List.find?_eq_none] at full
      obtain ⟨g, taken⟩ : ∃ g, h.handlers i = some g := by
        simpa [Option.ne_none_iff_exists'] using full i List.mem_cons_self
      have passed : AddCall.next h ⟨f, toend, .exchange (i :: rest)⟩ =
          some (h, ⟨f, toend, .exchange rest⟩) := by
        simp only [AddCall.next, taken, AddCall.goto]
      refine .cons passed (ih ?_)
      rw [List.find?_eq_none]
      exact fun s hs => full s (List.mem_cons_of_mem i hs)

theorem alone_claim (rest : List Slot)
    (free : rest.find? (fun i => (h.handlers i).isNone) = some n)
    (link : Alone { h with handlers := update h.handlers n (some f) }
      ⟨f, toend, if toend then .testStart n else .readStart n⟩ h' c') :
    Alone h ⟨f, toend, .exchange rest⟩ h' c' := by
  induction rest with
  | nil => cases free
  | cons i rest ih =>
      cases hi : h.handlers i with
      | none =>
          obtain rfl : i = n := by simpa [hi] using free
          refine .cons ?_ link
          simp only [AddCall.next, hi, AddCall.goto]
      | some g =>
          have later : rest.find? (fun i => (h.handlers i).isNone) = some n := by
            simpa [hi] using free
          refine .cons ?_ (ih later)
          simp only [AddCall.next, hi, AddCall.goto]

theorem alone_end {fuel : Nat} (found : h.getLinkEndLoop fuel i = some e) :
    Alone h ⟨f, toend, .endTest n i⟩
      { h with handlerLink := update h.handlerLink e (some n) } ⟨f, toend, .ret (some n)⟩ := by
  induction fuel generalizing i with
  | zero => cases found
  | succ fuel ih =>
      simp only [HandlerCls.getLinkEndLoop] at found
      split at found
      · next stop =>
          cases found
          have test : AddCall.next h ⟨f, toend, .endTest n e⟩ =
              some (h, ⟨f, toend, .setEnd n e⟩) := by
            simp only [AddCall.next, stop, AddCall.goto]
          exact .cons test (.cons rfl .refl)
      · next j on =>
          have test : AddCall.next h ⟨f, toend, .endTest n i⟩ =
              some (h, ⟨f, toend, .endNext n i⟩) := by
            simp only [AddCall.next, on, AddCall.goto]
          refine .cons test (.cons ?_ (ih found))
          simp only [AddCall.next, on, AddCall.goto, Option.map_some]

theorem alone_link (done : h.addSetLink n toend = some h') :
    Alone h ⟨f, toend, if toend then .testStart n else .readStart n⟩ h'
      ⟨f, toend, .ret (some n)⟩ := by
  cases toend with
  | false =>
      cases done
      exact .cons rfl (.cons rfl (.cons rfl .refl))
  | true =>
      simp only [HandlerCls.addSetLink, if_true] at done
      split at done
      · next empty =>
          cases done
          have test : AddCall.next h ⟨f, true, .testStart n⟩ =
              some (h, ⟨f, true, .setStart n⟩) := by
            simp only [AddCall.next, empty, AddCall.goto]
          exact .cons test (.cons rfl .refl)
      · next start hs =>
          obtain ⟨e, found, rfl⟩ := Option.map_eq_some_iff.mp done
          have test : AddCall.next h ⟨f, true, .testStart n⟩ =
              some (h, ⟨f, true, .endTestStart n⟩) := by
            simp only [AddCall.next, hs, AddCall.goto]
          have again : AddCall.next h ⟨f, true, .endTestStart n⟩ =
              some (h, ⟨f, true, .endStart n⟩) := by
            simp only [AddCall.next, hs, AddCall.goto, Option.map_some]
          refine .cons test (.cons again (.cons ?_ (alone_end found)))
          simp only [AddCall.next, hs, AddCall.goto, Option.map_some]

/-- A call that is not interrupted does what add_handler does. -/
theorem alone_addHandler {b : Bool} (done : h.addHandler f toend = some (b, h')) :
    ∃ slot, Alone h (.enter f toend) h' ⟨f, toend, .ret slot⟩ ∧ slot.isSome = b := by
  simp only [HandlerCls.addHandler] at done
  split at done
  · next full =>
      cases done
      exact ⟨none, alone_none _ full, rfl⟩
  · next n free =>
      obtain ⟨h₁, linked, same⟩ := Option.map_eq_some_iff.mp done
      cases same
      exact ⟨some n, alone_claim _ free (alone_link linked), rfl⟩

end Alone
/-- The slots a call can no longer claim. -/
def AddCall.Passed (c : AddCall T) (s : Slot) : Prop :=
  match c.pc with
  | .exchange rest => s ∉ rest
  | .ret none => True
  | _ => False

/-- Every occupied slot holds a handler of `base` or belongs to one call. -/
structure Owned (base : List Slot) (held : List (Option T)) (m : HandlerCls T)
    (ps : List (AddCall T)) : Prop where
  nodup : (base ++ ps.filterMap AddCall.slot).Nodup
  occupied : ∀ s, (m.handlers s).isSome ↔ s ∈ base ++ ps.filterMap AddCall.slot
  kept : base.map m.handlers = held
  claimed : ∀ c ∈ ps, ∀ n, c.slot = some n → m.handlers n = some c.handler
  passed : ∀ c ∈ ps, ∀ s, c.Passed s → (m.handlers s).isSome

section Ownership
variable {base : List Slot} {held : List (Option T)} {m m' : HandlerCls T}
  {ps qs : List (AddCall T)} {c c' : AddCall T}

theorem Owned.order (o : Owned base held m ps) (perm : ps.Perm qs) : Owned base held m qs := by
  have slots := (perm.filterMap AddCall.slot).append_left base
  refine ⟨slots.nodup_iff.mp o.nodup, ?_, o.kept, ?_, ?_⟩
  · intro s
    rw [o.occupied, slots.mem_iff]
  · exact fun c hc => o.claimed c (perm.mem_iff.mpr hc)
  · exact fun c hc => o.passed c (perm.mem_iff.mpr hc)

/-- A step claims a free slot or leaves all the handlers and the claims as they are. -/
theorem next_claims (moved : c.next m = some (m', c')) :
    (∃ i, m.handlers i = none ∧ c.slot = none ∧
      m' = { m with handlers := update m.handlers i (some c.handler) } ∧
      c' = c.goto (if c.toend then .testStart i else .readStart i)) ∨
    (m'.handlers = m.handlers ∧ c'.slot = c.slot ∧ c'.handler = c.handler ∧
      ∀ s, c'.Passed s → c.Passed s ∨ (m.handlers s).isSome) := by
  obtain ⟨f, toend, pc⟩ := c
  cases pc with
  | exchange rest =>
      cases rest with
      | nil =>
          cases moved
          exact .inr ⟨rfl, rfl, rfl, fun s _ => .inl (by simp [AddCall.Passed])⟩
      | cons i rest =>
          simp only [AddCall.next] at moved
          split at moved
          · next free =>
              cases moved
              exact .inl ⟨i, free, rfl, rfl, rfl⟩
          · next g taken =>
              cases moved
              refine .inr ⟨rfl, rfl, rfl, ?_⟩
              intro s hs
              by_cases same : s = i
              · exact .inr (by simp [same, taken])
              · exact .inl (by simpa [AddCall.Passed, AddCall.goto, same] using hs)
  | testStart n | endTest n i =>
      simp only [AddCall.next] at moved
      split at moved <;> cases moved <;> exact .inr ⟨rfl, rfl, rfl, fun s hs => hs.elim⟩
  | endTestStart n | endStart n | endNext n i =>
      obtain ⟨i, -, same⟩ := Option.map_eq_some_iff.mp moved
      cases same
      exact .inr ⟨rfl, rfl, rfl, fun s hs => hs.elim⟩
  | setStart n | setEnd n e | readStart n | setLink n start | pushStart n =>
      cases moved
      exact .inr ⟨rfl, rfl, rfl, fun s hs => hs.elim⟩
  | ret slot => cases moved

theorem Owned.step (o : Owned base held m (c :: qs)) (moved : c.next m = some (m', c')) :
    Owned base held m' (c' :: qs) := by
  rcases next_claims moved with ⟨i, free, unclaimed, rfl, rfl⟩ | ⟨handlers, slot, handler, passed⟩
  · have before : (c :: qs).filterMap AddCall.slot = qs.filterMap AddCall.slot := by
      rw [List.filterMap_cons, unclaimed]
    have claims : (c.goto (if c.toend then .testStart i else .readStart i)).slot = some i := by
      cases c.toend <;> rfl
    have nodup := o.nodup
    have occupied := o.occupied
    rw [before] at nodup occupied
    have fresh : i ∉ base ++ qs.filterMap AddCall.slot := by
      rw [← occupied i, free]
      simp
    refine ⟨?_, ?_, ?_, ?_, ?_⟩
    · rw [List.filterMap_cons, claims, List.nodup_middle]
      exact List.nodup_cons.mpr ⟨fresh, nodup⟩
    · intro s
      rw [List.filterMap_cons, claims, List.perm_middle.mem_iff, List.mem_cons, ← occupied s]
      by_cases same : s = i
      · simp [same]
      · simp [same]
    · rw [← o.kept]
      refine List.map_congr_left fun s hs => ?_
      exact Function.update_of_ne (fun same => fresh (by simp [← same, hs])) _ _
    · intro d hd n hn
      rcases List.mem_cons.mp hd with rfl | hd
      · obtain rfl : i = n := by simpa [claims] using hn
        exact Function.update_self i _ _
      · have other : n ∈ qs.filterMap AddCall.slot := List.mem_filterMap.mpr ⟨d, hd, hn⟩
        have apart : n ≠ i := fun same => fresh (by simp [← same, other])
        exact (Function.update_of_ne apart _ _).trans (o.claimed d (List.mem_cons_of_mem c hd) n hn)
    · intro d hd s hs
      have still : ∀ s, (m.handlers s).isSome → (update m.handlers i (some c.handler) s).isSome := by
        intro s hs
        rw [occupied] at hs
        rwa [Function.update_of_ne (ne_of_mem_of_not_mem hs fresh), occupied]
      rcases List.mem_cons.mp hd with rfl | hd
      · cases toend : c.toend <;> simp [AddCall.Passed, AddCall.goto, toend] at hs
      · exact still s (o.passed d (List.mem_cons_of_mem c hd) s hs)
  · have slots : (c' :: qs).filterMap AddCall.slot = (c :: qs).filterMap AddCall.slot := by
      rw [List.filterMap_cons, List.filterMap_cons, slot]
    refine ⟨slots ▸ o.nodup, ?_, handlers ▸ o.kept, ?_, ?_⟩
    · rw [slots, handlers]
      exact o.occupied
    · rw [handlers]
      intro d hd n hn
      rcases List.mem_cons.mp hd with rfl | hd
      · rw [handler]
        exact o.claimed c List.mem_cons_self n (slot ▸ hn)
      · exact o.claimed d (List.mem_cons_of_mem c hd) n hn
    · rw [handlers]
      intro d hd s hs
      rcases List.mem_cons.mp hd with rfl | hd
      · exact (passed s hs).elim (o.passed c List.mem_cons_self s) id
      · exact o.passed d (List.mem_cons_of_mem c hd) s hs

end Ownership

/-- What a call that looks for the end of the chain has seen of it. -/
def AddCall.Stands (c : AddCall T) (m : HandlerCls T) (on : List Slot) : Prop :=
  match c.pc with
  | .endTestStart _ | .endStart _ => m.handlerStart ≠ none
  | .endTest _ i | .setEnd _ i => i ∈ on
  | .endNext _ i => i ∈ on ∧ m.handlerLink i ≠ none
  | _ => True

/-- The chain links the slots of `base` and those of the calls that have returned. -/
structure Linking (base : List Slot) (m : HandlerCls T) (ps : List (AddCall T)) : Prop where
  chain : ∃ slots, Chain m.handlerLink m.handlerStart slots ∧
    slots.Perm (base ++ ps.filterMap AddCall.linked)
  stands : ∀ c ∈ ps, c.Stands m (base ++ ps.filterMap AddCall.linked)

section Linkage
variable {base on on' : List Slot} {held : List (Option T)} {m m' : HandlerCls T}
  {ps qs : List (AddCall T)} {c c' : AddCall T} {n : Slot}

theorem AddCall.linked_slot (h : c.linked = some n) : c.slot = some n := by
  obtain ⟨f, toend, pc⟩ := c
  cases pc <;> first | exact h | cases h

theorem AddCall.Stands.grow (k : c.Stands m on) (start : m.handlerStart ≠ none → m'.handlerStart ≠ none)
    (slots : on ⊆ on') (links : ∀ i ∈ on, m.handlerLink i ≠ none → m'.handlerLink i ≠ none) :
    c.Stands m' on' := by
  obtain ⟨f, toend, pc⟩ := c
  cases pc with
  | endTestStart n | endStart n => exact start k
  | endTest n i | setEnd n i => exact slots k
  | endNext n i => exact ⟨slots k.1, links i k.1 k.2⟩
  | _ => trivial

theorem Linking.order (k : Linking base m ps) (perm : ps.Perm qs) : Linking base m qs := by
  have slots := (perm.filterMap AddCall.linked).append_left base
  obtain ⟨on, chain, same⟩ := k.chain
  refine ⟨⟨on, chain, same.trans slots⟩, ?_⟩
  intro c hc
  exact (k.stands c (perm.mem_iff.mpr hc)).grow id slots.subset (fun _ _ => id)

/-- A slot that a call owns and has not linked yet is not on the chain. -/
theorem Owned.unlinked (o : Owned base held m (c :: qs)) (owns : c.slot = some n)
    (open' : c.linked = none) : n ∉ base ++ (c :: qs).filterMap AddCall.linked := by
  have nodup := o.nodup
  rw [List.filterMap_cons, owns, List.nodup_middle] at nodup
  rw [List.filterMap_cons, open']
  refine fun hn => (List.nodup_cons.mp nodup).1 ?_
  rcases List.mem_append.mp hn with hn | hn
  · exact List.mem_append_left _ hn
  · obtain ⟨d, hd, linked⟩ := List.mem_filterMap.mp hn
    exact List.mem_append_right _ (List.mem_filterMap.mpr ⟨d, hd, AddCall.linked_slot linked⟩)

theorem Owned.linked_nodup (o : Owned base held m ps) :
    (base ++ ps.filterMap AddCall.linked).Nodup := by
  have sub : (ps.filterMap AddCall.linked).Sublist (ps.filterMap AddCall.slot) := by
    clear o
    induction ps with
    | nil => exact .slnil
    | cons c ps ih =>
        cases hl : c.linked with
        | some n =>
            rw [List.filterMap_cons, hl, List.filterMap_cons, AddCall.linked_slot hl]
            exact ih.cons_cons n
        | none =>
            rw [List.filterMap_cons, hl, List.filterMap_cons]
            cases c.slot with
            | none => exact ih
            | some n => exact ih.cons n
  exact (sub.append_left base).nodup o.nodup

theorem Linking.look (k : Linking base m (c :: qs)) (start : m'.handlerStart = m.handlerStart)
    (links : ∀ i ∈ base ++ (c :: qs).filterMap AddCall.linked, m'.handlerLink i = m.handlerLink i)
    (before : c.linked = none) (after : c'.linked = none)
    (own : c'.Stands m (base ++ (c :: qs).filterMap AddCall.linked)) :
    Linking base m' (c' :: qs) := by
  have same : (c' :: qs).filterMap AddCall.linked = (c :: qs).filterMap AddCall.linked := by
    rw [List.filterMap_cons, List.filterMap_cons, before, after]
  refine ⟨?_, ?_⟩
  · obtain ⟨slots, chain, listed⟩ := k.chain
    rw [same, start]
    exact ⟨slots, chain.frame fun i hi => links i (listed.mem_iff.mp hi), listed⟩
  · rw [same]
    intro d hd
    have old : d.Stands m (base ++ (c :: qs).filterMap AddCall.linked) := by
      rcases List.mem_cons.mp hd with rfl | hd
      · exact own
      · exact k.stands d (List.mem_cons_of_mem c hd)
    refine old.grow (by simp [start]) (fun _ => id) ?_
    intro i hi
    rw [links i hi]
    exact id

theorem Linking.put (k : Linking base m (c :: qs)) (before : c.linked = none)
    (start : m.handlerStart ≠ none → m'.handlerStart ≠ none)
    (links : ∀ i, m.handlerLink i ≠ none → m'.handlerLink i ≠ none)
    {slots : List Slot} (chain : Chain m'.handlerLink m'.handlerStart slots)
    (grown : slots.Perm (n :: (base ++ (c :: qs).filterMap AddCall.linked))) :
    Linking base m' (c.goto (.ret (some n)) :: qs) := by
  have now : (base ++ (c.goto (.ret (some n)) :: qs).filterMap AddCall.linked).Perm
      (n :: (base ++ (c :: qs).filterMap AddCall.linked)) := by
    rw [List.filterMap_cons, List.filterMap_cons, before]
    exact List.perm_middle
  refine ⟨⟨slots, chain, grown.trans now.symm⟩, ?_⟩
  intro d hd
  rcases List.mem_cons.mp hd with rfl | hd
  · trivial
  · refine (k.stands d (List.mem_cons_of_mem c hd)).grow start ?_ (fun i _ => links i)
    exact fun i hi => now.mem_iff.mpr (List.mem_cons_of_mem n hi)

theorem Linking.step (k : Linking base m (c :: qs)) (o : Owned base held m (c :: qs))
    (fresh : c.Fresh m) (moved : c.next m = some (m', c')) : Linking base m' (c' :: qs) := by
  obtain ⟨slots, chain, same⟩ := k.chain
  have nodup : slots.Nodup := same.nodup_iff.mpr o.linked_nodup
  have stands := k.stands c List.mem_cons_self
  obtain ⟨f, toend, pc⟩ := c
  cases pc with
  | exchange rest =>
      cases rest with
      | nil =>
          cases moved
          exact k.look rfl (fun _ _ => rfl) rfl rfl trivial
      | cons i rest =>
          simp only [AddCall.next] at moved
          split at moved
          · cases moved
            cases toend <;> exact k.look rfl (fun _ _ => rfl) rfl rfl trivial
          · cases moved
            exact k.look rfl (fun _ _ => rfl) rfl rfl trivial
  | testStart n =>
      simp only [AddCall.next] at moved
      split at moved
      · cases moved
        exact k.look rfl (fun _ _ => rfl) rfl rfl trivial
      · next start hs =>
          cases moved
          exact k.look rfl (fun _ _ => rfl) rfl rfl (by simp [AddCall.Stands, AddCall.goto, hs])
  | setStart n =>
      cases moved
      rw [fresh.1] at chain
      obtain rfl := chain.eq_nil
      have single : Chain m.handlerLink (some n) [n] := by
        refine .cons ?_
        rw [fresh.2]
        exact .nil
      exact k.put rfl (by simp) (fun _ => id) single (same.cons n)
  | endTestStart n =>
      obtain ⟨start, -, moved⟩ := Option.map_eq_some_iff.mp moved
      cases moved
      exact k.look rfl (fun _ _ => rfl) rfl rfl stands
  | endStart n =>
      obtain ⟨i, hi, moved⟩ := Option.map_eq_some_iff.mp moved
      cases moved
      rw [hi] at chain
      exact k.look rfl (fun _ _ => rfl) rfl rfl (same.mem_iff.mp chain.start_mem)
  | endTest n i =>
      simp only [AddCall.next] at moved
      split at moved
      · cases moved
        exact k.look rfl (fun _ _ => rfl) rfl rfl stands
      · next j hj =>
          cases moved
          exact k.look rfl (fun _ _ => rfl) rfl rfl ⟨stands, by simp [hj]⟩
  | endNext n i =>
      obtain ⟨j, hj, moved⟩ := Option.map_eq_some_iff.mp moved
      cases moved
      exact k.look rfl (fun _ _ => rfl) rfl rfl
        (same.mem_iff.mp (chain.next_mem (same.mem_iff.mpr stands.1) hj))
  | setEnd n e =>
      cases moved
      obtain ⟨pre, rfl⟩ := chain.last_of_stop (same.mem_iff.mpr stands) fresh.1
      have off : n ∉ pre ++ [e] := fun hn => o.unlinked rfl rfl (same.mem_iff.mp hn)
      refine k.put rfl id ?_ (chain.push_back nodup off fresh.2) ?_
      · intro i hi
        by_cases at_end : i = e
        · simp [at_end]
        · simpa [at_end] using hi
      · have ends : (pre ++ [e, n]).Perm (n :: (pre ++ [e])) := by
          simpa using List.perm_append_singleton n (pre ++ [e])
        exact ends.trans (same.cons n)
  | readStart n =>
      cases moved
      exact k.look rfl (fun _ _ => rfl) rfl rfl trivial
  | setLink n start =>
      cases moved
      refine k.look rfl (fun i hi => ?_) rfl rfl trivial
      have off : i ≠ n := ne_of_mem_of_not_mem hi (o.unlinked rfl rfl)
      exact Function.update_of_ne off start m.handlerLink
  | pushStart n =>
      cases moved
      refine k.put rfl (by simp) (fun _ => id) (.cons ?_) (same.cons n)
      rw [← show m.handlerStart = m.handlerLink n from fresh]
      exact chain
  | ret slot => cases moved

end Linkage

section Runs
variable {h : HandlerCls T} {l : List T} {adds : List (T × Bool)} {ks : List Nat}
  {c : AddSystem T}

/-- The chain from handler_start visits the handlers of `l`, each once, and ends at -1. -/
def HandlerCls.OnChain (h : HandlerCls T) (l : List T) : Prop :=
  ∃ slots, Chain h.handlerLink h.handlerStart slots ∧ slots.Nodup ∧
    slots.map h.handlers = l.map some

theorem AddSystem.start_owned {base : List Slot} (k : h.Linked base)
    (held : base.map h.handlers = l.map some) :
    Owned base (l.map some) h (AddSystem.start h adds).procs := by
  have unclaimed : (AddSystem.start h adds).procs.filterMap AddCall.slot = [] := by
    simp [AddSystem.start, AddCall.enter, AddCall.slot]
  refine ⟨?_, ?_, held, ?_, ?_⟩
  · rw [unclaimed, List.append_nil]
    exact k.nodup
  · rw [unclaimed, List.append_nil]
    exact k.occupied
  · intro c hc n hn
    have claims := List.mem_filterMap.mpr ⟨c, hc, hn⟩
    rw [unclaimed] at claims
    cases claims
  · intro c hc s hs
    obtain ⟨⟨f, toend⟩, -, rfl⟩ := List.mem_map.mp hc
    refine absurd ?_ hs
    cases toend <;> simp [AddCall.slots]

theorem AddSystem.start_linking {base : List Slot} (k : h.Linked base) :
    Linking base h (AddSystem.start h adds).procs := by
  have unlinked : (AddSystem.start h adds).procs.filterMap AddCall.linked = [] := by
    simp [AddSystem.start, AddCall.enter, AddCall.linked]
  refine ⟨⟨base, k.chain, ?_⟩, ?_⟩
  · rw [unlinked, List.append_nil]
  · intro c hc
    obtain ⟨⟨f, toend⟩, -, rfl⟩ := List.mem_map.mp hc
    trivial

theorem owned_run {base : List Slot} (k : h.Linked base) (held : base.map h.handlers = l.map some)
    (run : Run AddStep (AddSystem.start h adds) ks c) :
    Owned base (l.map some) c.mem c.procs ∧
      (c.procs.map AddCall.handler).Perm (adds.map Prod.fst) := by
  refine keeps (I := fun m ps => Owned base (l.map some) m ps ∧
    (ps.map AddCall.handler).Perm (adds.map Prod.fst)) ?_ ?_ (unguarded run) ?_
  · exact fun perm o => ⟨o.1.order perm, (perm.symm.map _).trans o.2⟩
  · intro m p m' p' others o _ moved
    refine ⟨o.1.step moved, ?_⟩
    have handler : p'.handler = p.handler := by
      rcases next_claims moved with ⟨i, -, -, -, rfl⟩ | ⟨-, -, same, -⟩
      · rfl
      · exact same
    rw [List.map_cons, handler]
    exact o.2
  · refine ⟨AddSystem.start_owned k held, ?_⟩
    simp [AddSystem.start, AddCall.enter, Function.comp_def]

theorem linking_run {base : List Slot} (k : h.Linked base)
    (held : base.map h.handlers = l.map some)
    (run : Run (Guarded AddStep FreshStep) (AddSystem.start h adds) ks c) :
    Owned base (l.map some) c.mem c.procs ∧ Linking base c.mem c.procs := by
  refine keeps (I := fun m ps => Owned base (l.map some) m ps ∧ Linking base m ps) ?_ ?_ run
    ⟨AddSystem.start_owned k held, AddSystem.start_linking k⟩
  · exact fun perm o => ⟨o.1.order perm, o.2.order perm⟩
  · exact fun o fresh moved => ⟨o.1.step moved, o.2.step o.1 fresh moved⟩

/-- With a free slot for each call none of them returns 0, in any order of steps. -/
theorem no_add_refused (r : h.Represents l) (room : l.length + adds.length ≤ handlerLimit)
    (run : Run AddStep (AddSystem.start h adds) ks c) : ∀ p ∈ c.procs, p.pc ≠ .ret none := by
  obtain ⟨base, k, held⟩ := r
  obtain ⟨o, handlers⟩ := owned_run k held run
  intro p hp refused
  have every : ∀ s, s ∈ base ++ c.procs.filterMap AddCall.slot := by
    intro s
    rw [← o.occupied]
    exact o.passed p hp s (by simp [AddCall.Passed, refused])
  have count : (base ++ c.procs.filterMap AddCall.slot).length = handlerLimit := by
    rw [← List.toFinset_card_of_nodup o.nodup, Finset.eq_univ_of_forall fun s =>
      List.mem_toFinset.mpr (every s), Finset.card_univ, Fintype.card_fin]
  have fewer : (c.procs.filterMap AddCall.slot).length < c.procs.length :=
    List.length_filterMap_lt_length_iff_exists.mpr ⟨p, hp, by simp [AddCall.slot, refused]⟩
  have calls : c.procs.length = adds.length := by simpa using handlers.length_eq
  have before : base.length = l.length := by simpa using congrArg List.length held
  rw [List.length_append] at count
  omega

theorem no_add_stuck (r : h.Represents l)
    (run : Run (Guarded AddStep FreshStep) (AddSystem.start h adds) ks c) :
    ∀ p ∈ c.procs, (p.next c.mem).isSome ∨ ∃ slot, p.pc = .ret slot := by
  obtain ⟨base, k, held⟩ := r
  intro p hp
  have stands := (linking_run k held run).2.stands p hp
  obtain ⟨f, toend, pc⟩ := p
  cases pc with
  | ret slot => exact .inr ⟨slot, rfl⟩
  | exchange rest =>
      refine .inl ?_
      cases rest with
      | nil => rfl
      | cons i rest =>
          simp only [AddCall.next]
          split <;> rfl
  | testStart n | endTest n i =>
      refine .inl ?_
      simp only [AddCall.next]
      split <;> rfl
  | endTestStart n | endStart n =>
      exact .inl (by simpa [AddCall.next] using Option.isSome_iff_ne_none.mpr stands)
  | endNext n i =>
      exact .inl (by simpa [AddCall.next] using Option.isSome_iff_ne_none.mpr stands.2)
  | setStart n | setEnd n e | readStart n | setLink n start | pushStart n => exact .inl rfl

theorem map_eq_filterMap {slots : List Slot} {f : Slot → Option T}
    (every : ∀ s ∈ slots, (f s).isSome) : slots.map f = (slots.filterMap f).map some := by
  induction slots with
  | nil => rfl
  | cons s slots ih =>
      obtain ⟨t, ht⟩ := Option.isSome_iff_exists.mp (every s List.mem_cons_self)
      have rest := ih fun s' hs' => every s' (List.mem_cons_of_mem s hs')
      rw [List.map_cons, List.filterMap_cons, ht, List.map_cons, rest]

theorem Owned.handlers_linked {base : List Slot} {m : HandlerCls T} {ps : List (AddCall T)}
    (o : Owned base (l.map some) m ps) :
    (base ++ ps.filterMap AddCall.linked).filterMap m.handlers =
      l ++ ps.filterMap AddCall.registered := by
  rw [List.filterMap_append]
  congr 1
  · have kept := congrArg (List.filterMap id) o.kept
    simpa [List.filterMap_map] using kept
  · rw [List.filterMap_filterMap]
    refine List.filterMap_congr fun p hp => ?_
    cases linked : p.linked with
    | none => simp [AddCall.registered, linked]
    | some n =>
        have claimed := o.claimed p hp n (AddCall.linked_slot linked)
        simp [AddCall.registered, linked, claimed]

/-- While every linking write is made on what its call has read, the chain holds the
earlier handlers and those of the calls that have returned, each once; when all have
returned it represents all of them. -/
theorem concurrent_adds_registered (r : h.Represents l)
    (run : Run (Guarded AddStep FreshStep) (AddSystem.start h adds) ks c) :
    (∃ l', c.mem.OnChain l' ∧ l'.Perm (l ++ c.procs.filterMap AddCall.registered)) ∧
      ((∀ p ∈ c.procs, p.Returned1) →
        ∃ l', c.mem.Represents l' ∧ l'.Perm (l ++ adds.map Prod.fst)) := by
  obtain ⟨base, k, held⟩ := r
  obtain ⟨o, linking⟩ := linking_run k held run
  have handlers := (owned_run k held (run.mono And.right)).2
  obtain ⟨slots, chain, listed⟩ := linking.chain
  have nodup : slots.Nodup := listed.nodup_iff.mpr o.linked_nodup
  have occupied : ∀ s ∈ slots, (c.mem.handlers s).isSome := by
    intro s hs
    rw [o.occupied]
    rcases List.mem_append.mp (listed.mem_iff.mp hs) with old | new
    · exact List.mem_append_left _ old
    · obtain ⟨p, hp, linked⟩ := List.mem_filterMap.mp new
      exact List.mem_append_right _ (List.mem_filterMap.mpr ⟨p, hp, AddCall.linked_slot linked⟩)
  have perm : (slots.filterMap c.mem.handlers).Perm
      (l ++ c.procs.filterMap AddCall.registered) := by
    rw [← o.handlers_linked]
    exact listed.filterMap _
  refine ⟨⟨_, ⟨slots, chain, nodup, map_eq_filterMap occupied⟩, perm⟩, ?_⟩
  intro returned
  have all_linked : c.procs.filterMap AddCall.linked = c.procs.filterMap AddCall.slot :=
    List.filterMap_congr fun p hp => (returned p hp).linked_eq
  have all_registered : c.procs.filterMap AddCall.registered = c.procs.map AddCall.handler := by
    rw [← List.filterMap_eq_map]
    exact List.filterMap_congr fun p hp => (returned p hp).registered_eq
  refine ⟨_, ⟨slots, ⟨chain, nodup, ?_⟩, map_eq_filterMap occupied⟩, ?_⟩
  · intro s
    rw [o.occupied, listed.mem_iff, all_linked]
  · rw [all_registered] at perm
    exact perm.trans (handlers.append_left l)

theorem concurrent_adds_registered_back_front :
    ∃ ks c, Run (Guarded AddStep FreshStep)
        (AddSystem.start (.init : HandlerCls Nat) [(7, true), (8, false)]) ks c ∧
      ∃ l', c.mem.Represents l' ∧ l'.Perm [7, 8] := by
  have runs : ((guardedExec AddCall.next (fun m p _ => AddCall.Fresh m p)
      (AddSystem.start (.init : HandlerCls Nat) [(7, true), (8, false)])
      [0, 1, 0, 0, 1, 1, 1]).map fun c => c.procs.map AddCall.pc) =
      some [.ret (some 9), .ret (some 0)] := by
    decide
  obtain ⟨c, done, pcs⟩ := Option.map_eq_some_iff.mp runs
  have run := guardedExec_run done
  refine ⟨_, c, run, (concurrent_adds_registered HandlerCls.init_represents run).2 ?_⟩
  intro p hp
  have at_ret : p.pc ∈ c.procs.map AddCall.pc := List.mem_map_of_mem hp
  rw [pcs] at at_ret
  rcases List.mem_cons.mp at_ret with at_ret | at_ret
  · exact ⟨_, at_ret⟩
  · exact ⟨_, List.mem_singleton.mp at_ret⟩

/-- Two front insertions read handler_start before either writes it: the second write
leaves the slot of the first off the chain. -/
theorem concurrent_front_adds_lose :
    (HandlerCls.init : HandlerCls Nat).Represents [] ∧
      ∃ ks c, Run AddStep (AddSystem.start (.init : HandlerCls Nat) [(7, false), (8, false)]) ks c ∧
        (∀ p ∈ c.procs, p.Returned1) ∧ ¬ ∃ l', c.mem.OnChain l' ∧ l'.Perm [7, 8] := by
  refine ⟨HandlerCls.init_represents, ?_⟩
  have runs : ((exec AddCall.next
      (AddSystem.start (.init : HandlerCls Nat) [(7, false), (8, false)])
      [0, 1, 1, 0, 1, 0, 1, 0, 1]).map fun c =>
        (c.procs.map AddCall.pc, c.mem.handlerStart, c.mem.handlerLink 1)) =
      some ([.ret (some 0), .ret (some 1)], some 1, none) := by
    decide
  obtain ⟨c, done, seen⟩ := Option.map_eq_some_iff.mp runs
  obtain ⟨pcs, rest⟩ := Prod.mk.inj seen
  obtain ⟨start, last⟩ := Prod.mk.inj rest
  refine ⟨_, c, exec_run done, ?_, ?_⟩
  · intro p hp
    have at_ret : p.pc ∈ c.procs.map AddCall.pc := List.mem_map_of_mem hp
    rw [pcs] at at_ret
    rcases List.mem_cons.mp at_ret with at_ret | at_ret
    · exact ⟨_, at_ret⟩
    · exact ⟨_, List.mem_singleton.mp at_ret⟩
  · rintro ⟨l', ⟨slots, chain, -, held⟩, perm⟩
    have single : Chain c.mem.handlerLink c.mem.handlerStart [1] := by
      rw [start]
      refine .cons ?_
      rw [last]
      exact .nil
    rw [chain.unique single] at held
    have short := congrArg List.length held
    have long := perm.length_eq
    simp only [List.length_map, List.length_cons, List.length_nil] at short long
    omega

end Runs
end System
end LMalz.Handler
