import LMalz.Handler.HandlerClass
import Mathlib.Data.Fintype.Card

/- HANDLER_CLS against its purpose: a list of at most HANDLER_LIMIT handlers. -/
namespace LMalz.Handler
open Function (update)
open LinkChain

section Abstract
variable {T : Type}

/-- The abstract operation: the returned value and the list afterwards. -/
def boundedStep [DecidableEq T] (l : List T) : Op T → Bool × List T
  | .add handler toend =>
      if l.length < handlerLimit then (true, if toend then l ++ [handler] else handler :: l)
      else (false, l)
  | .sub handler => if handler ∈ l then (true, l.erase handler) else (false, l)

/-- Handlers in list order until the first that returns true. -/
def callList {W : Type} (call : T → W → Bool × W) : List T → W → Bool × W
  | [], w => (false, w)
  | f :: fs, w => match call f w with
      | (true, w') => (true, w')
      | (false, w') => callList call fs w'

/-- No handler is added while it is registered. -/
def Distinct [DecidableEq T] : List T → List (Op T) → Prop
  | _, [] => True
  | l, op :: ops =>
      (∀ handler toend, op = .add handler toend → handler ∉ l) ∧ Distinct (boundedStep l op).2 ops

theorem boundedStep_nodup [DecidableEq T] {l : List T} (nodup : l.Nodup) (op : Op T)
    (distinct : ∀ handler toend, op = .add handler toend → handler ∉ l) :
    (boundedStep l op).2.Nodup := by
  cases op with
  | add handler toend =>
      have fresh := distinct handler toend rfl
      simp only [boundedStep]
      split_ifs
      · exact (List.perm_append_singleton handler l).nodup_iff.mpr
          (List.nodup_cons.mpr ⟨fresh, nodup⟩)
      · exact List.nodup_cons.mpr ⟨fresh, nodup⟩
      · exact nodup
  | sub handler =>
      simp only [boundedStep]
      split_ifs
      · exact nodup.erase handler
      · exact nodup

end Abstract

namespace HandlerCls
variable {T : Type}

/-- The chain from the start visits exactly the occupied slots, each once. -/
structure Linked (h : HandlerCls T) (slots : List Slot) : Prop where
  chain : Chain h.handlerLink h.handlerStart slots
  nodup : slots.Nodup
  occupied : ∀ s, (h.handlers s).isSome ↔ s ∈ slots

/-- The chain holds the handlers of the abstract list, in its order. -/
def Represents (h : HandlerCls T) (l : List T) : Prop :=
  ∃ slots, h.Linked slots ∧ slots.map h.handlers = l.map some

def CallsInOrder (h : HandlerCls T) (l : List T) : Prop :=
  ∀ (W : Type) (call : T → W → Bool × W) (w : W),
    h.callHandlers call w = some (callList call l w)

/-- A back insertion takes a slot whose link is still -1. -/
def CleanStep (h : HandlerCls T) : Op T → Prop
  | .add _ true => ∀ i, h.freeSlot true = some i → h.handlerLink i = none
  | _ => True

theorem init_represents : (init : HandlerCls T).Represents [] :=
  ⟨[], ⟨.nil, List.nodup_nil, by simp [init]⟩, rfl⟩

section Loops
variable {h : HandlerCls T} {slots l m : List Slot} {i n p : Slot} {fuel : Nat}

theorem Linked.length_le (k : h.Linked slots) : slots.length ≤ handlerLimit := by
  simpa using k.nodup.length_le_card

theorem Linked.free (k : h.Linked slots) (empty : h.handlers i = none) : i ∉ slots := by
  intro hi
  have := (k.occupied i).mpr hi
  simp [empty] at this

/-- On a chain through `n` the loop stops at the slot in front of it. -/
theorem findLinkLastLoop_eq (c : Chain h.handlerLink (some i) (l ++ p :: n :: m))
    (nodup : (l ++ p :: n :: m).Nodup) (enough : (l ++ p :: n :: m).length ≤ fuel) :
    h.findLinkLastLoop n fuel i = some (some p) := by
  induction fuel generalizing i l with
  | zero => simp at enough
  | succ fuel ih =>
      cases l with
      | nil =>
          have hp : i = p := Option.some.inj c.eq_head
          have hlink : h.handlerLink p = some n := c.tail.eq_head
          simp [findLinkLastLoop, hp, hlink]
      | cons a l =>
          have ha : i = a := Option.some.inj c.eq_head
          subst ha
          have inner := c.tail
          have rest := (List.nodup_cons.mp nodup).2
          have small : (l ++ p :: n :: m).length ≤ fuel := by
            simpa using enough
          obtain ⟨b, hb, hbn⟩ : ∃ b, h.handlerLink i = some b ∧ b ≠ n := by
            cases l with
            | nil =>
                refine ⟨p, inner.eq_head, ?_⟩
                intro same
                simp [same] at rest
            | cons b l =>
                refine ⟨b, inner.eq_head, ?_⟩
                intro same
                simp [same] at rest
          rw [hb] at inner
          simp only [findLinkLastLoop, hb, if_neg hbn]
          exact ih inner rest small

theorem getLinkEndLoop_eq (c : Chain h.handlerLink (some i) (l ++ [p]))
    (enough : (l ++ [p]).length ≤ fuel) : h.getLinkEndLoop fuel i = some p := by
  induction fuel generalizing i l with
  | zero => simp at enough
  | succ fuel ih =>
      cases l with
      | nil =>
          have hp : i = p := Option.some.inj c.eq_head
          have hlink : h.handlerLink p = none := c.tail.eq_none
          simp [getLinkEndLoop, hp, hlink]
      | cons a l =>
          have ha : i = a := Option.some.inj c.eq_head
          subst ha
          have inner := c.tail
          obtain ⟨b, hb⟩ : ∃ b, h.handlerLink i = some b :=
            Option.ne_none_iff_exists'.mp (c.link_inner (by simp))
          rw [hb] at inner
          simp only [getLinkEndLoop, hb]
          exact ih inner (by simpa using enough)

theorem callLoop_eq {W : Type} (call : T → W → Bool × W) {s : Option Slot} {fs : List T}
    (c : Chain h.handlerLink s slots) (held : slots.map h.handlers = fs.map some)
    (enough : slots.length ≤ fuel) (w : W) :
    h.callLoop call fuel s w = some (callList call fs w) := by
  induction c generalizing fuel fs w with
  | nil =>
      have hfs : fs = [] := by simpa using held.symm
      subst hfs
      cases fuel <;> rfl
  | @cons a l _ ih =>
      cases fs with
      | nil => simp at held
      | cons f fs =>
          simp only [List.map_cons, List.cons.injEq] at held
          cases fuel with
          | zero => simp at enough
          | succ fuel =>
              simp only [callLoop, held.1, callList]
              rcases call f w with ⟨r, w'⟩
              cases r with
              | true => rfl
              | false => exact ih held.2 (by simpa using enough) w'

end Loops

theorem Represents.calls {h : HandlerCls T} {l : List T} (r : h.Represents l) :
    h.CallsInOrder l := by
  obtain ⟨slots, k, held⟩ := r
  intro W call w
  exact callLoop_eq call k.chain held k.length_le w

section Steps
variable {h h' : HandlerCls T} {slots : List Slot} {l : List T} {i : Slot} {toend : Bool}

theorem freeSlot_empty (free : h.freeSlot toend = some i) : h.handlers i = none := by
  simpa using List.find?_some free

theorem Linked.full_iff (k : h.Linked slots) :
    h.freeSlot toend = none ↔ ¬ slots.length < handlerLimit := by
  have every : h.freeSlot toend = none ↔ ∀ s, s ∈ slots := by
    cases toend <;>
      simp [freeSlot, List.find?_eq_none, ← Option.isSome_iff_ne_none, k.occupied]
  rw [every]
  constructor
  · intro all
    have card : slots.toFinset.card = handlerLimit := by
      rw [Finset.eq_univ_of_forall (s := slots.toFinset) (by simpa using all), Finset.card_univ,
        Fintype.card_fin]
    rw [List.toFinset_card_of_nodup k.nodup] at card
    omega
  · intro full s
    have card : slots.toFinset.card = Fintype.card Slot := by
      rw [List.toFinset_card_of_nodup k.nodup, Fintype.card_fin]
      have := k.length_le
      omega
    have whole := (Finset.card_eq_iff_eq_univ slots.toFinset).mp card
    have hs : s ∈ slots.toFinset := by rw [whole]; exact Finset.mem_univ s
    simpa using hs

/-- Registering in a free slot touches no handler on the chain. -/
theorem Linked.map_register (k : h.Linked slots) (empty : h.handlers i = none) (f : Option T) :
    slots.map (update h.handlers i f) = slots.map h.handlers :=
  List.map_congr_left fun _ hs =>
    Function.update_of_ne (ne_of_mem_of_not_mem hs (k.free empty)) f h.handlers

theorem occupied_register (k : h.Linked slots) (f : T) (s : Slot) :
    (update h.handlers i (some f) s).isSome ↔ s = i ∨ s ∈ slots := by
  by_cases same : s = i
  · simp [same]
  · simp [same, k.occupied s]

theorem addHandler_front (k : h.Linked slots) (held : slots.map h.handlers = l.map some) (f : T)
    (free : h.freeSlot false = some i) :
    ∃ h', h.addHandler f false = some (true, h') ∧ h'.Represents (f :: l) := by
  have empty := freeSlot_empty free
  refine ⟨_, by simp only [addHandler, free]; rfl, i :: slots, ⟨?_, ?_, ?_⟩, ?_⟩
  · exact k.chain.push_front (k.free empty)
  · exact List.nodup_cons.mpr ⟨k.free empty, k.nodup⟩
  · intro s
    rw [List.mem_cons]
    exact occupied_register k f s
  · rw [List.map_cons, k.map_register empty, held]
    simp

theorem Represents.addFront (r : h.Represents l) (room : l.length < handlerLimit) (f : T) :
    ∃ h', h.addHandler f false = some (true, h') ∧ h'.Represents (f :: l) := by
  obtain ⟨slots, k, held⟩ := r
  have count : slots.length = l.length := by simpa using congrArg List.length held
  cases free : h.freeSlot false with
  | none => exact absurd room (count ▸ k.full_iff.mp free)
  | some i => exact addHandler_front k held f free

theorem addHandler_back_eq (k : h.Linked slots) (f : T) (free : h.freeSlot true = some i) :
    h.addHandler f true = some (true, match slots.getLast? with
      | none => { h with handlers := update h.handlers i (some f), handlerStart := some i }
      | some e => { h with
          handlers := update h.handlers i (some f)
          handlerLink := update h.handlerLink e (some i) }) := by
  rcases List.eq_nil_or_concat slots with rfl | ⟨pre, e, rfl⟩
  · simp [addHandler, free, addSetLink, k.chain.eq_none]
  · have chain := k.chain
    have short := k.length_le
    rw [List.concat_eq_append] at chain short
    obtain ⟨start, hs⟩ : ∃ start, h.handlerStart = some start := by
      cases pre with
      | nil => exact ⟨e, chain.eq_head⟩
      | cons a pre => exact ⟨a, chain.eq_head⟩
    rw [hs] at chain
    have reach : getLinkEnd { h with
        handlers := update h.handlers i (some f)
        handlerStart := some start } start = some e :=
      getLinkEndLoop_eq chain short
    simp [addHandler, free, addSetLink, hs, reach]

theorem addHandler_back (k : h.Linked slots) (held : slots.map h.handlers = l.map some) (f : T)
    (free : h.freeSlot true = some i) (clean : h.handlerLink i = none) :
    ∃ h', h.addHandler f true = some (true, h') ∧ h'.Represents (l ++ [f]) := by
  have empty := freeSlot_empty free
  have fresh := k.free empty
  refine ⟨_, addHandler_back_eq k f free, slots ++ [i], ?_, ?_⟩
  · have nodup : (slots ++ [i]).Nodup :=
      (List.perm_append_singleton i slots).nodup_iff.mpr (List.nodup_cons.mpr ⟨fresh, k.nodup⟩)
    have occupied : ∀ s, (update h.handlers i (some f) s).isSome ↔ s ∈ slots ++ [i] := by
      intro s
      rw [occupied_register k f s, List.mem_append, List.mem_singleton, or_comm]
    rcases List.eq_nil_or_concat slots with rfl | ⟨pre, e, rfl⟩
    · exact ⟨.cons (clean ▸ .nil), nodup, occupied⟩
    · have chain := k.chain
      have distinct := k.nodup
      simp only [List.concat_eq_append] at chain distinct fresh nodup occupied ⊢
      rw [List.getLast?_append]
      refine ⟨?_, nodup, occupied⟩
      simpa using chain.push_back distinct fresh clean
  · rcases List.eq_nil_or_concat slots with rfl | ⟨pre, e, rfl⟩
    · have hl : l = [] := by simpa using held.symm
      simp [hl]
    · have same := k.map_register empty (some f)
      rw [held] at same
      simp only [List.concat_eq_append] at same ⊢
      rw [List.getLast?_append]
      simp only [List.getLast?_singleton, Option.some_or, List.map_append, List.map_cons,
        List.map_nil, Function.update_self] at same ⊢
      rw [same]

/-- A stale link behind the new last slot: no chain of occupied slots stops. -/
theorem addHandler_stale (k : h.Linked slots) (f : T) (free : h.freeSlot true = some i)
    (stale : h.handlerLink i ≠ none) {r : Bool} (done : h.addHandler f true = some (r, h')) :
    ¬ h'.Represents (l ++ [f]) := by
  rintro ⟨slots', k', held'⟩
  have fresh := k.free (freeSlot_empty free)
  rw [addHandler_back_eq k f free] at done
  obtain ⟨-, rfl⟩ := Prod.mk.inj (Option.some.inj done)
  have nonempty : slots' ≠ [] := by
    rintro rfl
    simp at held'
  obtain ⟨a, ha, stop⟩ := k'.chain.exists_stop nonempty
  have occ := (k'.occupied a).mpr ha
  rcases List.eq_nil_or_concat slots with rfl | ⟨pre, e, rfl⟩
  · rcases (occupied_register k f a).mp occ with rfl | ha'
    · exact stale stop
    · cases ha'
  · have chain := k.chain
    simp only [List.concat_eq_append] at chain fresh stop occ
    simp only [List.getLast?_append, List.getLast?_singleton, Option.some_or] at stop occ
    have hie : i ≠ e := fun same => fresh (by simp [same])
    rcases (occupied_register k f a).mp occ with rfl | ha'
    · rw [Function.update_of_ne hie] at stop
      exact stale stop
    · rw [List.concat_eq_append, List.mem_append, List.mem_singleton] at ha'
      by_cases last : a = e
      · simp [last] at stop
      · rw [Function.update_of_ne last] at stop
        exact chain.link_inner (ha'.resolve_right last) stop

/-- Removing slot `i` from the chain leaves the slots around it linked. -/
theorem Linked.unlink {pre post : List Slot} (k : h.Linked (pre ++ i :: post)) :
    ∃ h', subSetLink { h with handlers := update h.handlers i none } i = some h' ∧
      h'.Linked (pre ++ post) ∧ h'.handlers = update h.handlers i none := by
  have nodup : (pre ++ post).Nodup ∧ i ∉ pre ++ post := by
    have := (List.nodup_middle.mp k.nodup)
    exact ⟨(List.nodup_cons.mp this).2, (List.nodup_cons.mp this).1⟩
  have occupied : ∀ s, (update h.handlers i none s).isSome ↔ s ∈ pre ++ post := by
    intro s
    by_cases same : s = i
    · subst same
      simpa using nodup.2
    · rw [Function.update_of_ne same, k.occupied s]
      simp [same]
  rcases List.eq_nil_or_concat pre with rfl | ⟨pre, p, rfl⟩
  · have start : h.handlerStart = some i := k.chain.eq_head
    refine ⟨{ h with handlers := update h.handlers i none, handlerStart := h.handlerLink i },
      by simp [subSetLink, findLinkLast, start], ⟨?_, nodup.1, occupied⟩, rfl⟩
    exact k.chain.tail
  · simp only [List.concat_eq_append, List.append_assoc, List.singleton_append] at k nodup occupied ⊢
    have chain := k.chain
    obtain ⟨start, hs, hne⟩ : ∃ start, h.handlerStart = some start ∧ start ≠ i := by
      cases pre with
      | nil => exact ⟨p, chain.eq_head, fun same => nodup.2 (by simp [same])⟩
      | cons a pre => exact ⟨a, chain.eq_head, fun same => nodup.2 (by simp [same])⟩
    rw [hs] at chain
    have found : findLinkLastLoop { h with
        handlers := update h.handlers i none
        handlerStart := some start } i handlerLimit start = some (some p) :=
      findLinkLastLoop_eq chain k.nodup k.length_le
    refine ⟨{ h with
        handlers := update h.handlers i none
        handlerLink := update h.handlerLink p (h.handlerLink i) },
      by simp [subSetLink, findLinkLast, hs, hne, found], ⟨?_, nodup.1, occupied⟩, rfl⟩
    exact k.chain.unlink k.nodup

variable [DecidableEq T]

theorem subHandler_present (k : h.Linked slots) (held : slots.map h.handlers = l.map some)
    (distinct : l.Nodup) {f : T} (hf : f ∈ l) :
    ∃ h', h.subHandler f = some (true, h') ∧ h'.Represents (l.erase f) := by
  have somewhere : some f ∈ slots.map h.handlers := by
    rw [held]
    exact List.mem_map_of_mem hf
  obtain ⟨j, hj, hjf⟩ := List.mem_map.mp somewhere
  obtain ⟨i, hfind⟩ : ∃ i, (List.finRange handlerLimit).find?
      (fun i => h.handlers i = some f) = some i := by
    rw [← Option.isSome_iff_exists, List.find?_isSome]
    exact ⟨j, List.mem_finRange j, by simpa using hjf⟩
  have hi : h.handlers i = some f := by simpa using List.find?_some hfind
  obtain ⟨pre, post, rfl⟩ := List.append_of_mem ((k.occupied i).mp (by simp [hi]))
  obtain ⟨h', done, k', handlers⟩ := k.unlink
  refine ⟨h', by simp [subHandler, hfind, done], pre ++ post, k', ?_⟩
  have fresh := (List.nodup_cons.mp (List.nodup_middle.mp k.nodup)).1
  have kept : (pre ++ post).map h'.handlers = (pre ++ post).map h.handlers := by
    rw [handlers]
    exact List.map_congr_left fun s hs =>
      Function.update_of_ne (ne_of_mem_of_not_mem hs fresh) none h.handlers
  rw [kept]
  rw [List.map_append, List.map_cons, hi] at held
  obtain ⟨front, rest, rfl, hfront, hrest⟩ := List.map_eq_append_iff.mp held.symm
  obtain ⟨g, back, rfl, hg, hback⟩ := List.map_eq_cons_iff.mp hrest
  obtain rfl : g = f := Option.some.inj hg
  have outside : g ∉ front := fun hgf =>
    (List.nodup_cons.mp (List.nodup_middle.mp distinct)).1 (List.mem_append_left _ hgf)
  rw [List.erase_append_right _ outside, List.erase_cons_head, List.map_append, List.map_append,
    hfront, hback]

theorem subHandler_absent (held : slots.map h.handlers = l.map some) (k : h.Linked slots) {f : T}
    (hf : f ∉ l) : h.subHandler f = some (false, h) := by
  have nowhere : (List.finRange handlerLimit).find? (fun i => h.handlers i = some f) = none := by
    rw [List.find?_eq_none]
    intro i _ hi
    simp only [decide_eq_true_eq] at hi
    have : h.handlers i ∈ slots.map h.handlers :=
      List.mem_map_of_mem ((k.occupied i).mp (by simp [hi]))
    rw [held, hi] at this
    exact hf (by simpa using this)
  simp [subHandler, nowhere]

theorem step_represents {op : Op T} (r : h.Represents l) (nodup : l.Nodup)
    (clean : h.CleanStep op) :
    ∃ h', h.step op = some ((boundedStep l op).1, h') ∧ h'.Represents (boundedStep l op).2 := by
  obtain ⟨slots, k, held⟩ := r
  have count : slots.length = l.length := by simpa using congrArg List.length held
  cases op with
  | add f toend =>
      cases hfree : h.freeSlot toend with
      | none =>
          have full := k.full_iff.mp hfree
          rw [count] at full
          exact ⟨h, by simp [step, addHandler, hfree, boundedStep, full],
            slots, k, by simp [boundedStep, full, held]⟩
      | some i =>
          have room : l.length < handlerLimit := by
            rw [← count]
            by_contra full
            simp [k.full_iff.mpr full] at hfree
          simp only [boundedStep, if_pos room, step]
          cases toend with
          | true => exact addHandler_back k held f hfree (clean i hfree)
          | false => exact addHandler_front k held f hfree
  | sub f =>
      by_cases hf : f ∈ l
      · simp only [boundedStep, if_pos hf, step]
        exact subHandler_present k held nodup hf
      · simp only [boundedStep, if_neg hf, step]
        exact ⟨h, subHandler_absent held k hf, slots, k, held⟩

theorem step_stale {op : Op T} (r : h.Represents l) (dirty : ¬ h.CleanStep op) {v : Bool}
    (done : h.step op = some (v, h')) : ¬ h'.Represents (boundedStep l op).2 := by
  obtain ⟨slots, k, held⟩ := r
  have count : slots.length = l.length := by simpa using congrArg List.length held
  cases op with
  | sub f => exact absurd trivial dirty
  | add f toend =>
      cases toend with
      | false => exact absurd trivial dirty
      | true =>
          obtain ⟨i, hfree, stale⟩ : ∃ i, h.freeSlot true = some i ∧ h.handlerLink i ≠ none := by
            simpa [CleanStep] using dirty
          have room : l.length < handlerLimit := by
            rw [← count]
            by_contra full
            simp [k.full_iff.mpr full] at hfree
          simp only [boundedStep, if_pos room, if_true]
          exact addHandler_stale k f hfree stale done

end Steps

section Runs
variable {T : Type} [DecidableEq T]

/-- After every prefix of the calls the code has returned what the list returns, its
chain holds that list and its dispatch runs that list. -/
def Tracks : HandlerCls T → List T → List (Op T) → Prop
  | h, l, [] => h.Represents l ∧ h.CallsInOrder l
  | h, l, op :: ops => (h.Represents l ∧ h.CallsInOrder l) ∧
      ∃ h', h.step op = some ((boundedStep l op).1, h') ∧ h'.Tracks (boundedStep l op).2 ops

/-- Every call of the run is made in a state that is clean for it. -/
def CleanRun : HandlerCls T → List (Op T) → Prop
  | _, [] => True
  | h, op :: ops => h.CleanStep op ∧ ∀ v h', h.step op = some (v, h') → h'.CleanRun ops

theorem Tracks.represents {h : HandlerCls T} {l : List T} {ops : List (Op T)}
    (t : h.Tracks l ops) : h.Represents l := by
  cases ops with
  | nil => exact t.1
  | cons op ops => exact t.1.1

theorem tracks_iff_clean {h : HandlerCls T} {l : List T} {ops : List (Op T)}
    (r : h.Represents l) (nodup : l.Nodup) (distinct : Distinct l ops) :
    h.Tracks l ops ↔ h.CleanRun ops := by
  induction ops generalizing h l with
  | nil => exact ⟨fun _ => trivial, fun _ => ⟨r, r.calls⟩⟩
  | cons op ops ih =>
      have nodup' := boundedStep_nodup nodup op distinct.1
      constructor
      · rintro ⟨-, h', done, tracks⟩
        have clean : h.CleanStep op := by
          by_contra dirty
          exact step_stale r dirty done tracks.represents
        refine ⟨clean, ?_⟩
        intro v h'' done'
        obtain ⟨-, rfl⟩ := Prod.mk.inj (Option.some.inj (done.symm.trans done'))
        exact (ih tracks.represents nodup' distinct.2).mp tracks
      · rintro ⟨clean, rest⟩
        obtain ⟨h', done, r'⟩ := step_represents r nodup clean
        exact ⟨⟨r, r.calls⟩, h', done, (ih r' nodup' distinct.2).mpr (rest _ h' done)⟩

theorem Tracks.final {h : HandlerCls T} {l : List T} {ops : List (Op T)} (t : h.Tracks l ops) :
    ∃ rs h' l', h.run ops = some (rs, h') ∧ h'.CallsInOrder l' := by
  induction ops generalizing h l with
  | nil => exact ⟨[], h, l, rfl, t.2⟩
  | cons op ops ih =>
      obtain ⟨-, h', done, rest⟩ := t
      obtain ⟨rs, h'', l', ran, calls⟩ := ih rest
      exact ⟨(boundedStep l op).1 :: rs, h'', l', by simp only [run, done, ran, Option.map_some], calls⟩

/-- HANDLER_CLS refines the bounded list along a run exactly when each back insertion
takes a slot whose link no earlier removal has left set. -/
theorem handlerCls_refines_iff_clean (ops : List (Op T)) (distinct : Distinct [] ops) :
    (init : HandlerCls T).Tracks [] ops ↔ (init : HandlerCls T).CleanRun ops :=
  tracks_iff_clean init_represents List.nodup_nil distinct

theorem handlerCls_refines_front_and_removal :
    (init : HandlerCls Nat).Tracks [] [.add 7 true, .add 8 false, .sub 7] := by
  refine (handlerCls_refines_iff_clean _ (by simp [Distinct, boundedStep, handlerLimit])).mpr ?_
  refine ⟨fun i _ => rfl, fun v h' done => ⟨trivial, fun _ _ _ => ⟨trivial, fun _ _ _ => trivial⟩⟩⟩

/-- Two back insertions, removal of the first, a third back insertion: slot 9 is reused
with its link still on slot 8, and the chain 8, 9, 8, ... has no end. -/
theorem handlerCls_cycle_after_reuse :
    Distinct [] [Op.add 1 true, .add 2 true, .sub 1, .add 3 true] ∧
      ¬ (init : HandlerCls Nat).Tracks [] [.add 1 true, .add 2 true, .sub 1, .add 3 true] := by
  refine ⟨by simp [Distinct, boundedStep, handlerLimit], ?_⟩
  intro tracks
  obtain ⟨rs, h, l, ran, calls⟩ := tracks.final
  have endless : ((init : HandlerCls Nat).run [.add 1 true, .add 2 true, .sub 1, .add 3 true]).map
      (fun result => result.2.callHandlers (fun _ w => (false, w)) ()) = some none := by
    decide
  rw [ran, Option.map_some, calls Unit] at endless
  cases endless

end Runs
end HandlerCls
end LMalz.Handler
