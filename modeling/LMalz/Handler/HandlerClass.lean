import LMalz.Lib.LinkChain

/- The slot and link arrays of HANDLER_CLS, with its public operations. -/
namespace LMalz.Handler
open Function (update)

def handlerLimit : Nat := 10

abbrev Slot := Fin handlerLimit

/-- A slot holding `none` holds `_null`; a link or start of `none` is -1. -/
structure HandlerCls (T : Type) where
  handlers : Slot → Option T
  handlerLink : Slot → Option Slot
  handlerStart : Option Slot

namespace HandlerCls
variable {T : Type}

/-- The constructor. -/
def init : HandlerCls T := ⟨fun _ => none, fun _ => none, none⟩

/-- The `for` loop of find_link_last. Only exhausted fuel gives `none`. -/
def findLinkLastLoop (h : HandlerCls T) (n : Slot) : Nat → Slot → Option (Option Slot)
  | 0, _ => none
  | fuel+1, i => match h.handlerLink i with
      | none => some none
      | some j => if j = n then some (some i) else h.findLinkLastLoop n fuel j

/-- The predecessor of a linked slot. An empty chain would read `handler_link[-1]`,
which has no value here. -/
def findLinkLast (h : HandlerCls T) (n : Slot) : Option (Option Slot) :=
  if h.handlerStart = some n then some none
  else match h.handlerStart with
    | none => none
    | some i => h.findLinkLastLoop n handlerLimit i

def getLinkEndLoop (h : HandlerCls T) : Nat → Slot → Option Slot
  | 0, _ => none
  | fuel+1, i => match h.handlerLink i with
      | none => some i
      | some j => h.getLinkEndLoop fuel j

/-- get_link_end, called on a nonempty chain only; a cyclic chain never returns. -/
def getLinkEnd (h : HandlerCls T) (start : Slot) : Option Slot :=
  h.getLinkEndLoop handlerLimit start

def addSetLink (h : HandlerCls T) (n : Slot) (toend : Bool) : Option (HandlerCls T) :=
  if toend then
    match h.handlerStart with
    | none => some { h with handlerStart := some n }
    | some start => (h.getLinkEnd start).map fun e =>
        { h with handlerLink := update h.handlerLink e (some n) }
  else some { h with
    handlerLink := update h.handlerLink n h.handlerStart
    handlerStart := some n }

def subSetLink (h : HandlerCls T) (n : Slot) : Option (HandlerCls T) :=
  (h.findLinkLast n).map fun
    | none => { h with handlerStart := h.handlerLink n }
    | some lst => { h with handlerLink := update h.handlerLink lst (h.handlerLink n) }

/-- The slot whose compare-exchange with `_null` succeeds: the scan runs down from
the last slot for a back insertion and up from the first one otherwise. -/
def freeSlot (h : HandlerCls T) (toend : Bool) : Option Slot :=
  (if toend then (List.finRange handlerLimit).reverse else List.finRange handlerLimit).find?
    fun i => (h.handlers i).isNone

def addHandler (h : HandlerCls T) (handler : T) (toend : Bool) : Option (Bool × HandlerCls T) :=
  match h.freeSlot toend with
  | none => some (false, h)
  | some i => (addSetLink { h with handlers := update h.handlers i (some handler) } i toend).map
      fun h' => (true, h')

def subHandler [DecidableEq T] (h : HandlerCls T) (handler : T) : Option (Bool × HandlerCls T) :=
  match (List.finRange handlerLimit).find? fun i => h.handlers i = some handler with
  | none => some (false, h)
  | some i => (subSetLink { h with handlers := update h.handlers i none } i).map
      fun h' => (true, h')

/-- The loop of call_handlers; a handler is a function on the caller's world and
`_null` returns 0 without touching it. -/
def callLoop {W : Type} (h : HandlerCls T) (call : T → W → Bool × W) :
    Nat → Option Slot → W → Option (Bool × W)
  | _, none, w => some (false, w)
  | 0, some _, _ => none
  | fuel+1, some i, w => match h.handlers i with
      | none => h.callLoop call fuel (h.handlerLink i) w
      | some f => match call f w with
          | (true, w') => some (true, w')
          | (false, w') => h.callLoop call fuel (h.handlerLink i) w'

def callHandlers {W : Type} (h : HandlerCls T) (call : T → W → Bool × W) (w : W) :
    Option (Bool × W) :=
  h.callLoop call handlerLimit h.handlerStart w

end HandlerCls

/-- One public call. -/
inductive Op (T : Type) where
  | add (handler : T) (toend : Bool)
  | sub (handler : T)
  deriving DecidableEq, Repr

namespace HandlerCls
variable {T : Type} [DecidableEq T]

def step (h : HandlerCls T) : Op T → Option (Bool × HandlerCls T)
  | .add handler toend => h.addHandler handler toend
  | .sub handler => h.subHandler handler

/-- A sequence of calls with the values they return. -/
def run : HandlerCls T → List (Op T) → Option (List Bool × HandlerCls T)
  | h, [] => some ([], h)
  | h, op :: ops => match h.step op with
      | none => none
      | some (r, h') => (h'.run ops).map fun (rs, h'') => (r :: rs, h'')

end HandlerCls
end LMalz.Handler
