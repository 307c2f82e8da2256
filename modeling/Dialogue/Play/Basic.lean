import Dialogue.Story.Basic
import Dialogue.Notice

/-! Where a play of a story is, what moves it, and what it shows. A node is revealed segment by segment; each reveal
has a ticket, and the ticket that comes back moves play on only if it is the live one. The visit in it counts the
nodes entered, so that a second stay on a node does not take tickets of the first. -/
namespace Dialogue.Play

structure Ticket where
  nodeId : NodeId
  segment : Nat
  visit : Nat
  deriving DecidableEq, Repr, Inhabited

structure State where
  nodeId : NodeId
  context : Context
  awaitingChoice : Bool
  revealIndex : Nat
  /- The successor that the rules chose when the node was entered. -/
  nextId : Option NodeId
  visit : Nat
  finished : Bool
  deriving DecidableEq, Repr, Inhabited

inductive Event where
  | revealed (ticket : Ticket)
  | select (id : ActionId)
  deriving DecidableEq, Repr, Inhabited

structure Offer where
  id : ActionId
  label : String
  deriving DecidableEq, Repr, Inhabited

structure Output where
  entered : List NodeId
  text : String
  segment : Option Segment
  actions : List Offer
  stale : Bool
  finished : Bool
  deriving DecidableEq, Repr, Inhabited

inductive PlayError where
  | unknownNode (id : NodeId)
  | unknownAction (node : NodeId) (id : ActionId)
  | actionNotVisible (node : NodeId) (id : ActionId)
  | notAwaitingChoice (node : NodeId)
  | routingLoop (node : NodeId)
  deriving DecidableEq, Repr

namespace PlayError

def name : PlayError → String
  | .unknownNode _ => "UnknownNode"
  | .unknownAction _ _ => "UnknownAction"
  | .actionNotVisible _ _ => "ActionNotVisible"
  | .notAwaitingChoice _ => "NotAwaitingChoice"
  | .routingLoop _ => "RoutingLoop"

def message : PlayError → String
  | .unknownNode id => s!"Node '{id}' does not exist in the story"
  | .unknownAction node id => s!"Action '{id}' does not exist on node '{node}'"
  | .actionNotVisible node id => s!"Action '{id}' on node '{node}' is not visible in the current context"
  | .notAwaitingChoice node => s!"Node '{node}' is not waiting for a choice"
  | .routingLoop node => s!"Routing loop through text-less node '{node}'"

end PlayError

namespace State

def start (root : NodeId) (context : Context) : State := ⟨root, context, false, 0, none, 0, false⟩

def ticket (s : State) : Ticket := ⟨s.nodeId, s.revealIndex, s.visit⟩

end State

structure Logged (α : Type) where
  log : List Notice
  result : Except PlayError α

/- A move as it is under a filter. Whatever is told on the way goes through the filter where it is told. -/
structure Told (α : Type) where
  under : NoticeFilter → Logged α

namespace Told
variable {α β : Type}

def bind (x : Told α) (f : α → Told β) : Told β where
  under filter :=
    let first := x.under filter
    match first.result with
    | .error e => ⟨first.log, .error e⟩
    | .ok a =>
      let rest := (f a).under filter
      ⟨first.log ++ rest.log, rest.result⟩

instance : Monad Told where
  pure a := ⟨fun _ => ⟨[], .ok a⟩⟩
  bind := bind

def fail (e : PlayError) : Told α := ⟨fun _ => ⟨[], .error e⟩⟩

def tell (notices : List Notice) : Told Unit := ⟨fun filter => ⟨notices.filter filter.passes, .ok ()⟩⟩

def result (x : Told α) : Except PlayError α := (x.under .quiet).result

@[simp] theorem result_pure (a : α) : (pure a : Told α).result = .ok a := rfl

@[simp] theorem result_bind (x : Told α) (f : α → Told β) :
    (x >>= f).result = x.result.bind fun a => (f a).result := by
  show ((bind x f).under .quiet).result = _
  unfold bind result Except.bind
  dsimp only
  split <;> simp_all

@[simp] theorem result_fail (e : PlayError) : (fail e : Told α).result = .error e := rfl

@[simp] theorem result_tell (notices : List Notice) : (tell notices).result = .ok () := rfl

theorem bindOk {x : Told α} {f : α → Told β} {b : β} (ok : (x >>= f).result = .ok b) :
    ∃ a, x.result = .ok a ∧ (f a).result = .ok b := by
  rw [result_bind] at ok
  cases first : x.result with
  | error e => simp [first, Except.bind] at ok
  | ok a => exact ⟨a, rfl, by simpa [first, Except.bind] using ok⟩

theorem bindError {x : Told α} {f : α → Told β} {e : PlayError} (failed : (x >>= f).result = .error e) :
    x.result = .error e ∨ ∃ a, x.result = .ok a ∧ (f a).result = .error e := by
  rw [result_bind] at failed
  cases first : x.result with
  | error e' => exact .inl (by simpa [first, Except.bind] using failed)
  | ok a => exact .inr ⟨a, rfl, by simpa [first, Except.bind] using failed⟩

end Told
end Dialogue.Play
