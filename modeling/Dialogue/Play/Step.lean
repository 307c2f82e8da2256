import Dialogue.Play.Routing

/-! The moves of a play: its start, a ticket that comes back, and a choice. A move is a function from a state to the
next one with what to show; one that fails leaves the state to the caller. -/
namespace Dialogue.Play

def offers (story : Story) (state : State) : List Offer :=
  match story.node? state.nodeId with
  | some node => (node.visibleActions state.context).map fun a => ⟨a.id, a.label⟩
  | none => []

def revealedText (story : Story) (state : State) : String :=
  match story.node? state.nodeId with
  | some node => String.join ((node.texts.take (state.revealIndex + 1)).map (·.text))
  | none => ""

def liveSegment (story : Story) (state : State) : Option Segment := do
  let node ← story.node? state.nodeId
  node.texts[state.revealIndex]?

def describe (story : Story) (entered : List NodeId) (stale : Bool) (state : State) : Output where
  entered := entered
  text := revealedText story state
  segment := if state.awaitingChoice || state.finished then none else liveSegment story state
  actions := if state.awaitingChoice then offers story state else []
  stale := stale
  finished := state.finished

structure Moved where
  state : State
  entered : List NodeId
  stale : Bool
  deriving DecidableEq, Repr

def follow (story : Story) (state : State) (target : NodeId) : Told Moved := do
  let route ← advance story crossingLimit [] state target
  return ⟨route.state, route.entered, false⟩

def settle (story : Story) (node : StoryNode) (state : State) : Told Moved := do
  let (state, next) ← conclude node state
  match next with
  | some next => follow story state next
  | none => return ⟨state, [], false⟩

def reveal (story : Story) (state : State) (ticket : Ticket) : Told Moved :=
  if state.finished || state.awaitingChoice || ticket ≠ state.ticket then do
    .tell [.staleReveal ticket.nodeId ticket.segment ticket.visit]
    return ⟨state, [], true⟩
  else do
    let node ← lookUp story state.nodeId
    if state.revealIndex + 1 < node.texts.length then
      .tell [.segmentShown node.id (state.revealIndex + 1)]
      return ⟨{ state with revealIndex := state.revealIndex + 1 }, [], false⟩
    else settle story node state

def choose (story : Story) (state : State) (id : ActionId) : Told Moved :=
  if state.awaitingChoice then do
    let node ← lookUp story state.nodeId
    match node.action? id with
    | none => .fail (.unknownAction node.id id)
    | some action =>
      if action.visible state.context then
        .tell [.chosen action.label action.id node.id]
        let state ← applyEffects action.effects state
        let state := { state with awaitingChoice := false }
        match action.nextId with
        | some next => follow story state next
        | none => settle story node state
      else .fail (.actionNotVisible node.id id)
  else .fail (.notAwaitingChoice state.nodeId)

def move (story : Story) (state : State) : Event → Told Moved
  | .revealed ticket => reveal story state ticket
  | .select id => choose story state id

def shown (story : Story) (m : Moved) : State × Output := (m.state, describe story m.entered m.stale m.state)

def start (story : Story) (context : Context) : Told (State × Output) := do
  .tell [.starting story.rootId]
  let m ← follow story (.start story.rootId context) story.rootId
  return shown story m

def step (story : Story) (state : State) (event : Event) : Told (State × Output) := do
  return shown story (← move story state event)

structure Snapshot where
  nodeId : NodeId
  revealIndex : Nat
  segments : Nat
  context : Context
  awaitingChoice : Bool
  visibleActions : List String
  nextId : Option NodeId
  deriving DecidableEq, Repr

def Snapshot.capture (story : Story) (state : State) : Snapshot where
  nodeId := state.nodeId
  revealIndex := state.revealIndex
  segments := ((story.node? state.nodeId).map (·.texts.length)).getD 0
  context := state.context
  awaitingChoice := state.awaitingChoice
  visibleActions := (offers story state).map (·.label)
  nextId := state.nextId

end Dialogue.Play
