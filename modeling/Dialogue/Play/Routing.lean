import Dialogue.Play.Basic

/-! Entering nodes. `hop` enters one and leaves it again if it has no text, no actions on offer and a successor;
`advance` goes on until a node stops it. It gives up where it crosses a node in a context in which it has crossed that
node before, since from there it would go round for ever, and after a fixed number of crossings. -/
namespace Dialogue.Play

def crossingLimit : Nat := 10000

def lookUp (story : Story) (id : NodeId) : Told StoryNode :=
  match story.node? id with
  | some node => pure node
  | none => .fail (.unknownNode id)

def effectNotices (effects : List Effect) (context : Context) : List Notice :=
  if effects.isEmpty then []
  else (Effect.trace effects context).map (fun e => .effectDone e.1 e.2) ++
    [.effectsDone effects.length (Effect.applyAll effects context)]

def applyEffects (effects : List Effect) (state : State) : Told State := do
  .tell (effectNotices effects state.context)
  return { state with context := Effect.applyAll effects state.context }

def arrive (node : StoryNode) (state : State) : State :=
  { state with
    nodeId := node.id, visit := state.visit + 1, revealIndex := 0, awaitingChoice := false, finished := false }

def ruleNotices (node : StoryNode) (context : Context) : List Notice :=
  match BranchRule.choose node.rules context with
  | some target => [.branched node.id target]
  | none => []

def enter (story : Story) (state : State) (target : NodeId) : Told (StoryNode × State) := do
  let node ← lookUp story target
  let state := arrive node state
  .tell [.entered node.id state.visit]
  let state ← applyEffects node.effects state
  .tell (ruleNotices node state.context)
  return (node, { state with nextId := node.successor state.context })

def conclude (node : StoryNode) (state : State) : Told (State × Option NodeId) :=
  if (node.visibleActions state.context).isEmpty then
    match state.nextId with
    | some next => pure (state, some next)
    | none => do
      .tell [.finished node.id]
      return ({ state with finished := true }, none)
  else do
    .tell [.awaiting node.id]
    return ({ state with awaitingChoice := true }, none)

def hop (story : Story) (state : State) (target : NodeId) : Told (StoryNode × State × Option NodeId) := do
  let (node, state) ← enter story state target
  if node.isRouting then
    let (state, next) ← conclude node state
    return (node, state, next)
  else return (node, state, none)

structure Route where
  state : State
  entered : List NodeId
  deriving DecidableEq, Repr

abbrev Crossed := List (NodeId × Context)

def Crossed.has (crossed : Crossed) (target : NodeId) (context : Context) : Bool :=
  crossed.any fun c => c.1 == target && c.2.same context

def advance (story : Story) : Nat → Crossed → State → NodeId → Told Route
  | 0, _, state, target => do
    let (node, state, next) ← hop story state target
    match next with
    | none => return ⟨state, [node.id]⟩
    | some _ => .fail (.routingLoop target)
  | limit + 1, crossed, state, target => do
    let (node, state, next) ← hop story state target
    match next with
    | none => return ⟨state, [node.id]⟩
    | some next =>
      if crossed.has target state.context then .fail (.routingLoop target)
      else
        let route ← advance story limit ((target, state.context) :: crossed) state next
        return ⟨route.state, node.id :: route.entered⟩

end Dialogue.Play
