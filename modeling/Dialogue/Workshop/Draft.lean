import Dialogue.Workshop.Script
import Dialogue.Workshop.Error

/-! A draft: one story under construction. Its nodes and actions are numbered in the order of their making and refer
to one another by number. Both take their ids from one count, so no id is given twice. -/
namespace Dialogue

structure DraftRule where
  condition : Condition
  target : Nat
  deriving DecidableEq, Repr, Inhabited

structure DraftNode where
  id : NodeId
  name : String
  texts : List Segment := []
  next : Option Nat := none
  prev : Option Nat := none
  rules : List DraftRule := []
  effects : List Effect := []
  actions : List Nat := []
  frozen : Bool := false
  template : Option Nat := none
  deriving DecidableEq, Repr, Inhabited

structure DraftAction where
  id : ActionId
  label : String
  texts : List Segment := []
  requirements : Table Check := .empty
  alternatives : Table Check := .empty
  effects : List Effect := []
  next : Option Nat := none
  parent : Option Nat := none
  frozen : Bool := false
  deriving DecidableEq, Repr, Inhabited

namespace DraftAction

def predicate (a : DraftAction) : Predicate := ⟨a.requirements, a.alternatives⟩

end DraftAction

/- A link whose target a script finds in the build pass. The script of a rule is called on a clone of its node, that
of an action's successor on the action's parent; the others are called on what they wait on. -/
inductive Deferred where
  | successor (node : Nat) (script : Script)
  | branch (node : Nat) (condition : Condition) (script : Script)
  | returns (node : Nat) (script : Script)
  | actionBuild (action : Nat) (script : Script)
  | actionSuccessor (action : Nat) (script : Script)

namespace Deferred

def node? : Deferred → Option Nat
  | .successor n _ | .branch n _ _ | .returns n _ => some n
  | .actionBuild _ _ | .actionSuccessor _ _ => none

def retarget (copy : Nat) : Deferred → Deferred
  | .successor _ script => .successor copy script
  | .branch _ condition script => .branch copy condition script
  | .returns _ script => .returns copy script
  | .actionBuild action script => .actionBuild action script
  | .actionSuccessor action script => .actionSuccessor action script

def kind : Deferred → String
  | .successor _ _ => "successor"
  | .branch _ _ _ => "branch"
  | .returns _ _ => "returns"
  | .actionBuild _ _ => "action"
  | .actionSuccessor _ _ => "action successor"

end Deferred

structure Draft where
  config : Config := {}
  nodes : Array DraftNode := #[]
  actions : Array DraftAction := #[]
  names : Table Nat := .empty
  /- The links that wait for the build pass, oldest first. -/
  pending : List Deferred := []
  /- Every clone with the node it was made from, oldest first. -/
  clones : List (Nat × Nat) := []
  resolving : Bool := false
  count : Nat := 0

namespace Draft

instance : Inhabited Draft := ⟨{}⟩

def node (d : Draft) (key : Nat) : DraftNode := d.nodes[key]?.getD default

def action (d : Draft) (key : Nat) : DraftAction := d.actions[key]?.getD default

def changeNode (d : Draft) (key : Nat) (f : DraftNode → DraftNode) : Draft :=
  { d with nodes := d.nodes.modify key f }

def changeAction (d : Draft) (key : Nat) (f : DraftAction → DraftAction) : Draft :=
  { d with actions := d.actions.modify key f }

def numbered (name : String) (count : Nat) : String :=
  let digits := Nat.toDigits 10 count
  name ++ "_" ++ String.ofList (List.replicate (4 - digits.length) '0' ++ digits)

def addNode (d : Draft) (name : String) : Draft × Nat :=
  let count := d.count + 1
  ({ d with nodes := d.nodes.push { id := numbered name count, name }, count }, d.nodes.size)

def addAction (d : Draft) (label : String) : Draft × Nat :=
  let count := d.count + 1
  ({ d with actions := d.actions.push { id := numbered "choice" count, label }, count }, d.actions.size)

def register (d : Draft) (name : String) (key : Nat) : Draft × List Notice :=
  match d.names.get? name with
  | some holder => (d, [.nameTaken name (d.node holder).id (d.node key).id])
  | none => ({ d with names := d.names.insert name key }, [])

def clonesOf (d : Draft) (key : Nat) : List Nat := (d.clones.filter (·.1 == key)).map (·.2)

def deferredOn (d : Draft) : Deferred → String
  | .successor n _ | .branch n _ _ | .returns n _ => (d.node n).id
  | .actionBuild a _ | .actionSuccessor a _ => (d.action a).id

end Draft
end Dialogue
