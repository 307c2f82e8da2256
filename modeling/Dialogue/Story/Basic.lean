import Dialogue.Condition
import Dialogue.Effect
import Dialogue.Pacing

/-! Stories as they are played: a table of nodes and the id of the one to begin with. -/
namespace Dialogue

structure StoryAction where
  id : ActionId
  label : String
  predicate : Option Predicate
  effects : List Effect
  nextId : Option NodeId
  deriving DecidableEq, Repr, Inhabited

structure StoryNode where
  id : NodeId
  texts : List Segment
  nextId : Option NodeId
  rules : List BranchRule
  effects : List Effect
  actions : List StoryAction
  deriving DecidableEq, Repr, Inhabited

structure Story where
  rootId : NodeId
  nodes : Table StoryNode
  deriving DecidableEq, Repr, Inhabited

namespace StoryAction

def textNodeId (id : ActionId) : NodeId := "btn_" ++ id

def visible (a : StoryAction) (context : Context) : Bool :=
  match a.predicate with
  | some p => p.satisfied context
  | none => true

end StoryAction

namespace StoryNode

def isRouting (n : StoryNode) : Bool := n.texts.isEmpty

def action? (n : StoryNode) (id : ActionId) : Option StoryAction := n.actions.find? (·.id == id)

def visibleActions (n : StoryNode) (context : Context) : List StoryAction :=
  n.actions.filter (·.visible context)

def successor (n : StoryNode) (context : Context) : Option NodeId :=
  BranchRule.choose n.rules context <|> n.nextId

end StoryNode

namespace Story

def node? (s : Story) (id : NodeId) : Option StoryNode := s.nodes.get? id

end Story
end Dialogue
