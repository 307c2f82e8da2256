import Dialogue.Story.Basic
import Dialogue.Json.Printer

/-! Closed tables. A table is closed when its root and every id that a node refers to are in it, and every node stands
under its own id. The first fault is found in the byte order of the ids, and within a node in the order successor,
rules, actions. -/
namespace Dialogue

inductive Origin where
  | successor (node : NodeId)
  | rule (node : NodeId) (condition : Condition)
  | action (node : NodeId) (id : ActionId)
  deriving DecidableEq, Repr

inductive CompileError where
  | danglingReference (target : NodeId) (origin : Origin)
  | missingRoot (root : NodeId)
  | duplicateNodeId (id : NodeId)
  deriving DecidableEq, Repr

def Origin.message : Origin → String
  | .successor node => s!"successor of node '{node}'"
  | .rule node c => s!"branch rule '{c.key} {c.check.op.token} {c.check.value.toLine}' of node '{node}'"
  | .action node id => s!"action '{id}' of node '{node}'"

namespace CompileError

def name : CompileError → String
  | .danglingReference _ _ => "DanglingReference"
  | .missingRoot _ => "MissingRoot"
  | .duplicateNodeId _ => "DuplicateNodeId"

def message : CompileError → String
  | .danglingReference target origin => s!"Reference to unknown node '{target}' from {origin.message}"
  | .missingRoot root => s!"Root node '{root}' is not part of the story"
  | .duplicateNodeId id => s!"Node id '{id}' is used by more than one node"

end CompileError

namespace StoryNode

def references (n : StoryNode) : List (NodeId × Origin) :=
  (n.nextId.toList.map fun target => (target, .successor n.id)) ++
  (n.rules.map fun rule => (rule.targetId, .rule n.id rule.condition)) ++
  (n.actions.flatMap fun a => a.nextId.toList.map fun target => (target, .action n.id a.id))

end StoryNode

namespace Story

def entryFault (s : Story) (key : NodeId) (n : StoryNode) : Option CompileError :=
  if key ≠ n.id then some (.duplicateNodeId n.id)
  else
    (n.references.find? fun r => !s.nodes.contains r.1).map fun r => .danglingReference r.1 r.2

def fault? (s : Story) : Option CompileError :=
  if s.nodes.contains s.rootId then s.nodes.entries.findSome? fun e => s.entryFault e.1 e.2
  else some (.missingRoot s.rootId)

def validate (s : Story) : Except CompileError Unit :=
  match s.fault? with
  | some fault => .error fault
  | none => .ok ()

structure Closed (s : Story) : Prop where
  root : s.nodes.contains s.rootId
  keyed : ∀ e ∈ s.nodes.entries, e.1 = e.2.id
  resolved : ∀ e ∈ s.nodes.entries, ∀ r ∈ e.2.references, s.nodes.contains r.1

end Story
end Dialogue
