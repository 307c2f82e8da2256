import Dialogue.Workshop.Authoring
import Dialogue.Workshop.Compile

/-! What can be seen of a draft: its nodes and actions with ids in place of numbers, and all of them that hang
together with given ones. -/
namespace Dialogue

structure NodeView where
  id : NodeId
  name : String
  texts : List Segment
  next : Option NodeId
  prev : Option NodeId
  rules : List BranchRule
  effects : List Effect
  actions : List ActionId
  frozen : Bool
  template : Option NodeId
  deriving DecidableEq, Repr

structure ActionView where
  id : ActionId
  label : String
  texts : List Segment
  requirements : Table Check
  alternatives : Table Check
  effects : List Effect
  next : Option NodeId
  parent : Option NodeId
  frozen : Bool
  deriving DecidableEq, Repr

namespace Draft

def viewNode (d : Draft) (key : Nat) : NodeView :=
  let n := d.node key
  { id := n.id, name := n.name, texts := n.texts, next := d.idOf n.next, prev := d.idOf n.prev
    rules := n.rules.map d.ruleOf, effects := n.effects, actions := n.actions.map fun a => (d.action a).id
    frozen := n.frozen, template := d.idOf n.template }

def viewAction (d : Draft) (key : Nat) : ActionView :=
  let a := d.action key
  { id := a.id, label := a.label, texts := a.texts, requirements := a.requirements
    alternatives := a.alternatives, effects := a.effects, next := d.idOf a.next, parent := d.idOf a.parent
    frozen := a.frozen }

end Draft

inductive Vertex where
  | node (n : NodeRef)
  | action (a : ActionRef)
  deriving DecidableEq, Repr

namespace Workshop

def draftAt (w : Workshop) (i : Nat) : Draft := w.drafts[i]?.getD default

def nodeViews (w : Workshop) (vertices : List Vertex) : List NodeView :=
  (vertices.filterMap fun v =>
    match v with
    | .node n => some ((w.draftAt n.draft).viewNode n.key)
    | .action _ => none).mergeSort fun a b => decide (a.id ≤ b.id)

def actionViews (w : Workshop) (vertices : List Vertex) : List ActionView :=
  (vertices.filterMap fun v =>
    match v with
    | .node _ => none
    | .action a => some ((w.draftAt a.draft).viewAction a.key)).mergeSort fun a b => decide (a.id ≤ b.id)

def linked (w : Workshop) : Vertex → List Vertex
  | .node n =>
    let r := (w.draftAt n.draft).node n.key
    (r.next.toList ++ r.prev.toList ++ r.template.toList ++ r.rules.map (·.target)).map (.node ⟨n.draft, ·⟩) ++
      r.actions.map (.action ⟨n.draft, ·⟩)
  | .action a =>
    let r := (w.draftAt a.draft).action a.key
    (r.next.toList ++ r.parent.toList).map (.node ⟨a.draft, ·⟩)

def reachedAfter (w : Workshop) : Nat → List Vertex → List Vertex → List Vertex
  | 0, _, met | _, [], met => met
  | fuel + 1, v :: stack, met =>
    if v ∈ met then reachedAfter w fuel stack met else reachedAfter w fuel (w.linked v ++ stack) (v :: met)

def references (w : Workshop) : Nat :=
  w.drafts.foldl (fun sum d => d.nodes.foldl (fun sum n => sum + (4 + n.rules.length + n.actions.length)) sum +
    3 * d.actions.size) 0

def reached (w : Workshop) (start : List Vertex) : List Vertex :=
  w.reachedAfter (start.length + w.references + 1) start []

end Workshop
end Dialogue
