import Dialogue.Workshop.Draft
import Dialogue.Story.Saved

/-! Drafts as stories. The table has an entry for every node that can be reached from the root along successors, rules
and the successors of attached actions, and one more for every attached action with text, which shows the text before
it goes on where the action leads. -/
namespace Dialogue.Draft

def neighbours (d : Draft) (key : Nat) : List Nat :=
  let n := d.node key
  n.rules.map (·.target) ++ n.actions.filterMap (fun a => (d.action a).next) ++ n.next.toList

def push (stack seen : List Nat) (keys : List Nat) : List Nat × List Nat :=
  keys.foldr (fun key s => if key ∈ s.2 then s else (key :: s.1, key :: s.2)) (stack, seen)

def reachAfter (d : Draft) : Nat → List Nat → List Nat → List Nat
  | 0, _, _ | _, [], _ => []
  | fuel + 1, key :: stack, seen =>
    let (stack, seen) := push stack seen (d.neighbours key)
    key :: reachAfter d fuel stack seen

def reach (d : Draft) (root : Nat) : List Nat := d.reachAfter d.nodes.size [root] [root]

def ruleOf (d : Draft) (r : DraftRule) : BranchRule := ⟨r.condition, (d.node r.target).id⟩

def idOf (d : Draft) (key : Option Nat) : Option NodeId := key.map fun k => (d.node k).id

def actionOf (d : Draft) (key : Nat) : StoryAction :=
  let a := d.action key
  { id := a.id
    label := a.label
    predicate := if a.predicate.isEmpty then none else some a.predicate
    effects := a.effects
    nextId := if a.texts.isEmpty then d.idOf a.next else some (StoryAction.textNodeId a.id) }

def textNodeOf (d : Draft) (key : Nat) : StoryNode :=
  let a := d.action key
  { id := StoryAction.textNodeId a.id
    texts := a.texts
    nextId := d.idOf a.next
    rules := []
    effects := []
    actions := [] }

def nodeOf (d : Draft) (key : Nat) : StoryNode :=
  let n := d.node key
  { id := n.id
    texts := n.texts
    nextId := d.idOf n.next
    rules := n.rules.map d.ruleOf
    effects := n.effects
    actions := n.actions.map d.actionOf }

def withText (d : Draft) (shown keys : List Nat) : List Nat :=
  keys.foldl (fun new key => if (d.action key).texts.isEmpty || key ∈ shown || key ∈ new then new else new ++ [key]) []

def entriesOf (d : Draft) (shown : List Nat) : List Nat → List StoryNode
  | [] => []
  | key :: rest =>
    let new := d.withText shown (d.node key).actions
    new.map d.textNodeOf ++ d.nodeOf key :: entriesOf d (shown ++ new) rest

structure Compiled where
  notices : List Notice
  result : Except CompileError Story

def collect (done : Table StoryNode) : List StoryNode → List Notice × Except CompileError (Table StoryNode)
  | [] => ([], .ok done)
  | n :: rest =>
    if done.contains n.id then ([], .error (.duplicateNodeId n.id))
    else
      let (notices, result) := collect (done.insert n.id n) rest
      (.emitted n.id :: notices, result)

def compile (d : Draft) (root : Nat) : Compiled :=
  let (notices, result) := collect .empty (d.entriesOf [] (d.reach root))
  match result with
  | .error e => ⟨notices, .error e⟩
  | .ok nodes =>
    let story : Story := ⟨(d.node root).id, nodes⟩
    match story.validate with
    | .error e => ⟨notices, .error e⟩
    | .ok () => ⟨notices ++ [.compiled nodes.size story.rootId story.digest], .ok story⟩

end Dialogue.Draft
