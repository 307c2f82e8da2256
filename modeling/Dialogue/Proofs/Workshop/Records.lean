import Dialogue.Workshop.Chain

/-! What the operations of a draft do to its records: each one to the record it names, and all others stay. -/
namespace Dialogue.Draft
variable (d : Draft) (key k : Nat)

@[simp] theorem nodesAddNode (name : String) : (d.addNode name).1.nodes.size = d.nodes.size + 1 := by
  simp [addNode]

theorem nodeAddNode (name : String) : (d.addNode name).1.node k =
    if k = d.nodes.size then { id := numbered name (d.count + 1), name } else d.node k := by
  simp only [addNode, node, Array.getElem?_push]
  split <;> rfl

@[simp] theorem nodesRegister (name : String) : (d.register name key).1.nodes = d.nodes := by
  unfold register
  split <;> rfl

@[simp] theorem actionsRegister (name : String) : (d.register name key).1.actions = d.actions := by
  unfold register
  split <;> rfl

@[simp] theorem actionsAddAction (label : String) : (d.addAction label).1.actions.size = d.actions.size + 1 := by
  simp [addAction]

theorem actionAddAction (label : String) : (d.addAction label).1.action k =
    if k = d.actions.size then { id := numbered "choice" (d.count + 1), label } else d.action k := by
  simp only [addAction, action, Array.getElem?_push]
  split <;> rfl

@[simp] theorem nodesChangeNode (f : DraftNode → DraftNode) : (d.changeNode key f).nodes.size = d.nodes.size := by
  simp [changeNode]

theorem nodeChangeNode (f : DraftNode → DraftNode) : (d.changeNode key f).node k =
    if k = key ∧ key < d.nodes.size then f (d.node k) else d.node k := by
  simp only [changeNode, node, Array.getElem?_modify]
  by_cases same : key = k
  · subst same
    by_cases inside : key < d.nodes.size
    · simp [inside]
    · simp [inside]
  · simp [same, Ne.symm same]

@[simp] theorem actionsChangeAction (f : DraftAction → DraftAction) :
    (d.changeAction key f).actions.size = d.actions.size := by
  simp [changeAction]

theorem actionChangeAction (f : DraftAction → DraftAction) : (d.changeAction key f).action k =
    if k = key ∧ key < d.actions.size then f (d.action k) else d.action k := by
  simp only [changeAction, action, Array.getElem?_modify]
  by_cases same : key = k
  · subst same
    by_cases inside : key < d.actions.size
    · simp [inside]
    · simp [inside]
  · simp [same, Ne.symm same]

@[simp] theorem actionChangeNode (f : DraftNode → DraftNode) : (d.changeNode key f).action k = d.action k := rfl

@[simp] theorem nodeChangeAction (f : DraftAction → DraftAction) : (d.changeAction key f).node k = d.node k := rfl

theorem nodeOutside (outside : d.nodes.size ≤ k) : d.node k = default := by
  simp [node, outside]

theorem actionOutside (outside : d.actions.size ≤ k) : d.action k = default := by
  simp [action, outside]

variable (source : Nat) (before : Option Nat)

@[simp] theorem nodesCloneNode : (d.cloneNode source before).1.nodes.size = d.nodes.size + 1 := by
  simp [cloneNode]

theorem nodeCloneNode : (d.cloneNode source before).1.node k =
    if k = d.nodes.size then
      { id := numbered (cloneName (d.node source).name) (d.count + 1)
        name := cloneName (d.node source).name
        texts := (d.node source).texts
        prev := before <|> (d.node source).prev
        rules := (d.node source).rules
        effects := (d.node source).effects
        actions := (d.node source).actions
        template := some source }
    else d.node k := by
  have changed := nodeChangeNode (d.addNode (cloneName (d.node source).name)).1 d.nodes.size k fun n =>
    { n with
      texts := (d.node source).texts, rules := (d.node source).rules, effects := (d.node source).effects,
      actions := (d.node source).actions, prev := before <|> (d.node source).prev, template := some source }
  simp only [nodesAddNode, Nat.lt_add_one, and_true, nodeAddNode] at changed
  refine Eq.trans changed ?_
  split <;> rfl

def inherited : List Deferred :=
  if d.resolving then []
  else (d.pending.filter fun link => link.node? == some source).map (·.retarget d.nodes.size)

@[simp] theorem actionsCloneNode : (d.cloneNode source before).1.actions = d.actions := rfl

theorem pendingCloneNode : (d.cloneNode source before).1.pending = d.pending ++ d.inherited source := rfl

theorem clonesCloneNode : (d.cloneNode source before).1.clones = d.clones ++ [(source, d.nodes.size)] := rfl

end Dialogue.Draft
