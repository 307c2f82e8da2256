import Dialogue.Workshop.Draft

/-! Chains of nodes. A chain is followed from a node along successors or predecessors until it ends or comes to a node
a second time. Everything that walks a chain takes it from `trail`. -/
namespace Dialogue

structure Trail where
  nodes : List Nat
  reentry : Option Nat
  deriving DecidableEq, Repr

/- The rest of a chain behind the nodes already met. The fuel bounds how many nodes can still be new. -/
def trailAfter (step : Nat → Option Nat) : Nat → List Nat → Nat → Trail
  | 0, met, _ => ⟨met, none⟩
  | fuel + 1, met, current =>
    if current ∈ met then ⟨met, some current⟩
    else
      match step current with
      | none => ⟨met ++ [current], none⟩
      | some next => trailAfter step fuel (met ++ [current]) next

namespace Trail

def stop (t : Trail) (start : Nat) : Nat :=
  match t.reentry with
  | some key => key
  | none => t.nodes.getLast?.getD start

end Trail

namespace Draft

def trail (d : Draft) (step : Nat → Option Nat) (start : Nat) : Trail :=
  trailAfter step (d.nodes.size + 1) [] start

def successors (d : Draft) (start : Nat) : Trail := d.trail (fun key => (d.node key).next) start

def predecessors (d : Draft) (start : Nat) : Trail := d.trail (fun key => (d.node key).prev) start

def head (d : Draft) (start : Nat) : Nat := (d.predecessors start).stop start

def tail (d : Draft) (start : Nat) : Nat := (d.successors start).stop start

def tailBefore? (d : Draft) (start goal : Nat) : Option Nat :=
  let t := d.successors start
  if goal ∈ t.nodes then none else some (t.stop start)

def freezeAll (d : Draft) (keys : List Nat) : Draft :=
  keys.foldl (fun d key => d.changeNode key fun n => { n with frozen := true }) d

def freezeChain (d : Draft) (start : Nat) : Draft := d.freezeAll (d.successors start).nodes

def cloneName (name : String) : String :=
  if "clone_".toList.isPrefixOf name.toList then name else "clone_" ++ name

/- A copy of one node, without its successor, behind the copy `before` or else where the original stands. Texts,
rules and effects are copied and actions are shared. Outside a build pass the links pending on the node
wait on the copy as well. -/
def cloneNode (d : Draft) (source : Nat) (before : Option Nat) : Draft × Nat × List Notice :=
  let original := d.node source
  let (d, copy) := d.addNode (cloneName original.name)
  let d := d.changeNode copy fun n =>
    { n with
      texts := original.texts, rules := original.rules, effects := original.effects, actions := original.actions,
      prev := before <|> original.prev, template := some source }
  let inherited :=
    if d.resolving then []
    else (d.pending.filter fun link => link.node? == some source).map (·.retarget copy)
  let id := (d.node copy).id
  let notices := if inherited.isEmpty then [] else [.inherited id inherited.length]
  ({ d with clones := d.clones ++ [(source, copy)], pending := d.pending ++ inherited }, copy,
    notices ++ [.cloned original.id id])

def cloneNodes (d : Draft) (before : Option Nat) : List Nat → Draft × List Nat × List Notice
  | [] => (d, [], [])
  | source :: rest =>
    let (d, copy, notices) := d.cloneNode source before
    let (d, copies, more) := cloneNodes d (some copy) rest
    (d, copy :: copies, notices ++ more)

def linkInOrder (d : Draft) : List Nat → Draft
  | first :: second :: rest => linkInOrder (d.changeNode first fun n => { n with next := some second }) (second :: rest)
  | _ => d

def cloneChain (d : Draft) (start : Nat) : Draft × Nat × List Notice :=
  let t := d.successors start
  let (d, copies, notices) := d.cloneNodes none t.nodes
  let copyOf := fun key => (t.nodes.zip copies).find? (·.1 == key) |>.map (·.2)
  let closing := (t.reentry.bind copyOf).toList
  (d.linkInOrder (copies ++ closing), copies.headD start, notices)

end Draft
end Dialogue
