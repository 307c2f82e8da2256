import Dialogue.Proofs.Workshop.Trails

/-! Copies of chains. They are new nodes, numbered in the order of the chain, and none of them is frozen. What was
there before they were made is as it was. -/
namespace Dialogue.Draft
variable {d d' d'' : Draft} {before : Option Nat} {sources keys : List Nat} {start k : Nat}

structure Extends (d d' : Draft) : Prop where
  nodes : d.nodes.size ≤ d'.nodes.size
  node : ∀ k < d.nodes.size, d'.node k = d.node k
  actions : d.actions.size ≤ d'.actions.size
  action : ∀ a < d.actions.size, d'.action a = d.action a

namespace Extends

theorem same (nodes : d'.nodes = d.nodes) (actions : d'.actions = d.actions) : d.Extends d' where
  nodes := Nat.le_of_eq (by rw [nodes])
  node := fun k _ => by simp [Draft.node, nodes]
  actions := Nat.le_of_eq (by rw [actions])
  action := fun a _ => by simp [Draft.action, actions]

theorem refl (d : Draft) : d.Extends d := .same rfl rfl

theorem trans (first : d.Extends d') (second : d'.Extends d'') : d.Extends d'' where
  nodes := Nat.le_trans first.nodes second.nodes
  node := fun k old => (second.node k (Nat.lt_of_lt_of_le old first.nodes)).trans (first.node k old)
  actions := Nat.le_trans first.actions second.actions
  action := fun a old => (second.action a (Nat.lt_of_lt_of_le old first.actions)).trans (first.action a old)

theorem addNode (d : Draft) (name : String) : d.Extends (d.addNode name).1 where
  nodes := by simp
  node := fun k old => by rw [nodeAddNode, if_neg (Nat.ne_of_lt old)]
  actions := Nat.le_refl _
  action := fun _ _ => rfl

theorem addAction (d : Draft) (label : String) : d.Extends (d.addAction label).1 where
  nodes := Nat.le_refl _
  node := fun _ _ => rfl
  actions := by simp
  action := fun a old => by rw [actionAddAction, if_neg (Nat.ne_of_lt old)]

theorem register (d : Draft) (name : String) (key : Nat) : d.Extends (d.register name key).1 :=
  .same (nodesRegister d key name) (actionsRegister d key name)

theorem cloneNode (d : Draft) (source : Nat) (before : Option Nat) : d.Extends (d.cloneNode source before).1 where
  nodes := by simp
  node := fun k old => by rw [nodeCloneNode, if_neg (Nat.ne_of_lt old)]
  actions := Nat.le_refl _
  action := fun _ _ => rfl

theorem cloneNodes (d : Draft) (before : Option Nat) (sources : List Nat) :
    d.Extends (d.cloneNodes before sources).1 := by
  induction sources generalizing d before with
  | nil => exact .refl d
  | cons source rest ih => exact (cloneNode d source before).trans (ih _ _)

theorem successors (more : d.Extends d') (bound : d.Bound) (here : start < d.nodes.size) :
    d'.successors start = d.successors start := by
  have walks := d.successorsWalk start
  have walks' := d'.successorsWalk start
  refine walks'.unique (walks.congr fun k mem => ?_)
  rw [more.node k ((bound.successors here).nodes k mem)]

end Extends

theorem copiesNumbered (d : Draft) (before : Option Nat) (sources : List Nat) :
    (d.cloneNodes before sources).2.1 = List.range' d.nodes.size sources.length := by
  induction sources generalizing d before with
  | nil => rfl
  | cons source rest ih =>
    have unfolded : (d.cloneNodes before (source :: rest)).2.1 =
        d.nodes.size :: ((d.cloneNode source before).1.cloneNodes (some d.nodes.size) rest).2.1 := rfl
    rw [unfolded, ih, nodesCloneNode, List.length_cons, List.range'_succ]

theorem copiesFresh (d : Draft) (before : Option Nat) (sources : List Nat) (new : d.nodes.size ≤ k) :
    ((d.cloneNodes before sources).1.node k).frozen = false ∧
    ((d.cloneNodes before sources).1.node k).next = none := by
  induction sources generalizing d before with
  | nil =>
    have blank : (d.cloneNodes before []).1.node k = default := nodeOutside d k new
    rw [blank]
    exact ⟨rfl, rfl⟩
  | cons source rest ih =>
    have unfolded : (d.cloneNodes before (source :: rest)).1 =
        ((d.cloneNode source before).1.cloneNodes (some d.nodes.size) rest).1 := rfl
    rw [unfolded]
    rcases Nat.lt_or_ge d.nodes.size k with later | first
    · exact ih _ _ (by rw [nodesCloneNode]; omega)
    · have here : k < (d.cloneNode source before).1.nodes.size := by rw [nodesCloneNode]; omega
      rw [(Extends.cloneNodes _ _ rest).node k here, nodeCloneNode, if_pos (by omega)]
      exact ⟨rfl, rfl⟩

theorem nodeLinkInOrder (d : Draft) (keys : List Nat) (k : Nat) :
    ∃ next, (d.linkInOrder keys).node k = { d.node k with next } := by
  induction keys generalizing d with
  | nil => exact ⟨_, rfl⟩
  | cons first rest ih =>
    cases rest with
    | nil => exact ⟨_, rfl⟩
    | cons second rest =>
      obtain ⟨next, same⟩ := ih (d.changeNode first fun n => { n with next := some second })
      refine ⟨next, same.trans ?_⟩
      rw [nodeChangeNode]
      split <;> rfl

theorem linkInOrderApart (apart : k ∉ keys.dropLast) : (d.linkInOrder keys).node k = d.node k := by
  induction keys generalizing d with
  | nil => rfl
  | cons first rest ih =>
    cases rest with
    | nil => rfl
    | cons second rest =>
      rw [List.dropLast_cons_cons] at apart
      obtain ⟨notFirst, later⟩ := not_or.mp fun either => apart (List.mem_cons.mpr either)
      exact (ih later).trans ((nodeChangeNode _ _ _ _).trans (if_neg fun same => notFirst same.1))

theorem nextLinkInOrder {next : Nat} (leads : ((d.linkInOrder keys).node k).next = some next) :
    next ∈ keys ∨ (d.node k).next = some next := by
  induction keys generalizing d with
  | nil => exact .inr leads
  | cons first rest ih =>
    cases rest with
    | nil => exact .inr leads
    | cons second rest =>
      rcases ih leads with later | before
      · exact .inl (List.mem_cons_of_mem _ later)
      · rw [nodeChangeNode] at before
        split at before
        · cases Option.some.inj before
          exact .inl (by simp)
        · exact .inr before

theorem sizeLinkInOrder (d : Draft) (keys : List Nat) :
    (d.linkInOrder keys).nodes.size = d.nodes.size ∧ (d.linkInOrder keys).actions = d.actions := by
  induction keys generalizing d with
  | nil => exact ⟨rfl, rfl⟩
  | cons first rest ih =>
    cases rest with
    | nil => exact ⟨rfl, rfl⟩
    | cons second rest =>
      obtain ⟨nodes, actions⟩ := ih (d.changeNode first fun n => { n with next := some second })
      exact ⟨nodes.trans (nodesChangeNode d first _), actions⟩

def closing (d : Draft) (start : Nat) : List Nat :=
  let t := d.successors start
  (t.reentry.bind fun key =>
    ((t.nodes.zip (d.cloneNodes none t.nodes).2.1).find? (·.1 == key)).map (·.2)).toList

theorem cloneChainUnfolded (d : Draft) (start : Nat) : (d.cloneChain start).1 =
    (d.cloneNodes none (d.successors start).nodes).1.linkInOrder
      (List.range' d.nodes.size (d.successors start).nodes.length ++ d.closing start) := by
  rw [← copiesNumbered d none]
  rfl

theorem closingShort (d : Draft) (start : Nat) : (d.closing start).length ≤ 1 := by
  rw [closing, Option.length_toList]
  split <;> simp

theorem closingCopies {copy : Nat} (mem : copy ∈ d.closing start) : d.nodes.size ≤ copy := by
  obtain ⟨again, _, found⟩ := Option.bind_eq_some_iff.mp (Option.mem_toList.mp mem)
  obtain ⟨pair, first, rfl⟩ := Option.map_eq_some_iff.mp found
  have among := (List.of_mem_zip (List.mem_of_find?_eq_some first)).2
  rw [copiesNumbered] at among
  exact (List.mem_range'_1.mp among).1

theorem dropLastClosing {l end' : List Nat} (short : end'.length ≤ 1) (mem : k ∈ (l ++ end').dropLast) : k ∈ l := by
  match end' with
  | [] => exact (List.dropLast_sublist l).subset (by simpa using mem)
  | [_] => simpa using mem

theorem cloneChainExtends (d : Draft) (start : Nat) : d.Extends (d.cloneChain start).1 := by
  have copied := Extends.cloneNodes d none (d.successors start).nodes
  rw [cloneChainUnfolded]
  obtain ⟨nodes, actions⟩ := sizeLinkInOrder (d.cloneNodes none (d.successors start).nodes).1
    (List.range' d.nodes.size (d.successors start).nodes.length ++ d.closing start)
  refine ⟨nodes ▸ copied.nodes, fun k old => ?_, by rw [actions]; exact copied.actions, fun a old => ?_⟩
  · rw [linkInOrderApart, copied.node k old]
    intro mem
    have new := List.mem_range'_1.mp (dropLastClosing (closingShort d start) mem)
    omega
  · rw [action, actions]
    exact copied.action a old

theorem cloneChainUnfrozen (d : Draft) (start : Nat) (new : d.nodes.size ≤ k) :
    ((d.cloneChain start).1.node k).frozen = false := by
  rw [cloneChainUnfolded]
  obtain ⟨next, same⟩ := nodeLinkInOrder (d.cloneNodes none (d.successors start).nodes).1
    (List.range' d.nodes.size (d.successors start).nodes.length ++ d.closing start) k
  rw [same]
  exact (copiesFresh d none _ new).1

theorem cloneChainTemplate (d : Draft) (start : Nat) :
    ((d.cloneChain start).1.node d.nodes.size).template = some start := by
  obtain ⟨rest, whole⟩ := List.head?_eq_some_iff.mp (d.successorsBegin start)
  have here : d.nodes.size < (d.cloneNode start none).1.nodes.size := by simp
  rw [cloneChainUnfolded, whole]
  obtain ⟨next, same⟩ := nodeLinkInOrder (d.cloneNodes none (start :: rest)).1
    (List.range' d.nodes.size (start :: rest).length ++ d.closing start) d.nodes.size
  have first : (d.cloneNodes none (start :: rest)).1.node d.nodes.size =
      (d.cloneNode start none).1.node d.nodes.size := (Extends.cloneNodes _ (some d.nodes.size) rest).node _ here
  rw [same, first, nodeCloneNode, if_pos rfl]

theorem cloneChainLeads (d : Draft) (start : Nat) (new : d.nodes.size ≤ k) {next : Nat}
    (leads : ((d.cloneChain start).1.node k).next = some next) : d.nodes.size ≤ next := by
  rw [cloneChainUnfolded] at leads
  rcases nextLinkInOrder leads with linked | before
  · rcases List.mem_append.mp linked with copy | closing
    · exact (List.mem_range'_1.mp copy).1
    · exact closingCopies closing
  · cases (copiesFresh d none _ new).2.symm.trans before

theorem cloneNodesNames (d : Draft) (before : Option Nat) (sources : List Nat) :
    (d.cloneNodes before sources).1.names = d.names := by
  induction sources generalizing d before with
  | nil => rfl
  | cons source rest ih => exact ih (d.cloneNode source before).1 (some d.nodes.size)

theorem cloneChainNames (d : Draft) (start : Nat) : (d.cloneChain start).1.names = d.names := by
  have linked : ∀ (d : Draft) (keys : List Nat), (d.linkInOrder keys).names = d.names := fun d keys => by
    induction keys generalizing d with
    | nil => rfl
    | cons first rest ih =>
      cases rest with
      | nil => rfl
      | cons second rest => exact ih (d.changeNode first fun n => { n with next := some second })
  exact (linked _ _).trans (cloneNodesNames d none _)

theorem cloneChainKey (d : Draft) (start : Nat) : (d.cloneChain start).2.1 = d.nodes.size := by
  obtain ⟨rest, whole⟩ := List.head?_eq_some_iff.mp (d.successorsBegin start)
  have answer : (d.cloneChain start).2.1 = (d.cloneNodes none (d.successors start).nodes).2.1.headD start := rfl
  rw [answer, copiesNumbered, whole]
  rfl

end Dialogue.Draft
