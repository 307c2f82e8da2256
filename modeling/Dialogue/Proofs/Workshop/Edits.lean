import Mathlib.Logic.Relation
import Dialogue.Proofs.Workshop.Numbering
import Dialogue.Proofs.Workshop.Records

/-! The changes that a draft can undergo, one constructor for each. Whatever is authored or built is a sequence of
them, so what each of them keeps holds of every draft. Two things are kept here: every key stored in a draft belongs
to it (`Bound`), and no count is given to two ids (`Numbered`). -/
namespace Dialogue

def Deferred.Within (nodes actions : Nat) : Deferred → Prop
  | .successor n _ | .branch n _ _ | .returns n _ => n < nodes
  | .actionBuild a _ | .actionSuccessor a _ => a < actions

structure DraftNode.Within (nodes actions : Nat) (n : DraftNode) : Prop where
  next : ∀ k, n.next = some k → k < nodes
  prev : ∀ k, n.prev = some k → k < nodes
  template : ∀ k, n.template = some k → k < nodes
  rules : ∀ r ∈ n.rules, r.target < nodes
  actions : ∀ a ∈ n.actions, a < actions

structure DraftAction.Within (nodes : Nat) (a : DraftAction) : Prop where
  next : ∀ k, a.next = some k → k < nodes
  parent : ∀ k, a.parent = some k → k < nodes

namespace Draft

inductive Edit : Draft → Draft → Prop where
  | node {d : Draft} (name : String) : Edit d (d.addNode name).1
  | action {d : Draft} (label : String) : Edit d (d.addAction label).1
  | register {d : Draft} {key : Nat} (name : String) (inside : key < d.nodes.size) : Edit d (d.register name key).1
  | copy {d : Draft} {source : Nat} {before : Option Nat} (inside : source < d.nodes.size)
      (behind : ∀ b, before = some b → b < d.nodes.size) : Edit d (d.cloneNode source before).1
  | content {d : Draft} {key : Nat} {f : DraftNode → DraftNode}
      (only : ∀ n, f n = { n with texts := (f n).texts, effects := (f n).effects }) : Edit d (d.changeNode key f)
  | rule {d : Draft} {key target : Nat} (condition : Condition) (inside : target < d.nodes.size) :
      Edit d (d.changeNode key fun n => { n with rules := n.rules ++ [⟨condition, target⟩] })
  | attach {d : Draft} {key action : Nat} (inside : action < d.actions.size) :
      Edit d (d.changeNode key fun n => { n with actions := n.actions ++ [action] })
  | next {d : Draft} {key target : Nat} (inside : target < d.nodes.size) :
      Edit d (d.changeNode key fun n => { n with next := some target })
  | prev {d : Draft} {key target : Nat} (inside : target < d.nodes.size) :
      Edit d (d.changeNode key fun n => { n with prev := some target })
  | freeze {d : Draft} {key : Nat} : Edit d (d.changeNode key fun n => { n with frozen := true })
  | detail {d : Draft} {key : Nat} {f : DraftAction → DraftAction}
      (only : ∀ a, f a = { a with label := (f a).label, texts := (f a).texts, requirements := (f a).requirements
                                  alternatives := (f a).alternatives, effects := (f a).effects }) :
      Edit d (d.changeAction key f)
  | lead {d : Draft} {key target : Nat} (inside : target < d.nodes.size) :
      Edit d (d.changeAction key fun a => { a with next := some target })
  | parent {d : Draft} {key node : Nat} (inside : node < d.nodes.size) :
      Edit d (d.changeAction key fun a => { a with parent := some node })
  | lock {d : Draft} {key : Nat} : Edit d (d.changeAction key fun a => { a with frozen := true })
  | defer {d : Draft} {link : Deferred} (inside : link.Within d.nodes.size d.actions.size) :
      Edit d { d with pending := d.pending ++ [link] }
  | take {d : Draft} : Edit d { d with pending := [], resolving := true }
  | release {d : Draft} : Edit d { d with resolving := false }

def Edits : Draft → Draft → Prop := Relation.ReflTransGen Edit

structure Bound (d : Draft) : Prop where
  nodes : ∀ k, (d.node k).Within d.nodes.size d.actions.size
  actions : ∀ k, (d.action k).Within d.nodes.size
  names : ∀ name k, d.names.get? name = some k → k < d.nodes.size
  pending : ∀ link ∈ d.pending, link.Within d.nodes.size d.actions.size
  clones : ∀ c ∈ d.clones, c.1 < d.nodes.size ∧ c.2 < d.nodes.size

structure Numbered (d : Draft) : Prop where
  nodes : ∀ k < d.nodes.size, serial (d.node k).id ≤ d.count
  actions : ∀ k < d.actions.size, ∃ c ≤ d.count, (d.action k).id = numbered "choice" c
  nodesApart : ∀ j k, j < d.nodes.size → k < d.nodes.size → serial (d.node j).id = serial (d.node k).id → j = k
  actionsApart : ∀ j k, j < d.actions.size → k < d.actions.size →
    serial (d.action j).id = serial (d.action k).id → j = k
  apart : ∀ j k, j < d.nodes.size → k < d.actions.size → serial (d.node j).id ≠ serial (d.action k).id

end Draft

variable {nodes actions nodes' actions' : Nat}

theorem DraftNode.Within.grow {n : DraftNode} (within : n.Within nodes actions) (more : nodes ≤ nodes')
    (others : actions ≤ actions') : n.Within nodes' actions' where
  next := fun k h => Nat.lt_of_lt_of_le (within.next k h) more
  prev := fun k h => Nat.lt_of_lt_of_le (within.prev k h) more
  template := fun k h => Nat.lt_of_lt_of_le (within.template k h) more
  rules := fun r h => Nat.lt_of_lt_of_le (within.rules r h) more
  actions := fun a h => Nat.lt_of_lt_of_le (within.actions a h) others

theorem DraftNode.Within.blank {id : NodeId} {name : String} : ({ id, name } : DraftNode).Within nodes actions where
  next := by simp
  prev := by simp
  template := by simp
  rules := by simp
  actions := by simp

theorem DraftAction.Within.grow {a : DraftAction} (within : a.Within nodes) (more : nodes ≤ nodes') :
    a.Within nodes' where
  next := fun k h => Nat.lt_of_lt_of_le (within.next k h) more
  parent := fun k h => Nat.lt_of_lt_of_le (within.parent k h) more

theorem DraftAction.Within.blank {id : ActionId} {label : String} : ({ id, label } : DraftAction).Within nodes where
  next := by simp
  parent := by simp

theorem Deferred.Within.grow {link : Deferred} (within : link.Within nodes actions) (more : nodes ≤ nodes')
    (others : actions ≤ actions') : link.Within nodes' actions' := by
  cases link <;> exact Nat.lt_of_lt_of_le within ‹_›

theorem Deferred.Within.ofNode {link : Deferred} {key : Nat} (on : link.node? = some key) (inside : key < nodes) :
    link.Within nodes actions := by
  cases link with
  | successor | branch | returns =>
    cases Option.some.inj on
    exact inside
  | actionBuild | actionSuccessor => cases on

theorem Deferred.Within.retarget {link : Deferred} {copy : Nat} (within : link.Within nodes actions)
    (inside : copy < nodes) : (link.retarget copy).Within nodes actions := by
  cases link with
  | successor | branch | returns => exact inside
  | actionBuild | actionSuccessor => exact within

namespace Draft
variable {d d' : Draft} {key : Nat}

namespace Bound

theorem fresh (config : Config) : Bound { config := config } where
  nodes := fun k => by
    rw [nodeOutside _ k (by simp)]
    exact .blank
  actions := fun k => by
    rw [actionOutside _ k (by simp)]
    exact .blank
  names := by simp
  pending := by simp
  clones := by simp

theorem changeNode (bound : d.Bound) {f : DraftNode → DraftNode}
    (keeps : ∀ n, n.Within d.nodes.size d.actions.size → (f n).Within d.nodes.size d.actions.size) :
    (d.changeNode key f).Bound where
  nodes := fun k => by
    rw [nodeChangeNode, nodesChangeNode]
    split
    · exact keeps _ (bound.nodes k)
    · exact bound.nodes k
  actions := fun k => by simpa using bound.actions k
  names := by simpa [Draft.changeNode] using bound.names
  pending := by simpa [Draft.changeNode] using bound.pending
  clones := by simpa [Draft.changeNode] using bound.clones

theorem changeAction (bound : d.Bound) {f : DraftAction → DraftAction}
    (keeps : ∀ a, a.Within d.nodes.size → (f a).Within d.nodes.size) : (d.changeAction key f).Bound where
  nodes := fun k => by
    rw [nodeChangeAction, actionsChangeAction]
    exact bound.nodes k
  actions := fun k => by
    rw [actionChangeAction]
    split
    · exact keeps _ (bound.actions k)
    · exact bound.actions k
  names := bound.names
  pending := by simpa [Draft.changeAction] using bound.pending
  clones := bound.clones

theorem oneMore (bound : d.Bound) (nodes : d'.nodes.size = d.nodes.size + 1) (actions : d'.actions = d.actions)
    (names : d'.names = d.names) (old : ∀ k, k ≠ d.nodes.size → d'.node k = d.node k)
    (new : (d'.node d.nodes.size).Within d'.nodes.size d'.actions.size)
    (pending : ∀ link ∈ d'.pending, link ∈ d.pending ∨ link.Within d'.nodes.size d'.actions.size)
    (clones : ∀ c ∈ d'.clones, c ∈ d.clones ∨ c.1 < d'.nodes.size ∧ c.2 < d'.nodes.size) : d'.Bound where
  nodes := fun k => by
    by_cases same : k = d.nodes.size
    · exact same ▸ new
    · rw [old k same]
      exact (bound.nodes k).grow (by omega) (by simp [actions])
  actions := fun k => by
    have same : d'.action k = d.action k := by simp [action, actions]
    rw [same]
    exact (bound.actions k).grow (by omega)
  names := fun name k found => by
    have inside := bound.names name k (names ▸ found)
    omega
  pending := fun link mem => by
    rcases pending link mem with earlier | within
    · exact (bound.pending link earlier).grow (by omega) (by simp [actions])
    · exact within
  clones := fun c mem => by
    rcases clones c mem with earlier | inside
    · have := bound.clones c earlier
      omega
    · exact inside

theorem addNode (bound : d.Bound) (name : String) : (d.addNode name).1.Bound := by
  refine bound.oneMore (nodesAddNode d name) rfl rfl ?_ ?_ (fun _ => .inl) (fun _ => .inl)
  · intro k other
    rw [nodeAddNode, if_neg other]
  · rw [nodeAddNode, if_pos rfl]
    exact .blank

theorem addAction (bound : d.Bound) (label : String) : (d.addAction label).1.Bound where
  nodes := fun k => (bound.nodes k).grow (Nat.le_refl _) (by simp)
  actions := fun k => by
    rw [actionAddAction]
    split
    · exact .blank
    · exact bound.actions k
  names := bound.names
  pending := fun link mem => (bound.pending link mem).grow (Nat.le_refl _) (by simp)
  clones := bound.clones

theorem register (bound : d.Bound) (name : String) (inside : key < d.nodes.size) : (d.register name key).1.Bound := by
  unfold Draft.register
  split
  · exact bound
  · refine { bound with names := fun other k found => ?_ }
    by_cases same : other = name
    · subst same
      rw [Table.get?_insert_self] at found
      exact Option.some.inj found ▸ inside
    · rw [Table.get?_insert_ne same] at found
      exact bound.names other k found

theorem cloneNode (bound : d.Bound) {source : Nat} {before : Option Nat} (inside : source < d.nodes.size)
    (behind : ∀ b, before = some b → b < d.nodes.size) : (d.cloneNode source before).1.Bound := by
  have original := (bound.nodes source).grow (Nat.le_succ _) (Nat.le_refl _)
  refine bound.oneMore (nodesCloneNode d source before) rfl rfl ?_ ?_ ?_ ?_
  · intro k other
    rw [nodeCloneNode, if_neg other]
  · rw [nodeCloneNode, if_pos rfl, nodesCloneNode]
    refine ⟨by simp, ?_, ?_, original.rules, original.actions⟩
    · intro k prev
      rcases Option.or_eq_some_iff.mp (by simpa [Option.orElse_eq_or] using prev) with given | ⟨_, earlier⟩
      · exact Nat.lt_succ_of_lt (behind k given)
      · exact original.prev k earlier
    · intro k template
      cases Option.some.inj template
      exact Nat.lt_succ_of_lt inside
  · intro link mem
    rw [pendingCloneNode] at mem
    rcases List.mem_append.mp mem with earlier | taken
    · exact .inl earlier
    · right
      unfold inherited at taken
      split at taken
      · simp at taken
      · obtain ⟨original, from_, rfl⟩ := List.mem_map.mp taken
        have within := bound.pending original (List.mem_filter.mp from_).1
        exact (within.grow (by simp) (by simp)).retarget (by simp)
  · intro c mem
    rw [clonesCloneNode] at mem
    rcases List.mem_append.mp mem with earlier | taken
    · exact .inl earlier
    · cases List.mem_singleton.mp taken
      simp only [nodesCloneNode]
      exact .inr ⟨Nat.lt_succ_of_lt inside, Nat.lt_succ_self _⟩

end Bound

namespace Edit

theorem nodesGrow (edit : Edit d d') : d.nodes.size ≤ d'.nodes.size := by
  cases edit with
  | node | copy | register | content | rule | attach | next | prev | freeze => simp
  | action | detail | lead | parent | lock | defer | take | release => exact Nat.le_refl _

theorem actionsGrow (edit : Edit d d') : d.actions.size ≤ d'.actions.size := by
  cases edit with
  | action | register | detail | lead | parent | lock => simp
  | node | copy | content | rule | attach | next | prev | freeze | defer | take | release => exact Nat.le_refl _

theorem bound (edit : Edit d d') (bound : d.Bound) : d'.Bound := by
  cases edit with
  | node name => exact bound.addNode name
  | action label => exact bound.addAction label
  | register name inside => exact bound.register name inside
  | copy inside behind => exact bound.cloneNode inside behind
  | content only =>
    refine bound.changeNode fun n within => ?_
    rw [only n]
    exact { within with }
  | rule condition inside =>
    refine bound.changeNode fun n within => { within with rules := fun r mem => ?_ }
    rcases List.mem_append.mp mem with earlier | added
    · exact within.rules r earlier
    · cases List.mem_singleton.mp added
      exact inside
  | attach inside =>
    refine bound.changeNode fun n within => { within with actions := fun a mem => ?_ }
    rcases List.mem_append.mp mem with earlier | added
    · exact within.actions a earlier
    · cases List.mem_singleton.mp added
      exact inside
  | next inside =>
    exact bound.changeNode fun n within => { within with next := fun k same => Option.some.inj same ▸ inside }
  | prev inside =>
    exact bound.changeNode fun n within => { within with prev := fun k same => Option.some.inj same ▸ inside }
  | freeze => exact bound.changeNode fun n within => { within with }
  | detail only =>
    refine bound.changeAction fun a within => ?_
    rw [only a]
    exact { within with }
  | lead inside =>
    exact bound.changeAction fun a within => { within with next := fun k same => Option.some.inj same ▸ inside }
  | parent inside =>
    exact bound.changeAction fun a within => { within with parent := fun k same => Option.some.inj same ▸ inside }
  | lock => exact bound.changeAction fun a within => { within with }
  | defer inside =>
    refine { bound with pending := fun link mem => ?_ }
    rcases List.mem_append.mp mem with earlier | added
    · exact bound.pending link earlier
    · cases List.mem_singleton.mp added
      exact inside
  | take => exact { bound with pending := by simp }
  | release => exact { bound with }

end Edit

namespace Numbered

theorem fresh (config : Config) : Numbered { config := config } where
  nodes := by simp
  actions := by simp
  nodesApart := by simp
  actionsApart := by simp
  apart := by simp

theorem sameIds (numbered : d.Numbered) (nodes : d'.nodes.size = d.nodes.size)
    (actions : d'.actions.size = d.actions.size) (count : d'.count = d.count)
    (nodeIds : ∀ k, (d'.node k).id = (d.node k).id) (actionIds : ∀ k, (d'.action k).id = (d.action k).id) :
    d'.Numbered where
  nodes := by simpa only [nodes, count, nodeIds] using numbered.nodes
  actions := by simpa only [actions, count, actionIds] using numbered.actions
  nodesApart := by simpa only [nodes, nodeIds] using numbered.nodesApart
  actionsApart := by simpa only [actions, actionIds] using numbered.actionsApart
  apart := by simpa only [nodes, actions, nodeIds, actionIds] using numbered.apart

theorem serialAction (numbered : d.Numbered) (inside : key < d.actions.size) : serial (d.action key).id ≤ d.count := by
  obtain ⟨c, most, same⟩ := numbered.actions key inside
  rw [same, serialNumbered]
  exact most

theorem oneNode (numbered : d.Numbered) (nodes : d'.nodes.size = d.nodes.size + 1) (actions : d'.actions = d.actions)
    (count : d'.count = d.count + 1) (old : ∀ k < d.nodes.size, (d'.node k).id = (d.node k).id)
    (new : serial (d'.node d.nodes.size).id = d.count + 1) : d'.Numbered where
  nodes := fun k inside => by
    rcases Nat.lt_succ_iff_lt_or_eq.mp (nodes ▸ inside) with earlier | rfl
    · rw [old k earlier, count]
      exact Nat.le_succ_of_le (numbered.nodes k earlier)
    · omega
  actions := fun k inside => by
    have same : d'.action k = d.action k := by simp [action, actions]
    obtain ⟨c, most, id⟩ := numbered.actions k (actions ▸ inside)
    exact ⟨c, by omega, same ▸ id⟩
  nodesApart := fun j k insideJ insideK same => by
    rcases Nat.lt_succ_iff_lt_or_eq.mp (nodes ▸ insideJ) with earlierJ | rfl <;>
      rcases Nat.lt_succ_iff_lt_or_eq.mp (nodes ▸ insideK) with earlierK | rfl
    · rw [old j earlierJ, old k earlierK] at same
      exact numbered.nodesApart j k earlierJ earlierK same
    · have := numbered.nodes j earlierJ
      rw [old j earlierJ] at same
      omega
    · have := numbered.nodes k earlierK
      rw [old k earlierK] at same
      omega
    · rfl
  actionsApart := by simpa only [action, actions] using numbered.actionsApart
  apart := fun j k insideJ insideK => by
    have same : d'.action k = d.action k := by simp [action, actions]
    rw [same]
    rcases Nat.lt_succ_iff_lt_or_eq.mp (nodes ▸ insideJ) with earlier | rfl
    · rw [old j earlier]
      exact numbered.apart j k earlier (actions ▸ insideK)
    · have := numbered.serialAction (actions ▸ insideK)
      omega

theorem addNode (numbered : d.Numbered) (name : String) : (d.addNode name).1.Numbered := by
  refine numbered.oneNode (nodesAddNode d name) rfl rfl ?_ ?_
  · intro k inside
    rw [nodeAddNode, if_neg (Nat.ne_of_lt inside)]
  · rw [nodeAddNode, if_pos rfl, serialNumbered]

theorem cloneNode (numbered : d.Numbered) (source : Nat) (before : Option Nat) :
    (d.cloneNode source before).1.Numbered := by
  refine numbered.oneNode (nodesCloneNode d source before) rfl rfl ?_ ?_
  · intro k inside
    rw [nodeCloneNode, if_neg (Nat.ne_of_lt inside)]
  · rw [nodeCloneNode, if_pos rfl, serialNumbered]

theorem addAction (numbered : d.Numbered) (label : String) : (d.addAction label).1.Numbered := by
  have old : ∀ k < d.actions.size, ((d.addAction label).1.action k).id = (d.action k).id := fun k inside => by
    rw [actionAddAction, if_neg (Nat.ne_of_lt inside)]
  have new : ((d.addAction label).1.action d.actions.size).id = Draft.numbered "choice" (d.count + 1) := by
    rw [actionAddAction, if_pos rfl]
  have serialNew := (congrArg serial new).trans (serialNumbered _ _)
  refine ⟨fun k inside => Nat.le_succ_of_le (numbered.nodes k inside), ?_, numbered.nodesApart, ?_, ?_⟩
  · intro k inside
    rcases Nat.lt_succ_iff_lt_or_eq.mp (actionsAddAction d label ▸ inside) with earlier | rfl
    · obtain ⟨c, most, id⟩ := numbered.actions k earlier
      exact ⟨c, Nat.le_succ_of_le most, (old k earlier).trans id⟩
    · exact ⟨_, Nat.le_refl _, new⟩
  · intro j k insideJ insideK same
    rcases Nat.lt_succ_iff_lt_or_eq.mp (actionsAddAction d label ▸ insideJ) with earlierJ | rfl <;>
      rcases Nat.lt_succ_iff_lt_or_eq.mp (actionsAddAction d label ▸ insideK) with earlierK | rfl
    · rw [old j earlierJ, old k earlierK] at same
      exact numbered.actionsApart j k earlierJ earlierK same
    · have := numbered.serialAction earlierJ
      rw [old j earlierJ] at same
      omega
    · have := numbered.serialAction earlierK
      rw [old k earlierK] at same
      omega
    · rfl
  · intro j k insideJ insideK
    have node : (d.addAction label).1.node j = d.node j := rfl
    rw [node]
    rcases Nat.lt_succ_iff_lt_or_eq.mp (actionsAddAction d label ▸ insideK) with earlier | rfl
    · rw [old k earlier]
      exact numbered.apart j k insideJ earlier
    · have := numbered.nodes j insideJ
      omega

theorem changeNode (numbered : d.Numbered) {f : DraftNode → DraftNode} (same : ∀ n, (f n).id = n.id) :
    (d.changeNode key f).Numbered := by
  refine numbered.sameIds (nodesChangeNode d key f) rfl rfl ?_ (fun _ => rfl)
  intro k
  rw [nodeChangeNode]
  split
  · exact same _
  · rfl

theorem changeAction (numbered : d.Numbered) {f : DraftAction → DraftAction} (same : ∀ a, (f a).id = a.id) :
    (d.changeAction key f).Numbered := by
  refine numbered.sameIds rfl (actionsChangeAction d key f) rfl (fun _ => rfl) ?_
  intro k
  rw [actionChangeAction]
  split
  · exact same _
  · rfl

end Numbered

theorem Edit.numbered (edit : Edit d d') (numbered : d.Numbered) : d'.Numbered := by
  cases edit with
  | node name => exact numbered.addNode name
  | action label => exact numbered.addAction label
  | register name =>
    unfold Draft.register
    split
    · exact numbered
    · exact { numbered with }
  | copy => exact numbered.cloneNode _ _
  | content only => exact numbered.changeNode fun n => by rw [only n]
  | detail only => exact numbered.changeAction fun a => by rw [only a]
  | rule | attach | next | prev | freeze => exact numbered.changeNode fun _ => rfl
  | lead | parent | lock => exact numbered.changeAction fun _ => rfl
  | defer | take | release => exact { numbered with }

namespace Edits

theorem keep {P : Draft → Prop} (step : ∀ d d', Edit d d' → P d → P d') (edits : Edits d d') (holds : P d) : P d' := by
  induction edits with
  | refl => exact holds
  | tail _ edit ih => exact step _ _ edit ih

theorem one (edit : Edit d d') : Edits d d' := .single edit

theorem trans {d'' : Draft} (first : Edits d d') (second : Edits d' d'') : Edits d d'' :=
  Relation.ReflTransGen.trans first second

theorem nodesGrow (edits : Edits d d') : d.nodes.size ≤ d'.nodes.size :=
  edits.keep (P := fun e => d.nodes.size ≤ e.nodes.size) (fun _ _ edit le => Nat.le_trans le edit.nodesGrow)
    (Nat.le_refl _)

theorem actionsGrow (edits : Edits d d') : d.actions.size ≤ d'.actions.size :=
  edits.keep (P := fun e => d.actions.size ≤ e.actions.size) (fun _ _ edit le => Nat.le_trans le edit.actionsGrow)
    (Nat.le_refl _)

theorem bound (edits : Edits d d') (bound : d.Bound) : d'.Bound := edits.keep (fun _ _ => Edit.bound) bound

theorem numbered (edits : Edits d d') (numbered : d.Numbered) : d'.Numbered :=
  edits.keep (fun _ _ => Edit.numbered) numbered

end Edits

def Made (d : Draft) : Prop := ∃ config : Config, Edits { config := config } d

namespace Made

theorem blank : Made default := ⟨_, .refl⟩

theorem later (made : d.Made) (edits : Edits d d') : d'.Made := by
  obtain ⟨config, earlier⟩ := made
  exact ⟨config, earlier.trans edits⟩

theorem bound (made : d.Made) : d.Bound := by
  obtain ⟨config, edits⟩ := made
  exact edits.bound (.fresh config)

theorem numbered (made : d.Made) : d.Numbered := by
  obtain ⟨config, edits⟩ := made
  exact edits.numbered (.fresh config)

end Made
end Draft
end Dialogue
