import Dialogue.Proofs.Story.Closed
import Dialogue.Proofs.Text.Order

/-! The fault that a story is refused with. A missing root comes before all others; of the entries at fault the one
whose key has the smallest bytes is told of, and of its faults first that it stands under another id, then the
successor, the rules and the actions in their order. -/
namespace Dialogue.Story

structure Faultless (s : Story) (key : NodeId) (n : StoryNode) : Prop where
  keyed : key = n.id
  next : ∀ target, n.nextId = some target → s.nodes.contains target = true
  rules : ∀ rule ∈ n.rules, s.nodes.contains rule.targetId = true
  actions : ∀ action ∈ n.actions, ∀ target, action.nextId = some target → s.nodes.contains target = true

inductive FaultOf (s : Story) (key : NodeId) (n : StoryNode) : CompileError → Prop where
  | id (other : key ≠ n.id) : FaultOf s key n (.duplicateNodeId n.id)
  | successor {target : NodeId} (keyed : key = n.id) (leads : n.nextId = some target)
      (lost : s.nodes.contains target = false) : FaultOf s key n (.danglingReference target (.successor n.id))
  | rule {before later : List BranchRule} {rule : BranchRule} (keyed : key = n.id)
      (next : ∀ target, n.nextId = some target → s.nodes.contains target = true)
      (order : n.rules = before ++ rule :: later) (found : ∀ r ∈ before, s.nodes.contains r.targetId = true)
      (lost : s.nodes.contains rule.targetId = false) :
      FaultOf s key n (.danglingReference rule.targetId (.rule n.id rule.condition))
  | action {before later : List StoryAction} {action : StoryAction} {target : NodeId} (keyed : key = n.id)
      (next : ∀ target, n.nextId = some target → s.nodes.contains target = true)
      (rules : ∀ rule ∈ n.rules, s.nodes.contains rule.targetId = true) (order : n.actions = before ++ action :: later)
      (found : ∀ a ∈ before, ∀ target, a.nextId = some target → s.nodes.contains target = true)
      (leads : action.nextId = some target) (lost : s.nodes.contains target = false) :
      FaultOf s key n (.danglingReference target (.action n.id action.id))

inductive FirstFault (s : Story) : CompileError → Prop where
  | root (lost : s.nodes.contains s.rootId = false) : FirstFault s (.missingRoot s.rootId)
  | entry {key : NodeId} {n : StoryNode} {e : CompileError} (root : s.nodes.contains s.rootId = true)
      (found : s.node? key = some n) (fault : FaultOf s key n e)
      (first : ∀ other m, Text.bytes other < Text.bytes key → s.node? other = some m → s.Faultless other m) :
      FirstFault s e

variable {s : Story} {key target : NodeId} {n : StoryNode} {e : CompileError} {origin : Origin}

theorem faultlessIff : s.entryFault key n = none ↔ s.Faultless key n := by
  rw [entryFaultNone, referencesAll (P := fun target => s.nodes.contains target = true)]
  constructor
  · intro ⟨keyed, next, rules, actions⟩
    exact ⟨keyed, next, rules, actions⟩
  · intro faultless
    exact ⟨faultless.keyed, faultless.next, faultless.rules, faultless.actions⟩

def lost (s : Story) (r : NodeId × Origin) : Bool := !s.nodes.contains r.1

def successorReferences (n : StoryNode) : List (NodeId × Origin) :=
  n.nextId.toList.map fun target => (target, .successor n.id)

def ruleReferences (n : StoryNode) : List (NodeId × Origin) :=
  n.rules.map fun rule => (rule.targetId, .rule n.id rule.condition)

def actionReferences (n : StoryNode) : List (NodeId × Origin) :=
  n.actions.flatMap fun a => a.nextId.toList.map fun target => (target, .action n.id a.id)

theorem lostOf {next : Option NodeId} {which : Origin} :
    (next.toList.map fun target => (target, which)).find? s.lost = some (target, origin) ↔
      next = some target ∧ s.nodes.contains target = false ∧ origin = which := by
  cases next with
  | none => simp
  | some next =>
    simp only [Option.toList_some, List.map_cons, List.map_nil, List.find?_singleton, Option.ite_none_right_eq_some,
      Option.some.injEq, Prod.mk.injEq, lost, Bool.not_eq_true']
    constructor
    · rintro ⟨gone, rfl, rfl⟩
      exact ⟨rfl, gone, rfl⟩
    · rintro ⟨rfl, gone, rfl⟩
      exact ⟨gone, rfl, rfl⟩

theorem noneLostOf {next : Option NodeId} {which : Origin} :
    (next.toList.map fun target => (target, which)).find? s.lost = none ↔
      ∀ target, next = some target → s.nodes.contains target = true := by
  cases next <;> simp [lost]

theorem lostRule : (ruleReferences n).find? s.lost = some (target, origin) ↔
    ∃ before rule later, n.rules = before ++ rule :: later ∧ (∀ r ∈ before, s.nodes.contains r.targetId = true) ∧
      s.nodes.contains rule.targetId = false ∧ target = rule.targetId ∧ origin = .rule n.id rule.condition := by
  unfold ruleReferences
  rw [List.find?_map, Option.map_eq_some_iff]
  simp only [List.find?_eq_some_iff_append, lost, Function.comp_apply, Bool.not_eq_true', Bool.not_not]
  constructor
  · intro ⟨rule, ⟨gone, before, later, order, found⟩, same⟩
    cases same
    exact ⟨before, rule, later, order, found, gone, rfl, rfl⟩
  · intro ⟨before, rule, later, order, found, gone, target, origin⟩
    cases target
    cases origin
    exact ⟨rule, ⟨gone, before, later, order, found⟩, rfl⟩

theorem noRuleLost : (ruleReferences n).find? s.lost = none ↔
    ∀ rule ∈ n.rules, s.nodes.contains rule.targetId = true := by
  simp [ruleReferences, lost]

theorem lostAction : (actionReferences n).find? s.lost = some (target, origin) ↔
    ∃ before action later, n.actions = before ++ action :: later ∧
      (∀ a ∈ before, ∀ target, a.nextId = some target → s.nodes.contains target = true) ∧
      action.nextId = some target ∧ s.nodes.contains target = false ∧ origin = .action n.id action.id := by
  unfold actionReferences
  rw [List.find?_flatMap, List.findSome?_eq_some_iff]
  simp only [lostOf, noneLostOf]
  constructor
  · intro ⟨before, action, later, order, ⟨leads, gone, which⟩, found⟩
    exact ⟨before, action, later, order, found, leads, gone, which⟩
  · intro ⟨before, action, later, order, found, leads, gone, which⟩
    exact ⟨before, action, later, order, ⟨leads, gone, which⟩, found⟩

theorem firstLost : n.references.find? s.lost = some (target, origin) ↔
    (successorReferences n).find? s.lost = some (target, origin) ∨
    (successorReferences n).find? s.lost = none ∧ (ruleReferences n).find? s.lost = some (target, origin) ∨
    (successorReferences n).find? s.lost = none ∧ (ruleReferences n).find? s.lost = none ∧
      (actionReferences n).find? s.lost = some (target, origin) := by
  have order : n.references = successorReferences n ++ (ruleReferences n ++ actionReferences n) :=
    List.append_assoc _ _ _
  rw [order, List.find?_append, List.find?_append]
  simp only [Option.or_eq_some_iff, and_or_left]

theorem faultOfReference (keyed : key = n.id) : (∃ target origin, n.references.find? s.lost = some (target, origin) ∧
    .danglingReference target origin = e) ↔ s.FaultOf key n e := by
  constructor
  · intro ⟨target, origin, first, same⟩
    subst same
    rcases firstLost.mp first with next | ⟨next, rule⟩ | ⟨next, rules, action⟩
    · obtain ⟨leads, gone, rfl⟩ := lostOf.mp next
      exact .successor keyed leads gone
    · obtain ⟨_, _, _, order, found, gone, rfl, rfl⟩ := lostRule.mp rule
      exact .rule keyed (noneLostOf.mp next) order found gone
    · obtain ⟨_, _, _, order, found, leads, gone, rfl⟩ := lostAction.mp action
      exact .action keyed (noneLostOf.mp next) (noRuleLost.mp rules) order found leads gone
  · intro fault
    cases fault with
    | id other => contradiction
    | successor _ leads gone => exact ⟨_, _, firstLost.mpr (.inl (lostOf.mpr ⟨leads, gone, rfl⟩)), rfl⟩
    | rule _ next order found gone =>
      have rule := lostRule.mpr ⟨_, _, _, order, found, gone, rfl, rfl⟩
      exact ⟨_, _, firstLost.mpr (.inr (.inl ⟨noneLostOf.mpr next, rule⟩)), rfl⟩
    | action _ next rules order found leads gone =>
      have action := lostAction.mpr ⟨_, _, _, order, found, leads, gone, rfl⟩
      exact ⟨_, _, firstLost.mpr (.inr (.inr ⟨noneLostOf.mpr next, noRuleLost.mpr rules, action⟩)), rfl⟩

theorem entryFaultFirst : s.entryFault key n = some e ↔ s.FaultOf key n e := by
  unfold entryFault
  split
  · rename_i other
    constructor
    · intro same
      cases same
      exact .id other
    · intro fault
      cases fault with
      | id => rfl
      | successor keyed => contradiction
      | rule keyed => contradiction
      | action keyed => contradiction
  · rename_i keyed
    rw [← faultOfReference (Classical.not_not.mp keyed), Option.map_eq_some_iff]
    exact Prod.exists

theorem entriesBefore {before later : List (NodeId × StoryNode)}
    (order : s.nodes.entries = before ++ (key, n) :: later) {other : NodeId} {m : StoryNode} :
    (other, m) ∈ before ↔ Text.bytes other < Text.bytes key ∧ s.node? other = some m := by
  have ascends := s.nodes.ascends
  rw [order, List.pairwise_append] at ascends
  obtain ⟨_, behind, across⟩ := ascends
  rw [Text.bytesBefore, node?, Table.get?_eq_some_iff, order]
  constructor
  · intro mem
    exact ⟨across _ mem _ List.mem_cons_self, List.mem_append_left _ mem⟩
  · intro ⟨less, mem⟩
    rcases List.mem_append.mp mem with inside | at_
    · exact inside
    · rcases List.mem_cons.mp at_ with same | after
      · cases same
        exact absurd less (String.lt_irrefl _)
      · exact absurd less (String.lt_asymm ((List.pairwise_cons.mp behind).1 _ after))

theorem faultFirst : s.fault? = some e ↔ s.FirstFault e := by
  unfold fault?
  split
  · rename_i root
    rw [List.findSome?_eq_some_iff]
    constructor
    · intro ⟨before, ⟨key, n⟩, later, order, fault, sound⟩
      have found : s.node? key = some n := Table.get?_eq_some_iff.mpr (order ▸ List.mem_append_cons_self)
      refine .entry root found (entryFaultFirst.mp fault) fun other m less there => ?_
      exact faultlessIff.mp (sound _ ((entriesBefore order).mpr ⟨less, there⟩))
    · intro fault
      cases fault with
      | root gone => simp [root] at gone
      | @entry key n _ _ found fault first =>
        obtain ⟨before, later, order⟩ := List.append_of_mem (Table.get?_eq_some_iff.mp found)
        refine ⟨before, (key, n), later, order, entryFaultFirst.mpr fault, fun entry mem => faultlessIff.mpr ?_⟩
        obtain ⟨less, there⟩ := (entriesBefore order).mp mem
        exact first _ _ less there
  · rename_i missing
    constructor
    · intro same
      cases same
      exact .root (by simpa using missing)
    · intro fault
      cases fault with
      | root => rfl
      | entry root => contradiction

theorem closedFaultless :
    s.Closed ↔ s.nodes.contains s.rootId = true ∧ ∀ key n, s.node? key = some n → s.Faultless key n := by
  constructor
  · intro closed
    refine ⟨closed.root, fun key n found => ?_⟩
    obtain ⟨next, rules, actions⟩ := closed.referencesFound found
    exact ⟨(closed.idOf found).symm, next, rules, actions⟩
  · intro ⟨root, faultless⟩
    have entry : ∀ e ∈ s.nodes.entries, s.Faultless e.1 e.2 :=
      fun _ mem => faultless _ _ (Table.get?_eq_some_iff.mpr mem)
    refine ⟨root, fun e mem => (entry e mem).keyed, fun e mem => ?_⟩
    have sound := entry e mem
    exact referencesAll.mpr ⟨sound.next, sound.rules, sound.actions⟩

theorem validateError : s.validate = .error e ↔ s.fault? = some e := by
  unfold validate
  cases s.fault? <;> simp

theorem rootMissing : (∃ root, s.FirstFault (.missingRoot root)) ↔ s.nodes.contains s.rootId = false := by
  constructor
  · intro ⟨_, fault⟩
    cases fault with
    | root gone => exact gone
    | entry _ _ fault => nomatch fault
  · intro gone
    exact ⟨_, .root gone⟩

theorem refusedForFirst (s : Story) :
    (s.validate = .ok () ↔ s.nodes.contains s.rootId = true ∧ ∀ key n, s.node? key = some n → s.Faultless key n) ∧
    (∀ e, s.validate = .error e ↔ s.FirstFault e) ∧
    ((∃ root, s.validate = .error (.missingRoot root)) ↔ s.nodes.contains s.rootId = false) := by
  have refused : ∀ e, s.validate = .error e ↔ s.FirstFault e := fun _ => validateError.trans faultFirst
  exact ⟨validateOk.trans closedFaultless, refused, (exists_congr fun _ => refused _).trans rootMissing⟩

example : Story.validate ⟨"a", .ofList [("a", ⟨"b", [], none, [], [], []⟩),
    ("Z", ⟨"Z", [], some "x", [⟨⟨"k", ⟨.equals, .null⟩⟩, "y"⟩], [], []⟩)]⟩ =
      .error (.danglingReference "x" (.successor "Z")) := rfl

end Dialogue.Story
