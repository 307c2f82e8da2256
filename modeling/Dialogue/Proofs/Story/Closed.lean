import Dialogue.Story.Validity

/-! A story is accepted exactly when its table is closed. In a closed table whoever is found under an id bears that
id, and every successor, rule and action leads to an entry. -/
namespace Dialogue.Story
variable {s : Story} {id target : NodeId} {n : StoryNode}

theorem entryFaultNone {key : NodeId} :
    s.entryFault key n = none ↔ key = n.id ∧ ∀ r ∈ n.references, s.nodes.contains r.1 := by
  unfold entryFault
  split
  · rename_i other
    simp [other]
  · rename_i same
    have same : key = n.id := Classical.not_not.mp same
    simp [same]

theorem validateOk : s.validate = .ok () ↔ s.Closed := by
  have checked : s.validate = .ok () ↔ s.fault? = none := by
    unfold validate
    cases s.fault? <;> simp
  rw [checked]
  unfold fault?
  split
  · rename_i root
    simp only [List.findSome?_eq_none_iff, entryFaultNone]
    constructor
    · intro sound
      exact ⟨root, fun e mem => (sound e mem).1, fun e mem => (sound e mem).2⟩
    · intro closed e mem
      exact ⟨closed.keyed e mem, closed.resolved e mem⟩
  · rename_i missing
    constructor
    · intro h
      contradiction
    · intro closed
      exact absurd closed.root missing

theorem referencesAll {P : NodeId → Prop} : (∀ r ∈ n.references, P r.1) ↔
    (∀ target, n.nextId = some target → P target) ∧ (∀ rule ∈ n.rules, P rule.targetId) ∧
    ∀ action ∈ n.actions, ∀ target, action.nextId = some target → P target := by
  simp only [StoryNode.references, List.forall_mem_append, List.forall_mem_map, List.mem_flatMap, Option.mem_toList]
  constructor
  · rintro ⟨⟨next, rules⟩, actions⟩
    refine ⟨next, rules, fun action mem target leads => ?_⟩
    exact actions _ ⟨action, mem, List.mem_map.mpr ⟨target, Option.mem_toList.mpr leads, rfl⟩⟩
  · rintro ⟨next, rules, actions⟩
    refine ⟨⟨next, rules⟩, ?_⟩
    rintro r ⟨action, mem, refers⟩
    obtain ⟨target, leads, rfl⟩ := List.mem_map.mp refers
    exact actions action mem target (Option.mem_toList.mp leads)

theorem containsIff : s.nodes.contains id = true ↔ ∃ n, s.node? id = some n := Table.contains_iff

namespace Closed

theorem idOf (closed : s.Closed) (found : s.node? id = some n) : n.id = id :=
  (closed.keyed _ (Table.get?_eq_some_iff.mp found)).symm

theorem rootFound (closed : s.Closed) : ∃ n, s.node? s.rootId = some n := containsIff.mp closed.root

theorem referencesFound (closed : s.Closed) (found : s.node? id = some n) :
    (∀ target, n.nextId = some target → s.nodes.contains target = true) ∧
    (∀ rule ∈ n.rules, s.nodes.contains rule.targetId = true) ∧
    ∀ action ∈ n.actions, ∀ target, action.nextId = some target → s.nodes.contains target = true :=
  referencesAll.mp (closed.resolved _ (Table.get?_eq_some_iff.mp found))

theorem nextFound (closed : s.Closed) (found : s.node? id = some n) (next : n.nextId = some target) :
    ∃ m, s.node? target = some m :=
  containsIff.mp ((closed.referencesFound found).1 target next)

theorem ruleFound (closed : s.Closed) (found : s.node? id = some n) {rule : BranchRule} (mem : rule ∈ n.rules) :
    ∃ m, s.node? rule.targetId = some m :=
  containsIff.mp ((closed.referencesFound found).2.1 rule mem)

theorem actionFound (closed : s.Closed) (found : s.node? id = some n) {action : StoryAction}
    (mem : action ∈ n.actions) (next : action.nextId = some target) : ∃ m, s.node? target = some m :=
  containsIff.mp ((closed.referencesFound found).2.2 action mem target next)

theorem successorFound (closed : s.Closed) (found : s.node? id = some n) {context : Context}
    (next : n.successor context = some target) : ∃ m, s.node? target = some m := by
  unfold StoryNode.successor at next
  cases chosen : BranchRule.choose n.rules context with
  | none =>
    rw [chosen] at next
    exact closed.nextFound found (by simpa using next)
  | some other =>
    rw [chosen] at next
    cases Option.some.inj next
    obtain ⟨rule, first, rfl⟩ := Option.map_eq_some_iff.mp chosen
    exact closed.ruleFound found (List.mem_of_find?_eq_some first)

end Closed
end Dialogue.Story
