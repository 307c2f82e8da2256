import Mathlib.Data.List.Forall2
import Dialogue.Proofs.Workshop.Resolvers

/-! What a program can rely on when it compiles a story. Compiling never fails, at whatever node it begins and however
the links run; and the story is the part of the draft that can be reached from there, no more and no less. -/
namespace Dialogue

structure ActionEntry (d : Draft) (a : Nat) (x : StoryAction) : Prop where
  id : x.id = (d.action a).id
  label : x.label = (d.action a).label
  effects : x.effects = (d.action a).effects
  free : x.predicate = none ↔ (d.action a).requirements.isEmpty = true ∧ (d.action a).alternatives.isEmpty = true
  bound : ∀ p, x.predicate = some p → p = ⟨(d.action a).requirements, (d.action a).alternatives⟩
  shown : (d.action a).texts ≠ [] → x.nextId = some ("btn_" ++ (d.action a).id)
  direct : (d.action a).texts = [] → x.nextId = (d.action a).next.map fun k => (d.node k).id

structure NodeEntry (d : Draft) (k : Nat) (e : StoryNode) : Prop where
  id : e.id = (d.node k).id
  texts : e.texts = (d.node k).texts
  effects : e.effects = (d.node k).effects
  next : e.nextId = (d.node k).next.map fun k => (d.node k).id
  rules : e.rules = (d.node k).rules.map fun r => ⟨r.condition, (d.node r.target).id⟩
  actions : List.Forall₂ (ActionEntry d) (d.node k).actions e.actions

structure TextEntry (d : Draft) (a : Nat) (e : StoryNode) : Prop where
  id : e.id = "btn_" ++ (d.action a).id
  texts : e.texts = (d.action a).texts
  next : e.nextId = (d.action a).next.map fun k => (d.node k).id
  rules : e.rules = []
  effects : e.effects = []
  actions : e.actions = []

def Draft.Shows (d : Draft) (root a : Nat) : Prop :=
  ∃ k, d.Reaches root k ∧ a ∈ (d.node k).actions ∧ (d.action a).texts ≠ []

structure Flattened (d : Draft) (root : Nat) (s : Story) : Prop where
  begins : s.rootId = (d.node root).id
  nodes : ∀ k, d.Reaches root k → ∃ e, s.node? (d.node k).id = some e ∧ NodeEntry d k e
  texts : ∀ a, d.Shows root a → ∃ e, s.node? ("btn_" ++ (d.action a).id) = some e ∧ TextEntry d a e
  only : ∀ id e, s.node? id = some e →
    (∃ k, d.Reaches root k ∧ id = (d.node k).id) ∨ ∃ a, d.Shows root a ∧ id = "btn_" ++ (d.action a).id
  nodesApart : ∀ j k, d.Reaches root j → d.Reaches root k → (d.node j).id = (d.node k).id → j = k
  textsApart : ∀ a b, d.Shows root a → d.Shows root b → "btn_" ++ (d.action a).id = "btn_" ++ (d.action b).id → a = b
  apart : ∀ k a, d.Reaches root k → d.Shows root a → (d.node k).id ≠ "btn_" ++ (d.action a).id
  actionsAgree : ∀ id id' e e', s.node? id = some e → s.node? id' = some e' →
    ∀ x ∈ e.actions, ∀ y ∈ e'.actions, x.id = y.id → x = y

namespace Draft
variable {d : Draft} {root k a : Nat} {story : Story}

theorem actionOfEntry (d : Draft) (a : Nat) : ActionEntry d a (d.actionOf a) where
  id := rfl
  label := rfl
  effects := rfl
  free := by
    have both : (d.action a).predicate.isEmpty = true ↔
        (d.action a).requirements.isEmpty = true ∧ (d.action a).alternatives.isEmpty = true := by
      simp [DraftAction.predicate, Predicate.isEmpty]
    rw [← both]
    simp [actionOf]
  bound := fun p same => by
    simp only [actionOf] at same
    split at same
    · contradiction
    · exact (Option.some.inj same).symm
  shown := fun texted => by simp [actionOf, StoryAction.textNodeId, texted]
  direct := fun blank => by simp [actionOf, idOf, blank]

theorem nodeOfEntry (d : Draft) (k : Nat) : NodeEntry d k (d.nodeOf k) where
  id := rfl
  texts := rfl
  effects := rfl
  next := rfl
  rules := rfl
  actions := List.forall₂_map_right_iff.mpr (List.forall₂_same.mpr fun a _ => d.actionOfEntry a)

theorem textNodeOfEntry (d : Draft) (a : Nat) : TextEntry d a (d.textNodeOf a) where
  id := rfl
  texts := rfl
  next := rfl
  rules := rfl
  effects := rfl
  actions := rfl

def Compiles (d : Draft) (root : Nat) : Prop :=
  (∃ story : Story, (d.compile root).result = .ok story ∧ story.validate = .ok ()) ∧
  (d.entriesOf [] (d.reach root)).Pairwise fun x y => x.id ≠ y.id

theorem compiles (made : d.Made) (inside : root < d.nodes.size) : d.Compiles root := by
  obtain ⟨story, ok, valid, _⟩ := compileOk made inside
  exact ⟨⟨story, ok, valid⟩, reachedApart made inside⟩

theorem flattened (made : d.Made) (inside : root < d.nodes.size) : ∃ story,
    (d.compile root).result = .ok story ∧ Flattened d root story := by
  obtain ⟨story, ok, _, begins, holds⟩ := compileOk made inside
  have bound := made.bound
  have numbered := made.numbered
  have reached : ∀ {k}, d.Reaches root k → k < d.nodes.size := bound.reaches inside
  have attached : ∀ {k a}, a ∈ (d.node k).actions → a < d.actions.size := fun mem => (bound.nodes _).actions _ mem
  have shown : ∀ {a}, d.Shows root a → a < d.actions.size := fun shows => by
    obtain ⟨k, _, on, _⟩ := shows
    exact attached on
  have offered : ∀ {id e}, story.node? id = some e → ∀ x ∈ e.actions, ∃ a < d.actions.size, x = d.actionOf a := by
    intro id e found x mem
    cases ((holds id e).mp found).1 with
    | node =>
      obtain ⟨a, on, rfl⟩ := List.mem_map.mp mem
      exact ⟨a, attached on, rfl⟩
    | text => cases mem
  refine ⟨story, ok, begins, ?_, ?_, ?_, ?_, ?_, ?_, ?_⟩
  · exact fun k here => ⟨_, (holds _ _).mpr ⟨.node here, rfl⟩, d.nodeOfEntry k⟩
  · rintro a ⟨k, here, on, texted⟩
    exact ⟨_, (holds _ _).mpr ⟨.text here on texted, rfl⟩, d.textNodeOfEntry a⟩
  · intro id e found
    obtain ⟨entry, rfl⟩ := (holds id e).mp found
    cases entry with
    | node here => exact .inl ⟨_, here, rfl⟩
    | text here on texted => exact .inr ⟨_, ⟨_, here, on, texted⟩, rfl⟩
  · exact fun j k hereJ hereK => numbered.nodeIds (reached hereJ) (reached hereK)
  · exact fun a b showsA showsB => numbered.textIds (shown showsA) (shown showsB)
  · exact fun k a here shows same => numbered.textIdOther (shown shows) (reached here) same.symm
  · intro id id' e e' found found' x memX y memY same
    obtain ⟨a, insideA, rfl⟩ := offered found x memX
    obtain ⟨b, insideB, rfl⟩ := offered found' y memY
    rw [numbered.actionIds insideA insideB same]

end Draft

namespace Machine

theorem compileNeverFails (meaning : Script → Resolver) (depth : Nat) (config : Config) (program : List Step) :
    (∀ root : NodeRef, root.Inside (afterBy meaning depth config program).workshop →
      ((afterBy meaning depth config program).workshop.draftAt root.draft).Compiles root.key) ∧
    (∀ name root, (afterBy meaning depth config program).binding? name = some (.node root) →
      root.Inside (afterBy meaning depth config program).workshop) ∧
    ∀ s, ¬ ((step (callerBy meaning depth) s).run (afterBy meaning depth config program)).1.answer.CompileFailed := by
  have sound := afterBySound meaning depth config program
  refine ⟨fun root inside => ?_, fun name root held => ?_, fun s => ?_⟩
  · exact Draft.compiles (sound.drafts root.draft) inside
  · exact sound.bound name _ held
  · exact (stepSafe (callerBySound meaning depth) _ s sound).2.2.answer

def wharf : List Step := [
  .mk none none (some "quay") (.newNamed "btn_choice"),
  .mk none none (some "board") (.newAction "Board"),
  .mk (some "board") none none (.appendText [.fragment (.segment ⟨"A plank creaks.", 200, 500⟩)]),
  .mk (some "quay") none none (.attachAction "board"),
  .mk (some "board") none none (.linkTo (.node "quay"))]

theorem wharfInside : (⟨0, 0⟩ : NodeRef).Inside (afterBy .ofScript passDepth {} wharf).workshop := by
  have one : ((afterBy .ofScript passDepth {} wharf).workshop.draftAt 0).nodes.size = 1 := rfl
  rw [NodeRef.Inside, one]
  exact Nat.zero_lt_one

theorem wharfCompiles : (⟨0, 0⟩ : NodeRef).Inside (afterBy .ofScript passDepth {} wharf).workshop ∧
    (((afterBy .ofScript passDepth {} wharf).workshop.draftAt 0).entriesOf [] [0]).map (·.id) =
      ["btn_choice_0002", "btn_choice_0001"] ∧
    ((afterBy .ofScript passDepth {} wharf).workshop.draftAt 0).Compiles 0 :=
  ⟨wharfInside, rfl, (compileNeverFails .ofScript passDepth {} wharf).1 ⟨0, 0⟩ wharfInside⟩

theorem compiledExactly (meaning : Script → Resolver) (depth : Nat) (config : Config) (program : List Step)
    {root : NodeRef} (inside : root.Inside (afterBy meaning depth config program).workshop) : ∃ story : Story,
      (((afterBy meaning depth config program).workshop.draftAt root.draft).compile root.key).result = .ok story ∧
      Flattened ((afterBy meaning depth config program).workshop.draftAt root.draft) root.key story :=
  Draft.flattened ((afterBySound meaning depth config program).drafts root.draft) inside

theorem wharfCompiledExactly : (⟨0, 0⟩ : NodeRef).Inside (afterBy .ofScript passDepth {} wharf).workshop ∧
    ∃ story : Story, (((afterBy .ofScript passDepth {} wharf).workshop.draftAt 0).compile 0).result = .ok story ∧
      Flattened ((afterBy .ofScript passDepth {} wharf).workshop.draftAt 0) 0 story :=
  ⟨wharfInside, compiledExactly .ofScript passDepth {} wharf wharfInside⟩

end Machine
end Dialogue
