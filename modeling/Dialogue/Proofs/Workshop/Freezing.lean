import Dialogue.Proofs.Workshop.Trails
import Dialogue.Proofs.Workshop.Programs

/-! Freezing. A call to freeze a node goes back to the head of its chain and marks all that can be reached from there.
The node itself is among them only if its chain, followed back, can be followed forth again: a node that its
predecessor has left for another, and a copy whose predecessor stands in the original, are passed over. -/
namespace Dialogue
variable {w : Workshop} {n : NodeRef}

namespace Draft
variable {d : Draft} {key : Nat}

structure Marks (d : Draft) (start : Nat) (d' : Draft) : Prop where
  rest : d' = { d with nodes := d'.nodes }
  nodes : d'.nodes.size = d.nodes.size
  same : ∀ k, d'.node k = { d.node k with frozen := (d'.node k).frozen }
  frozen : ∀ k, (d'.node k).frozen = true ↔ (d.node k).frozen = true ∨ d.Leads start k

structure Froze (d : Draft) (start : Nat) (d' : Draft) : Prop where
  rest : d' = { d with nodes := d'.nodes }
  nodes : d'.nodes.size = d.nodes.size
  marked : ∀ k < d.nodes.size, d.Leads start k → d'.node k = { d.node k with frozen := true }
  others : ∀ k, ¬ d.Leads start k → d'.node k = d.node k

theorem freezeChainFroze (d : Draft) (start : Nat) : d.Froze start (d.freezeChain start) where
  rest := (d.restFreezeAll _).1
  nodes := (d.restFreezeAll _).2
  marked := fun k inside leads => by rw [freezeChain, nodeFreezeAll, if_pos ⟨memSuccessors.mpr leads, inside⟩]
  others := fun k apart => by rw [freezeChain, nodeFreezeAll, if_neg fun met => apart (memSuccessors.mp met.1)]

theorem Bound.freezeChain (bound : d.Bound) (here : key < d.nodes.size) : d.Marks key (d.freezeChain key) := by
  have froze := d.freezeChainFroze key
  refine ⟨froze.rest, froze.nodes, fun k => ?_, fun k => ?_⟩
  · by_cases leads : d.Leads key k
    · rw [froze.marked k (bound.leads here leads) leads]
    · rw [froze.others k leads]
  · by_cases leads : d.Leads key k
    · simp [froze.marked k (bound.leads here leads) leads, leads]
    · simp [froze.others k leads, leads]

def Answered (d : Draft) (key : Nat) : Prop :=
  ∀ k p, d.LeadsBack key k → (d.node k).prev = some p → (d.node p).next = some k

theorem Answered.leads (answered : d.Answered key) {k : Nat} (back : d.LeadsBack key k) : d.Leads k key := by
  induction back with
  | refl => exact .refl
  | tail before prev ih => exact Relation.ReflTransGen.head (answered _ _ before prev) ih

end Draft

namespace NodeRef

theorem freezeMarks (sound : w.Sound) (here : n.Inside w) : ∃ w', n.freeze.run w = (.ok n, w') ∧
    (∀ j, j ≠ n.draft → w'.draftAt j = w.draftAt j) ∧
    (w.draftAt n.draft).Marks ((w.draftAt n.draft).head n.key) (w'.draftAt n.draft) ∧
    ((w.draftAt n.draft).Leads ((w.draftAt n.draft).head n.key) n.key →
      ∀ k, (w.draftAt n.draft).Leads n.key k → ((w'.draftAt n.draft).node k).frozen = true) ∧
    ((w.draftAt n.draft).Answered n.key → (w.draftAt n.draft).Leads ((w.draftAt n.draft).head n.key) n.key) := by
  have bound := (sound n.draft).bound
  have marks := bound.freezeChain (bound.head here)
  have changed := Calls.draftAtChanged w n.draft n.draft fun d => d.freezeChain (d.head n.key)
  rw [if_pos ⟨rfl, here.drafted⟩] at changed
  refine ⟨_, rfl, fun j other => ?_, changed ▸ marks, fun onChain k leads => ?_, fun answered => ?_⟩
  · exact (Calls.draftAtChanged w n.draft j _).trans (if_neg (by simp [other]))
  · exact ((changed ▸ marks).frozen k).mpr (.inr (onChain.trans leads))
  · exact answered.leads ((w.draftAt n.draft).headReached n.key)

/- An oak with an elm behind it. The copy of the elm has the oak before it as well, but the oak does not lead to it. -/
def grove : Workshop := (Machine.after Machine.passDepth {} [
  .mk none none (some "oak") (.newNamed "oak"),
  .mk (some "oak") none (some "elm") (.joinNamed "elm"),
  .mk (some "elm") none none .clone]).workshop

theorem groveSound : grove.Sound := (Machine.afterSound _ _ _).drafts

theorem groveAnswered : (grove.draftAt 0).Answered 1 := by
  have elmBehind : ((grove.draftAt 0).node 1).prev = some 0 := rfl
  have oakFirst : ((grove.draftAt 0).node 0).prev = none := rfl
  have both : ∀ k, (grove.draftAt 0).LeadsBack 1 k → k = 1 ∨ k = 0 := fun k back => by
    induction back with
    | refl => exact .inl rfl
    | tail _ prev ih =>
      rcases ih with rfl | rfl
      · exact .inr (Option.some.inj (prev.symm.trans elmBehind))
      · cases prev.symm.trans oakFirst
  intro k p back prev
  rcases both k back with rfl | rfl
  · cases Option.some.inj (prev.symm.trans elmBehind)
    rfl
  · cases prev.symm.trans oakFirst

theorem elmFreezesOak : grove.Sound ∧ (⟨0, 1⟩ : NodeRef).Inside grove ∧ (grove.draftAt 0).Answered 1 ∧
    ∃ w', (⟨0, 1⟩ : NodeRef).freeze.run grove = (.ok ⟨0, 1⟩, w') ∧
      ((w'.draftAt 0).node 0).frozen = true ∧ ((w'.draftAt 0).node 1).frozen = true := by
  have inside : (⟨0, 1⟩ : NodeRef).Inside grove := by
    show 1 < (grove.draftAt 0).nodes.size
    decide
  obtain ⟨w', ran, _, marks, whole, answered⟩ := freezeMarks groveSound inside
  have onChain := answered groveAnswered
  exact ⟨groveSound, inside, groveAnswered, w', ran, (marks.frozen 0).mpr (.inr .refl), whole onChain 1 .refl⟩

theorem freezePassesCopyOver : ¬ ∀ (depth : Nat) (config : Config) (program : List Step) (n : NodeRef),
    n.Inside (Machine.after depth config program).workshop →
    ∀ k, ((Machine.after depth config program).workshop.draftAt n.draft).Leads n.key k →
      (((n.freeze.run (Machine.after depth config program).workshop).2.draftAt n.draft).node k).frozen = true := by
  intro claim
  have copy : (⟨0, 2⟩ : NodeRef).Inside grove := by
    show 2 < (grove.draftAt 0).nodes.size
    decide
  have unfrozen : ((((⟨0, 2⟩ : NodeRef).freeze.run grove).2.draftAt 0).node 2).frozen = false := rfl
  have frozen := claim _ _ _ ⟨0, 2⟩ copy 2 .refl
  cases unfrozen.symm.trans frozen

end NodeRef
end Dialogue
