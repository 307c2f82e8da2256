import Dialogue.Proofs.Workshop.Templates
import Dialogue.Proofs.Workshop.Passing

/-! Rewiring. A link gives a successor or a rule to one node and leaves every other as it was, but for where it comes
from; copies that it makes are new nodes. So what a node leads to after many links is told by the links that are its
own. -/
namespace Dialogue
variable {w w' : Workshop} {i : Nat} {n target : NodeRef} {m m' : Machine} {link : Deferred}

namespace Draft
variable {d d' d'' : Draft} {key : Nat} {led ruled : Nat → Prop}

structure Rewires (led ruled : Nat → Prop) (d d' : Draft) : Prop where
  grows : d.nodes.size ≤ d'.nodes.size
  frozen : ∀ k < d.nodes.size, (d'.node k).frozen = (d.node k).frozen
  template : ∀ k < d.nodes.size, (d'.node k).template = (d.node k).template
  next : ∀ k < d.nodes.size, ¬ led k → (d'.node k).next = (d.node k).next
  rules : ∀ k < d.nodes.size, ¬ ruled k → (d'.node k).rules = (d.node k).rules

namespace Rewires

theorem trans (first : d.Rewires led ruled d') (second : d'.Rewires led ruled d'') : d.Rewires led ruled d'' where
  grows := Nat.le_trans first.grows second.grows
  frozen := fun k old => (second.frozen k (Nat.lt_of_lt_of_le old first.grows)).trans (first.frozen k old)
  template := fun k old => (second.template k (Nat.lt_of_lt_of_le old first.grows)).trans (first.template k old)
  next := fun k old apart => (second.next k (Nat.lt_of_lt_of_le old first.grows) apart).trans (first.next k old apart)
  rules := fun k old apart => (second.rules k (Nat.lt_of_lt_of_le old first.grows) apart).trans (first.rules k old apart)

theorem ofExtends (more : d.Extends d') : d.Rewires led ruled d' where
  grows := more.nodes
  frozen := fun k old => by rw [more.node k old]
  template := fun k old => by rw [more.node k old]
  next := fun k old _ => by rw [more.node k old]
  rules := fun k old _ => by rw [more.node k old]

theorem sameNodes (nodes : d'.nodes = d.nodes) : d.Rewires led ruled d' where
  grows := by rw [nodes]
  frozen := fun k _ => by rw [node, nodes, node]
  template := fun k _ => by rw [node, nodes, node]
  next := fun k _ _ => by rw [node, nodes, node]
  rules := fun k _ _ => by rw [node, nodes, node]

theorem changeNode {f : DraftNode → DraftNode} (frozen : ∀ r, (f r).frozen = r.frozen)
    (template : ∀ r, (f r).template = r.template) (next : ¬ led key → ∀ r, (f r).next = r.next)
    (rules : ¬ ruled key → ∀ r, (f r).rules = r.rules) : d.Rewires led ruled (d.changeNode key f) where
  grows := by rw [nodesChangeNode]
  frozen := fun k _ => by
    rw [nodeChangeNode]
    split
    · exact frozen _
    · rfl
  template := fun k _ => by
    rw [nodeChangeNode]
    split
    · exact template _
    · rfl
  next := fun k _ apart => by
    rw [nodeChangeNode]
    split
    · rename_i here
      exact next (here.1 ▸ apart) _
    · rfl
  rules := fun k _ apart => by
    rw [nodeChangeNode]
    split
    · rename_i here
      exact rules (here.1 ▸ apart) _
    · rfl

theorem linked (own : led key) (target : Nat) : d.Rewires led ruled (d.linked key target) := by
  have back : d.Rewires led ruled (d.changeNode target fun n => { n with prev := some key }) :=
    changeNode (fun _ => rfl) (fun _ => rfl) (fun _ _ => rfl) fun _ _ => rfl
  exact back.trans (changeNode (fun _ => rfl) (fun _ => rfl) (fun apart => absurd own apart) fun _ _ => rfl)

end Rewires

structure Retains (d d' : Draft) : Prop where
  grows : d.nodes.size ≤ d'.nodes.size
  frozen : ∀ k < d.nodes.size, (d.node k).frozen = true → (d'.node k).frozen = true
  template : ∀ k < d.nodes.size, (d'.node k).template = (d.node k).template

theorem Rewires.retains (rewires : d.Rewires led ruled d') : d.Retains d' where
  grows := rewires.grows
  frozen := fun k old frozen => (rewires.frozen k old).trans frozen
  template := rewires.template

namespace Retains

theorem refl (d : Draft) : d.Retains d := ⟨Nat.le_refl _, fun _ _ => id, fun _ _ => rfl⟩

theorem trans (first : d.Retains d') (second : d'.Retains d'') : d.Retains d'' where
  grows := Nat.le_trans first.grows second.grows
  frozen := fun k old frozen => second.frozen k (Nat.lt_of_lt_of_le old first.grows) (first.frozen k old frozen)
  template := fun k old => (second.template k (Nat.lt_of_lt_of_le old first.grows)).trans (first.template k old)

theorem ofEdit (edit : Edit d d') : d.Retains d' := by
  have all : ∀ {d' : Draft}, d.Rewires (fun _ => True) (fun _ => True) d' → d.Retains d' := Rewires.retains
  have one : ∀ {f : DraftNode → DraftNode} {key : Nat}, (∀ n, (f n).frozen = n.frozen) →
      (∀ n, (f n).template = n.template) → d.Retains (d.changeNode key f) := fun frozen template =>
    all (.changeNode frozen template (fun apart => absurd trivial apart) fun apart => absurd trivial apart)
  cases edit with
  | node name => exact all (.ofExtends (.addNode d name))
  | copy => exact all (.ofExtends (.cloneNode d _ _))
  | register name => exact all (.sameNodes (nodesRegister d _ name))
  | action | detail | lead | parent | lock | defer | take | release => exact all (.sameNodes rfl)
  | content only => exact one (fun n => by rw [only n]) fun n => by rw [only n]
  | rule | attach | next | prev => exact one (fun _ => rfl) fun _ => rfl
  | freeze =>
    rename_i key
    refine ⟨by rw [nodesChangeNode], fun k _ frozen => ?_, fun k _ => ?_⟩
    · rw [nodeChangeNode]
      split
      · rfl
      · exact frozen
    · rw [nodeChangeNode]
      split <;> rfl

theorem ofEdits (edits : Edits d d') : d.Retains d' := by
  induction edits with
  | refl => exact .refl d
  | tail _ edit ih => exact ih.trans (ofEdit edit)

end Retains

structure Stands (d : Draft) (target k : Nat) : Prop where
  there : target < d.nodes.size
  here : k < d.nodes.size
  which : k = target ∨ (d.node k).template = some target
  itself : (d.node target).frozen = false → k = target

theorem Stands.later {target k : Nat} (stands : d.Stands target k) (retains : d.Retains d') : d'.Stands target k where
  there := Nat.lt_of_lt_of_le stands.there retains.grows
  here := Nat.lt_of_lt_of_le stands.here retains.grows
  which := stands.which.imp_right fun copy => (retains.template k stands.here).trans copy
  itself := fun unfrozen => stands.itself <| Bool.eq_false_iff.mpr fun frozen =>
    Bool.eq_false_iff.mp unfrozen (retains.frozen target stands.there frozen)

end Draft

variable {led ruled : Nat → Prop}

theorem Workshop.Links.rewires {key : Nat} (links : w.Links n target key w') (sound : w.Sound) (here : n.Inside w)
    (there : target.Inside w) (own : target.draft = n.draft) (mine : led n.key) :
    (w.draftAt n.draft).Rewires led ruled (w'.draftAt n.draft) ∧
    ((w'.draftAt n.draft).node n.key).next = some key ∧ (w'.draftAt n.draft).Stands target.key key := by
  obtain ⟨j, start⟩ := target
  obtain rfl : j = n.draft := own
  obtain ⟨opened, rfl, linked⟩ | ⟨frozen, rfl, linked⟩ := links
  · have rewires : (w.draftAt n.draft).Rewires led ruled (w'.draftAt n.draft) := linked ▸ .linked mine key
    have stands : (w.draftAt n.draft).Stands key key := ⟨there, there, .inl rfl, fun _ => rfl⟩
    refine ⟨rewires, ?_, stands.later rewires.retains⟩
    rw [linked, Draft.nextLinked here, if_pos rfl]
  · obtain ⟨edits, copied⟩ := Draft.cloneChainEdits (sound n.draft).bound there
    rw [Draft.cloneChainKey] at copied
    have second : ((w.draftAt n.draft).cloneChain start).1.Rewires led ruled (w'.draftAt n.draft) :=
      linked ▸ .linked mine _
    have rewires := (Draft.Rewires.ofExtends (Draft.cloneChainExtends (w.draftAt n.draft) start)).trans second
    have still := rewires.frozen start there
    refine ⟨rewires, ?_, Nat.lt_of_lt_of_le there rewires.grows, Nat.lt_of_lt_of_le copied second.grows, ?_, ?_⟩
    · rw [linked, Draft.nextLinked (Nat.lt_of_lt_of_le here edits.nodesGrow), if_pos rfl]
    · exact .inr (by rw [second.template _ copied, Draft.cloneChainTemplate])
    · exact fun unfrozen => absurd (still.symm.trans unfrozen) frozen

abbrev Rewiring {α : Type} (led ruled : Nat → Prop) (i : Nat) (w : Workshop) (call : Authoring α)
    (post : α → Workshop → Prop) : Prop :=
  Outcome w call (fun a w' => (w.draftAt i).Rewires led ruled (w'.draftAt i) ∧ post a w') fun _ _ => True

namespace Rewiring

theorem setNext (sound : w.Sound) (here : n.Of i w) (there : target.Inside w) (mine : led n.key) :
    Rewiring led ruled i w (n.setNext target) fun k w' => w.Evolves i w' ∧ k.Of i w' ∧
      ((w'.draftAt i).node n.key).next = some k.key ∧ (w'.draftAt i).Stands target.key k.key := by
  obtain ⟨rfl, here⟩ := here
  refine ((Tending.setNextLinks here there).both (Calls.setNext sound ⟨rfl, here⟩ there)).weaken ?_ fun _ _ => id
  rintro k w' ⟨step, given, own, links⟩
  obtain ⟨rewires, next, stands⟩ := links.rewires sound here there own mine
  exact ⟨rewires, step, given, next, stands⟩

theorem pushRule (here : n.Of i w) (condition : Condition) : Outcome w (n.pushRule condition target) (fun _ w' =>
    w'.draftAt i = (w.draftAt i).changeNode n.key fun r => { r with rules := r.rules ++ [⟨condition, target.key⟩] })
    fun _ _ => True := by
  obtain ⟨rfl, here⟩ := here
  exact (Checked.changeDraft here.drafted).weaken (fun _ _ changed => changed.here) fun _ _ => id

theorem splice (sound : w.Sound) (here : n.Of i w) (there : target.Inside w) :
    Rewiring (fun _ => True) ruled i w (n.splice target) fun _ _ => True := by
  unfold NodeRef.splice
  refine Checked.nodeRecord ?_
  split
  · exact .throw trivial
  · rename_i key leads
    obtain ⟨rfl, inside⟩ := here
    have previous : (⟨n.draft, key⟩ : NodeRef).Inside w := ((sound n.draft).bound.nodes n.key).next key leads
    have linked : Rewiring (fun _ => True) ruled n.draft w (n.setNext target) _ :=
      setNext sound ⟨rfl, inside⟩ there trivial
    refine linked.bind fun m w₁ ⟨first, step, given, _⟩ => ?_
    have told : ∀ w₂ : Workshop, (w.draftAt n.draft).Rewires (fun _ => True) ruled (w₂.draftAt n.draft) → Outcome w₂ (do
        Authoring.tell [.returning (← n.record).id (← m.record).id (← (⟨n.draft, key⟩ : NodeRef).record).id]
        return n) (fun _ w' => (w.draftAt n.draft).Rewires (fun _ => True) ruled (w'.draftAt n.draft) ∧ True)
        fun _ _ => True := fun w₂ rewires => ⟨rewires, trivial⟩
    refine Checked.draftAt ?_
    dsimp only
    split
    · rename_i last ends
      have lastInside : (⟨n.draft, last⟩ : NodeRef).Inside w₁ :=
        (step.sound sound n.draft).bound.tailBefore (given.1 ▸ given.2) ends
      have closed : Rewiring (fun _ => True) ruled n.draft w₁ ((⟨n.draft, last⟩ : NodeRef).setNext ⟨n.draft, key⟩) _ :=
        setNext (step.sound sound) ⟨rfl, lastInside⟩ (previous.later step) trivial
      exact closed.bind fun _ w₂ ⟨second, _⟩ => told w₂ (first.trans second)
    · exact told w₁ first

theorem actionSetNext {a : ActionRef} (own : a.draft = i) (there : target.Inside w) :
    Rewiring led ruled i w (a.setNext target) fun _ _ => True := by
  subst own
  unfold ActionRef.setNext
  refine Checked.after (Checked.nodeOfDraft target a.draft) fun _ own => ?_
  refine (Checked.linkable there).bind fun m w₁ ⟨_, _, which⟩ => ?_
  have copied : (w.draftAt a.draft).Rewires led ruled (w₁.draftAt a.draft) := by
    rcases which with ⟨_, rfl⟩ | ⟨_, _, changed⟩
    · exact .sameNodes rfl
    · rw [← own, changed.here]
      exact .ofExtends (Draft.cloneChainExtends _ _)
  have changed : Rewiring led ruled a.draft w₁ (a.change fun r => { r with next := some m.key }) fun _ _ => True := by
    refine ⟨?_, trivial⟩
    rw [Calls.draftAtChanged]
    split <;> exact .sameNodes rfl
  exact changed.bind fun _ w₂ ⟨further, _⟩ => ⟨copied.trans further, trivial⟩

end Rewiring
end Dialogue
