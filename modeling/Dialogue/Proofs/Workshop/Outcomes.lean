import Dialogue.Proofs.Workshop.Copies
import Dialogue.Proofs.Workshop.Requests

/-! How calls end. Where it matters what a refused call leaves done, the state that it ends in is told apart from the
state that a successful call ends in. What can refuse a call is one of a few checks, and each of them leaves the state
as it found it; what comes before a check in the same call is what the call may leave behind. -/
namespace Dialogue

section Generic
variable {ε σ α β : Type} {R : σ → σ → Prop} {failed : ε → Prop} {s : σ} {x : ExceptT ε (StateM σ) α}
  {f : α → ExceptT ε (StateM σ) β} {mid mid' : α → σ → Prop} {last : β → σ → Prop} {refused refused' : ε → σ → Prop}

def Outcome (s : σ) (x : ExceptT ε (StateM σ) α) (returned : α → σ → Prop) (refused : ε → σ → Prop) : Prop :=
  match x.run s with
  | (.ok a, s') => returned a s'
  | (.error e, s') => refused e s'

namespace Outcome

theorem pure {a : α} (holds : mid a s) : Outcome s (Pure.pure a : ExceptT ε (StateM σ) α) mid refused := holds

theorem throw {e : ε} (holds : refused e s) : Outcome s (MonadExcept.throw e : ExceptT ε (StateM σ) α) mid refused :=
  holds

theorem bind (first : Outcome s x mid refused) (rest : ∀ a s', mid a s' → Outcome s' (f a) last refused) :
    Outcome s (x >>= f) last refused := by
  unfold Outcome at *
  rw [runBind]
  generalize x.run s = result at *
  obtain ⟨e | a, s'⟩ := result
  · exact first
  · exact rest a s' first

theorem throwBind {e : ε} (holds : refused e s) : Outcome s (MonadExcept.throw e >>= f) last refused := by
  have never : Outcome s (MonadExcept.throw e : ExceptT ε (StateM σ) α) (fun _ _ => False) refused := throw holds
  exact never.bind fun _ _ => False.elim

theorem weaken (first : Outcome s x mid refused) (returns : ∀ a s', mid a s' → mid' a s')
    (refuses : ∀ e s', refused e s' → refused' e s') : Outcome s x mid' refused' := by
  unfold Outcome at *
  generalize x.run s = result at *
  obtain ⟨e | a, s'⟩ := result
  · exact refuses e s' first
  · exact returns a s' first

theorem ran {a : α} {s' : σ} (outcome : Outcome s x mid refused) (ok : x.run s = (.ok a, s')) : mid a s' := by
  unfold Outcome at outcome
  rwa [ok] at outcome

theorem returns (outcome : Outcome s x mid fun _ _ => False) : ∃ a s', x.run s = (.ok a, s') ∧ mid a s' := by
  unfold Outcome at outcome
  generalize x.run s = result at *
  obtain ⟨e | a, s'⟩ := result
  · exact outcome.elim
  · exact ⟨a, s', rfl, outcome⟩

theorem meet (first : Outcome s x mid refused) (second : Outcome s x mid' refused') :
    Outcome s x (fun a s' => mid a s' ∧ mid' a s') fun e s' => refused e s' ∧ refused' e s' := by
  unfold Outcome at *
  generalize x.run s = result at *
  obtain ⟨e | a, s'⟩ := result
  · exact ⟨first, second⟩
  · exact ⟨first, second⟩

theorem both (first : Outcome s x mid' refused) (keeps : Keeps R failed s x mid) :
    Outcome s x (fun a s' => R s s' ∧ mid a s' ∧ mid' a s') refused := by
  unfold Outcome at *
  obtain ⟨kept, returned, _⟩ := keeps
  generalize x.run s = result at *
  obtain ⟨e | a, s'⟩ := result
  · exact first
  · exact ⟨kept, returned a rfl, first⟩

end Outcome

theorem Keeps.along (keeps : Keeps R failed s x mid) (outcome : Outcome s x mid' refused) :
    Keeps R failed s x fun a s' => mid a s' ∧ mid' a s' := by
  unfold Outcome at outcome
  unfold Keeps at *
  obtain ⟨kept, returned, failing⟩ := keeps
  generalize x.run s = result at *
  obtain ⟨e | a, s'⟩ := result
  · exact .error kept (failing e rfl)
  · exact .ok kept ⟨returned a rfl, outcome⟩

theorem Keeps.outcome (keeps : Keeps R failed s x mid) :
    Outcome s x (fun a s' => R s s' ∧ mid a s') fun e s' => R s s' ∧ failed e := by
  unfold Outcome
  unfold Keeps at keeps
  obtain ⟨kept, returned, failing⟩ := keeps
  generalize x.run s = result at *
  obtain ⟨e | a, s'⟩ := result
  · exact ⟨kept, failing e rfl⟩
  · exact ⟨kept, returned a rfl⟩

end Generic

structure Workshop.Becomes (i : Nat) (d : Draft) (w w' : Workshop) : Prop where
  drafts : w'.drafts.size = w.drafts.size
  here : w'.draftAt i = d
  others : ∀ j, j ≠ i → w'.draftAt j = w.draftAt j

namespace Workshop.Becomes
variable {i : Nat} {d d' : Draft} {w w' w'' : Workshop}

theorem same (drafts : w'.drafts = w.drafts) : Becomes i (w.draftAt i) w w' where
  drafts := by rw [drafts]
  here := draftAtStill drafts i
  others := fun j _ => draftAtStill drafts j

theorem trans (first : Becomes i d w w') (second : Becomes i d' w' w'') : Becomes i d' w w'' where
  drafts := second.drafts.trans first.drafts
  here := second.here
  others := fun j other => (second.others j other).trans (first.others j other)

theorem still (first : Becomes i d w w') (drafts : w''.drafts = w'.drafts) : Becomes i d w w'' :=
  first.trans (first.here ▸ same drafts)

end Workshop.Becomes

abbrev Checked {α : Type} (w : Workshop) (call : Authoring α) (returned : α → Workshop → Prop)
    (refused : AuthoringError → Prop) : Prop := Outcome w call returned fun e w' => w' = w ∧ refused e

theorem Keeps.checked {α : Type} {R : Workshop → Workshop → Prop} [IsPreorder Workshop R] {w : Workshop}
    {call : Authoring α} {given : α → Prop} {refused : AuthoringError → Prop}
    (first : Checked w call (fun a w' => w' = w ∧ given a) refused) :
    Keeps R (fun _ => True) w call fun a w' => w = w' ∧ given a := by
  unfold Checked Outcome at first
  unfold Keeps
  generalize call.run w = result at *
  obtain ⟨e | a, w'⟩ := result
  · obtain ⟨rfl, _⟩ := first
    exact .error (refl_of _ _) trivial
  · obtain ⟨rfl, holds⟩ := first
    exact .ok (refl_of _ _) ⟨rfl, holds⟩

theorem Keeps.after {α β : Type} {R : Workshop → Workshop → Prop} [IsPreorder Workshop R] {w : Workshop}
    {call : Authoring α} {rest : α → Authoring β} {given : α → Prop} {refused : AuthoringError → Prop}
    {post : β → Workshop → Prop} (first : Checked w call (fun a w' => w' = w ∧ given a) refused)
    (then_ : ∀ a, given a → Keeps R (fun _ => True) w (rest a) post) :
    Keeps R (fun _ => True) w (call >>= rest) post := by
  refine (checked first).bind ?_
  rintro a _ _ ⟨rfl, holds⟩
  exact then_ a holds

namespace Checked
variable {α β : Type} {i j : Nat} {w : Workshop} {n target : NodeRef} {a : ActionRef} {f : Draft → Draft}
  {returned : β → Workshop → Prop} {refused : AuthoringError → Workshop → Prop}

theorem draftAt {rest : Draft → Authoring β} (then_ : Outcome w (rest (w.draftAt j)) returned refused) :
    Outcome w (Authoring.draftAt j >>= rest) returned refused := by
  unfold Outcome at *
  rw [runBind]
  exact then_

theorem nodeRecord {rest : DraftNode → Authoring β}
    (then_ : Outcome w (rest ((w.draftAt n.draft).node n.key)) returned refused) :
    Outcome w (n.record >>= rest) returned refused := by
  unfold Outcome at *
  rw [runBind]
  exact then_

theorem actionRecord {rest : DraftAction → Authoring β}
    (then_ : Outcome w (rest ((w.draftAt a.draft).action a.key)) returned refused) :
    Outcome w (a.record >>= rest) returned refused := by
  unfold Outcome at *
  rw [runBind]
  exact then_

theorem tell (w : Workshop) (notices : List Notice) :
    Outcome w (Authoring.tell notices) (fun _ w' => w'.drafts = w.drafts) refused :=
  (rfl : w.drafts = w.drafts)

theorem changeDraft (inside : i < w.drafts.size) :
    Outcome w (Authoring.changeDraft i f) (fun _ w' => w.Becomes i (f (w.draftAt i)) w') refused := by
  refine ⟨by simp, ?_, fun j other => ?_⟩
  · exact (Calls.draftAtChanged w i i f).trans (if_pos ⟨rfl, inside⟩)
  · exact (Calls.draftAtChanged w i j f).trans (if_neg (by simp [other]))

theorem made {g : Draft → Draft × Nat × List Notice} (inside : i < w.drafts.size) : Outcome w (Authoring.made i g)
    (fun key w' => key = (g (w.draftAt i)).2.1 ∧ w.Becomes i (g (w.draftAt i)).1 w') refused := by
  unfold Authoring.made
  refine draftAt ?_
  refine (changeDraft inside).bind fun _ w₁ changed => ?_
  exact (tell w₁ _).bind fun _ w₂ same => .pure ⟨rfl, changed.still same⟩

theorem defer (link : Deferred) : Checked w (Authoring.defer i link) (fun _ _ => True) fun e =>
    (w.draftAt i).resolving = true ∧ e = .nestedContinuation ((w.draftAt i).deferredOn link) := by
  unfold Authoring.defer
  refine draftAt ?_
  dsimp only
  split
  · rename_i resolving
    exact .throwBind ⟨rfl, resolving, rfl⟩
  · exact (tell w _).bind fun _ _ _ => trivial

theorem defers (inside : i < w.drafts.size) (link : Deferred) : Outcome w (Authoring.defer i link) (fun _ w' =>
    w.Becomes i { w.draftAt i with pending := (w.draftAt i).pending ++ [link] } w') fun _ _ => True := by
  unfold Authoring.defer
  refine draftAt ?_
  dsimp only
  split
  · exact .throwBind trivial
  · refine (tell w _).bind fun _ w₁ same => ?_
    refine (changeDraft (same ▸ inside)).weaken (fun _ w₂ changed => ?_) fun _ _ => id
    have told : Workshop.Becomes i (w.draftAt i) w w₁ := .same same
    rw [told.here] at changed
    exact told.trans changed

theorem operator (token : String) : Checked w (Authoring.operator token)
    (fun op w' => w' = w ∧ Operator.ofToken? token = some op) fun e => e = .unsupportedOperator token := by
  unfold Authoring.operator
  split
  · rename_i op known
    exact .pure ⟨rfl, known⟩
  · exact .throw ⟨rfl, rfl⟩

theorem lookUp (name : String) : Checked w (Authoring.lookUp i name)
    (fun m w' => w' = w ∧ m.draft = i ∧ (w.draftAt i).names.get? name = some m.key)
    fun e => (w.draftAt i).names.get? name = none ∧ e = .unknownName name := by
  unfold Authoring.lookUp
  refine draftAt ?_
  split
  · rename_i key known
    exact .pure ⟨rfl, rfl, known⟩
  · rename_i unknown
    exact .throw ⟨rfl, unknown, rfl⟩

theorem nodeOfDraft (n : NodeRef) (i : Nat) :
    Checked w (n.ofDraft i) (fun _ w' => w' = w ∧ n.draft = i) fun e =>
      n.draft ≠ i ∧ e = .foreignBuilder ((w.draftAt n.draft).node n.key).id := by
  unfold NodeRef.ofDraft
  split
  · rename_i foreign
    exact nodeRecord (.throw ⟨rfl, foreign, rfl⟩)
  · rename_i own
    exact .pure ⟨rfl, Classical.not_not.mp own⟩

theorem actionOfDraft (a : ActionRef) (i : Nat) :
    Checked w (a.ofDraft i) (fun _ w' => w' = w ∧ a.draft = i) fun e =>
      a.draft ≠ i ∧ e = .foreignBuilder ((w.draftAt a.draft).action a.key).id := by
  unfold ActionRef.ofDraft
  split
  · rename_i foreign
    exact actionRecord (.throw ⟨rfl, foreign, rfl⟩)
  · rename_i own
    exact .pure ⟨rfl, Classical.not_not.mp own⟩

theorem actionWritable (a : ActionRef) (operation : String) : Checked w (a.writable operation)
    (fun _ w' => w' = w ∧ ((w.draftAt a.draft).action a.key).frozen = false) fun e =>
      ((w.draftAt a.draft).action a.key).frozen = true ∧
      e = .frozenAction ((w.draftAt a.draft).action a.key).id operation := by
  unfold ActionRef.writable
  refine actionRecord ?_
  split
  · rename_i frozen
    exact .throw ⟨rfl, frozen, rfl⟩
  · rename_i unfrozen
    exact .pure ⟨rfl, Bool.eq_false_iff.mpr unfrozen⟩

theorem linkOfDraft (link : Link) (i : Nat) : Checked w (NodeRef.linkOfDraft link i)
    (fun _ w' => w' = w ∧ ∀ target, link = .node target → target.draft = i) fun e =>
      ∃ target, link = .node target ∧ e = .foreignBuilder ((w.draftAt target.draft).node target.key).id := by
  cases link with
  | node target =>
    refine (nodeOfDraft target i).weaken ?_ ?_
    · rintro _ _ ⟨same, own⟩
      exact ⟨same, fun _ given => by cases given; exact own⟩
    · rintro _ _ ⟨same, _, foreign⟩
      exact ⟨same, target, rfl, foreign⟩
  | named | deferred => exact .pure ⟨rfl, fun _ given => by cases given⟩

theorem after {first : Authoring α} {rest : α → Authoring β} {given : α → Prop} {fault : AuthoringError → Prop}
    (checks : Checked w first (fun a w' => w' = w ∧ given a) fault)
    (then_ : ∀ a, given a → Outcome w (rest a) returned fun _ _ => True) :
    Outcome w (first >>= rest) returned fun _ _ => True := by
  refine (checks.weaken (fun _ _ => id) fun _ _ _ => trivial).bind ?_
  rintro a _ ⟨rfl, holds⟩
  exact then_ a holds

theorem clone (here : n.Inside w) : Outcome w n.clone (fun copy w' =>
    copy = ⟨n.draft, (w.draftAt n.draft).nodes.size⟩ ∧
    w.Becomes n.draft ((w.draftAt n.draft).cloneChain n.key).1 w') refused := by
  unfold NodeRef.clone
  refine (made here.drafted).bind fun key w₁ ⟨same, changed⟩ => .pure ⟨?_, changed⟩
  rw [same, Draft.cloneChainKey]

inductive Opened (w : Workshop) (n : NodeRef) : NodeRef → Workshop → Prop where
  | itself (unfrozen : ((w.draftAt n.draft).node n.key).frozen = false) : Opened w n n w
  | copy {w' : Workshop} (frozen : ((w.draftAt n.draft).node n.key).frozen = true)
      (policy : (w.draftAt n.draft).config.freezePolicy = .cloneOnWrite)
      (changed : w.Becomes n.draft ((w.draftAt n.draft).cloneChain n.key).1 w') :
      Opened w n ⟨n.draft, (w.draftAt n.draft).nodes.size⟩ w'

theorem writable (here : n.Inside w) (operation : String) : Checked w (n.writable operation) (Opened w n) fun e =>
    ((w.draftAt n.draft).node n.key).frozen = true ∧ (w.draftAt n.draft).config.freezePolicy = .strict ∧
    e = .frozen ((w.draftAt n.draft).node n.key).id operation := by
  unfold NodeRef.writable
  refine nodeRecord ?_
  split
  · rename_i frozen
    refine draftAt ?_
    split
    · rename_i policy
      exact .throw ⟨rfl, frozen, policy, rfl⟩
    · rename_i policy
      refine (clone here).bind fun copy w₁ ⟨same, changed⟩ => ?_
      refine nodeRecord ?_
      refine (tell w₁ _).bind fun _ w₂ told => ?_
      subst same
      exact .pure (.copy frozen policy (changed.still told))
  · rename_i unfrozen
    exact .pure (.itself (Bool.eq_false_iff.mpr unfrozen))

theorem linkable (here : target.Inside w) : Outcome w target.linkable (fun m w' =>
    m.draft = target.draft ∧ ((w'.draftAt m.draft).node m.key).frozen = false ∧
    (m = target ∧ w' = w ∨ ((w.draftAt target.draft).node target.key).frozen = true ∧
      m.key = (w.draftAt target.draft).nodes.size ∧
      w.Becomes target.draft ((w.draftAt target.draft).cloneChain target.key).1 w')) refused := by
  unfold NodeRef.linkable
  refine nodeRecord ?_
  split
  · rename_i frozen
    refine (clone here).weaken ?_ fun _ _ => id
    rintro _ w' ⟨rfl, changed⟩
    refine ⟨rfl, ?_, .inr ⟨frozen, rfl, changed⟩⟩
    rw [changed.here]
    exact Draft.cloneChainUnfrozen _ _ (Nat.le_refl _)
  · rename_i unfrozen
    exact .pure ⟨rfl, Bool.eq_false_iff.mpr unfrozen, .inl ⟨rfl, rfl⟩⟩

theorem setNext (here : n.Inside w) (there : target.Inside w) : Checked w (n.setNext target) (fun _ _ => True) fun _ =>
    target.draft ≠ n.draft ∨ target.key = n.key := by
  unfold NodeRef.setNext
  refine Outcome.bind (Outcome.weaken (nodeOfDraft target n.draft) (fun _ _ => id) ?_) ?_
  · exact fun _ _ ⟨same, foreign, _⟩ => ⟨same, .inl foreign⟩
  rintro _ _ ⟨rfl, own⟩
  refine (linkable there).bind fun m w₁ ⟨_, _, which⟩ => ?_
  dsimp only
  split
  · rename_i same
    rcases which with ⟨rfl, rfl⟩ | ⟨_, new, _⟩
    · exact nodeRecord (.throwBind ⟨rfl, .inr same⟩)
    · rw [NodeRef.Inside, ← own] at here
      exact absurd (new.symm.trans same) (Nat.ne_of_gt here)
  · exact trivial

theorem actionSetNext (a : ActionRef) (target : NodeRef) : Checked w (a.setNext target) (fun _ _ => True) fun _ =>
    target.draft ≠ a.draft := by
  have linked : ∀ w' : Workshop, Outcome w' target.linkable (fun _ _ => True) fun _ _ => False := fun w' => by
    unfold NodeRef.linkable
    refine nodeRecord ?_
    split <;> trivial
  unfold ActionRef.setNext
  refine Outcome.bind (Outcome.weaken (nodeOfDraft target a.draft) (fun _ _ => id) ?_) fun _ w' _ => ?_
  · exact fun _ _ ⟨same, foreign, _⟩ => ⟨same, foreign⟩
  · exact ((linked w').weaken (fun _ _ => id) fun _ _ => False.elim).bind fun _ _ _ => trivial

/- Only what is asked of the node itself can refuse a splice. The second link leads from the end of a chain to a node
that is not on it, so no node to itself. -/
theorem splice (sound : w.Sound) (here : n.Inside w) (there : target.Inside w) :
    Checked w (n.splice target) (fun _ _ => True) fun e =>
      ((w.draftAt n.draft).node n.key).next = none ∧
        e = .missingSuccessor ((w.draftAt n.draft).node n.key).id ∨
      target.draft ≠ n.draft ∨ target.key = n.key := by
  unfold NodeRef.splice
  refine nodeRecord ?_
  split
  · rename_i nowhere
    exact .throw ⟨rfl, .inl ⟨nowhere, rfl⟩⟩
  · rename_i key leads
    have previous : (⟨n.draft, key⟩ : NodeRef).Inside w := ((sound n.draft).bound.nodes n.key).next key leads
    have linked := (setNext here there).both (Calls.setNext sound ⟨rfl, here⟩ there)
    refine (linked.weaken (fun _ _ => id) fun _ _ ⟨same, why⟩ => ⟨same, .inr why⟩).bind fun m w₁ ⟨step, given, _⟩ => ?_
    refine draftAt ?_
    dsimp only
    split
    · rename_i last ends
      have bound := (step.sound sound n.draft).bound
      have inside : m.key < (w₁.draftAt n.draft).nodes.size := given.1 ▸ given.2
      have lastInside : (⟨n.draft, last⟩ : NodeRef).Inside w₁ := bound.tailBefore inside ends
      refine ((setNext lastInside (previous.later step)).weaken (fun _ _ => id) ?_).bind fun _ _ _ => trivial
      rintro _ _ ⟨_, foreign | same⟩
      · exact absurd rfl foreign
      · exact absurd same.symm (Draft.tailBeforeApart ends).2
    · exact trivial

end Checked
end Dialogue
