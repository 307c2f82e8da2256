import Dialogue.Workshop.View
import Dialogue.Proofs.Workshop.Chains
import Dialogue.Proofs.Workshop.Keeping

/-! Authoring calls. A call concerns one draft: it changes that draft by a sequence of changes and leaves all others
as they are, also where it is refused half way. The handles it answers with belong to the draft. -/
namespace Dialogue

structure Workshop.Evolves (i : Nat) (w w' : Workshop) : Prop where
  drafts : w'.drafts.size = w.drafts.size
  others : ∀ j, j ≠ i → w'.draftAt j = w.draftAt j
  edits : Draft.Edits (w.draftAt i) (w'.draftAt i)

def Workshop.Sound (w : Workshop) : Prop := ∀ i, (w.draftAt i).Made

def NodeRef.Inside (w : Workshop) (n : NodeRef) : Prop := n.key < (w.draftAt n.draft).nodes.size

def ActionRef.Inside (w : Workshop) (a : ActionRef) : Prop := a.key < (w.draftAt a.draft).actions.size

variable {i j : Nat} {w w' : Workshop} {n target : NodeRef} {a : ActionRef} {α : Type}

namespace Workshop.Evolves

instance : IsPreorder Workshop (Workshop.Evolves i) where
  refl := fun _ => ⟨rfl, fun _ _ => rfl, .refl⟩
  trans := fun _ _ _ first second =>
    ⟨second.drafts.trans first.drafts, fun j other => (second.others j other).trans (first.others j other),
      first.edits.trans second.edits⟩

theorem editsAt (step : Evolves i w w') (j : Nat) : Draft.Edits (w.draftAt j) (w'.draftAt j) := by
  by_cases same : j = i
  · exact same ▸ step.edits
  · rw [step.others j same]
    exact .refl

theorem sound (step : Evolves i w w') (sound : w.Sound) : w'.Sound := fun j => (sound j).later (step.editsAt j)

end Workshop.Evolves

theorem NodeRef.Inside.later (here : n.Inside w) (step : w.Evolves i w') : n.Inside w' :=
  Nat.lt_of_lt_of_le here (step.editsAt n.draft).nodesGrow

theorem ActionRef.Inside.later (here : a.Inside w) (step : w.Evolves i w') : a.Inside w' :=
  Nat.lt_of_lt_of_le here (step.editsAt a.draft).actionsGrow

theorem Workshop.draftAtStill (drafts : w'.drafts = w.drafts) (i : Nat) : w'.draftAt i = w.draftAt i := by
  rw [draftAt, drafts, draftAt]

theorem Workshop.draftAtOutside (outside : w.drafts.size ≤ i) : w.draftAt i = default := by
  simp [Workshop.draftAt, outside]

theorem NodeRef.Inside.drafted (here : n.Inside w) : n.draft < w.drafts.size := by
  by_cases inside : n.draft < w.drafts.size
  · exact inside
  · rw [NodeRef.Inside, Workshop.draftAtOutside (Nat.le_of_not_lt inside)] at here
    exact absurd here (Nat.not_lt_zero _)

theorem ActionRef.Inside.drafted (here : a.Inside w) : a.draft < w.drafts.size := by
  by_cases inside : a.draft < w.drafts.size
  · exact inside
  · rw [ActionRef.Inside, Workshop.draftAtOutside (Nat.le_of_not_lt inside)] at here
    exact absurd here (Nat.not_lt_zero _)

def NodeRef.Of (i : Nat) (n : NodeRef) (w : Workshop) : Prop := n.draft = i ∧ n.Inside w

def ActionRef.Of (i : Nat) (a : ActionRef) (w : Workshop) : Prop := a.draft = i ∧ a.Inside w

theorem NodeRef.Of.later (here : n.Of i w) (step : w.Evolves i w') : n.Of i w' := ⟨here.1, here.2.later step⟩

theorem ActionRef.Of.later (here : a.Of i w) (step : w.Evolves i w') : a.Of i w' := ⟨here.1, here.2.later step⟩

namespace Keeps
variable {β : Type} {R : Workshop → Workshop → Prop} {failed : AuthoringError → Prop} {post : β → Workshop → Prop}

theorem draftAt {rest : Draft → Authoring β} (then_ : Keeps R failed w (rest (w.draftAt j)) post) :
    Keeps R failed w (Authoring.draftAt j >>= rest) post := by
  unfold Keeps at *
  rw [runBind]
  exact then_

theorem nodeRecord {rest : DraftNode → Authoring β}
    (then_ : Keeps R failed w (rest ((w.draftAt n.draft).node n.key)) post) :
    Keeps R failed w (n.record >>= rest) post := by
  unfold Keeps at *
  rw [runBind]
  exact then_

theorem actionRecord {rest : DraftAction → Authoring β}
    (then_ : Keeps R failed w (rest ((w.draftAt a.draft).action a.key)) post) :
    Keeps R failed w (a.record >>= rest) post := by
  unfold Keeps at *
  rw [runBind]
  exact then_

end Keeps

abbrev Calls (i : Nat) (w : Workshop) (call : Authoring α) (post : α → Workshop → Prop) : Prop :=
  Keeps (Workshop.Evolves i) (fun _ => True) w call post

namespace Calls
variable {β : Type} {f : Draft → Draft} {post : β → Workshop → Prop}

theorem tell (i : Nat) (w : Workshop) (notices : List Notice) : Calls i w (Authoring.tell notices) fun _ w' =>
    ∀ j, w'.draftAt j = w.draftAt j :=
  .ok ⟨rfl, fun _ _ => rfl, .refl⟩ fun _ => rfl

theorem draftAtChanged (w : Workshop) (i j : Nat) (f : Draft → Draft) :
    Workshop.draftAt { w with drafts := w.drafts.modify i f } j =
      if j = i ∧ i < w.drafts.size then f (w.draftAt j) else w.draftAt j := by
  simp only [Workshop.draftAt, Array.getElem?_modify]
  by_cases same : i = j
  · subst same
    by_cases inside : i < w.drafts.size
    · simp [inside]
    · simp [inside]
  · simp [same, Ne.symm same]

theorem changeDraft (edits : Draft.Edits (w.draftAt i) (f (w.draftAt i))) :
    Calls i w (Authoring.changeDraft i f) fun _ w' => i < w.drafts.size → w'.draftAt i = f (w.draftAt i) := by
  refine .ok ⟨by simp, ?_, ?_⟩ ?_
  · intro j other
    rw [draftAtChanged, if_neg (by simp [other])]
  · rw [draftAtChanged]
    split
    · exact edits
    · exact .refl
  · intro inside
    rw [draftAtChanged, if_pos ⟨rfl, inside⟩]

theorem made {g : Draft → Draft × Nat × List Notice} (inside : i < w.drafts.size)
    (edits : Draft.Edits (w.draftAt i) (g (w.draftAt i)).1) :
    Calls i w (Authoring.made i g) fun key w' => key = (g (w.draftAt i)).2.1 ∧ w'.draftAt i = (g (w.draftAt i)).1 := by
  unfold Authoring.made
  refine Keeps.draftAt ?_
  refine (changeDraft edits).bind fun _ w₁ _ changed => ?_
  refine (tell i w₁ _).bind fun _ w₂ _ same => ?_
  exact .pure ⟨rfl, (same i).trans (changed inside)⟩

theorem defer {link : Deferred} (within : link.Within (w.draftAt i).nodes.size (w.draftAt i).actions.size) :
    Calls i w (Authoring.defer i link) fun _ _ => True := by
  unfold Authoring.defer
  refine Keeps.draftAt ?_
  dsimp only
  split
  · exact .throwBind trivial
  · refine (tell i w _).bind fun _ w₁ _ same => ?_
    refine (changeDraft (.one (.defer ?_))).weaken fun _ _ _ _ => trivial
    rw [same i]
    exact within

theorem deferOn (here : n.Of i w) {link : Deferred} (on : link.node? = some n.key) :
    Calls i w (do Authoring.defer n.draft link; return n) (NodeRef.Of i) := by
  obtain ⟨rfl, here⟩ := here
  exact (defer (.ofNode on here)).bind fun _ _ step _ => .pure ⟨rfl, here.later step⟩

theorem deferOnAction (here : a.Of i w) {link : Deferred}
    (on : ∀ nodes actions, a.key < actions → link.Within nodes actions) :
    Calls i w (do Authoring.defer i link; return a) (ActionRef.Of i) := by
  obtain ⟨rfl, here⟩ := here
  exact (defer (on _ _ here)).bind fun _ _ step _ => .pure ⟨rfl, here.later step⟩

theorem operator (i : Nat) (w : Workshop) (token : String) :
    Calls i w (Authoring.operator token) fun _ w' => w = w' := by
  unfold Authoring.operator
  split
  · exact .pure rfl
  · exact .throw trivial

theorem lookUp (sound : w.Sound) (name : String) :
    Calls i w (Authoring.lookUp j name) fun n w' => w = w' ∧ n.draft = j ∧ n.Inside w := by
  unfold Authoring.lookUp
  refine Keeps.draftAt ?_
  split
  · rename_i key registered
    exact .pure ⟨rfl, rfl, (sound j).bound.names name key registered⟩
  · exact .throw trivial

theorem getNamed (sound : w.Sound) (name : String) : Calls i w (Authoring.lookUp i name) (NodeRef.Of i) := by
  refine (lookUp sound name).weaken fun n _ _ ⟨same, found, there⟩ => ?_
  subst same
  exact ⟨found, there⟩

theorem paced (i : Nat) (w : Workshop) (fragments : List Fragment) :
    Calls i w (Authoring.paced j fragments) fun _ _ => True := by
  unfold Authoring.paced
  refine (tell i w _).bind fun _ w₁ _ _ => ?_
  exact Keeps.draftAt (.pure trivial)

theorem changeNode {g : DraftNode → DraftNode} (own : n.draft = i)
    (edit : Draft.Edit (w.draftAt i) ((w.draftAt i).changeNode n.key g)) : Calls i w (n.change g) fun _ _ => True := by
  subst own
  exact (changeDraft (.one edit)).weaken fun _ _ _ _ => trivial

theorem changeAction {g : DraftAction → DraftAction} (own : a.draft = i)
    (edit : Draft.Edit (w.draftAt i) ((w.draftAt i).changeAction a.key g)) : Calls i w (a.change g) fun _ _ => True := by
  subst own
  exact (changeDraft (.one edit)).weaken fun _ _ _ _ => trivial

theorem nodeOfDraft (i : Nat) (w : Workshop) (n : NodeRef) (j : Nat) :
    Calls i w (n.ofDraft j) fun _ w' => w = w' ∧ n.draft = j := by
  unfold NodeRef.ofDraft
  split
  · exact Keeps.nodeRecord (.throw trivial)
  · rename_i own
    exact .pure ⟨rfl, Classical.not_not.mp own⟩

theorem actionOfDraft (i : Nat) (w : Workshop) (a : ActionRef) (j : Nat) :
    Calls i w (a.ofDraft j) fun _ w' => w = w' ∧ a.draft = j := by
  unfold ActionRef.ofDraft
  split
  · exact Keeps.actionRecord (.throw trivial)
  · rename_i own
    exact .pure ⟨rfl, Classical.not_not.mp own⟩

theorem clone (sound : w.Sound) (here : n.Of i w) : Calls i w n.clone (NodeRef.Of i) := by
  obtain ⟨rfl, here⟩ := here
  unfold NodeRef.clone
  obtain ⟨edits, inside⟩ := Draft.cloneChainEdits (sound n.draft).bound here
  refine (made here.drafted edits).bind fun key w₁ _ ⟨same, changed⟩ => .pure ⟨rfl, ?_⟩
  rw [NodeRef.Inside, changed, same]
  exact inside

theorem writable (sound : w.Sound) (here : n.Of i w) (operation : String) :
    Calls i w (n.writable operation) (NodeRef.Of i) := by
  unfold NodeRef.writable
  refine Keeps.nodeRecord ?_
  split
  · refine Keeps.draftAt ?_
    split
    · exact .throw trivial
    · refine (clone sound here).bind fun copy w₁ _ given => ?_
      refine Keeps.nodeRecord ?_
      refine (tell i w₁ _).bind fun _ w₂ step _ => ?_
      exact .pure (given.later step)
  · exact .pure here

theorem linkable (sound : w.Sound) (here : n.Of i w) : Calls i w n.linkable (NodeRef.Of i) := by
  unfold NodeRef.linkable
  refine Keeps.nodeRecord ?_
  split
  · exact clone sound here
  · exact .pure here

theorem setNext (sound : w.Sound) (here : n.Of i w) (there : target.Inside w) :
    Calls i w (n.setNext target) (NodeRef.Of i) := by
  obtain ⟨rfl, here⟩ := here
  unfold NodeRef.setNext
  refine (nodeOfDraft n.draft w target n.draft).bind fun _ _ _ ⟨same, own⟩ => ?_
  subst same
  refine (linkable sound ⟨own, there⟩).bind fun target w₁ step₁ linked => ?_
  dsimp only
  split
  · exact Keeps.nodeRecord (.throwBind trivial)
  · refine (changeNode linked.1 (.prev (here.later step₁))).bind fun _ w₂ step₂ _ => ?_
    refine (changeNode rfl (.next ?_)).bind fun _ w₃ step₃ _ => ?_
    · exact linked.1 ▸ (linked.later step₂).2
    · exact .pure ((linked.later step₂).later step₃)

theorem editTexts (sound : w.Sound) (here : n.Of i w) (operation : String) (fragments : List Fragment)
    (edit : List Segment → List Segment → List Segment) :
    Calls i w (n.editTexts operation fragments edit) (NodeRef.Of i) := by
  unfold NodeRef.editTexts
  refine (writable sound here operation).bind fun n w₁ _ here => ?_
  refine (paced i w₁ fragments).bind fun segments w₂ step _ => ?_
  refine (changeNode here.1 (.content fun _ => rfl)).bind fun _ w₃ further _ => ?_
  exact .pure ((here.later step).later further)

theorem linkOfDraft (i : Nat) (w : Workshop) (link : Link) (j : Nat) :
    Calls i w (NodeRef.linkOfDraft link j) fun _ w' => w = w' ∧ ∀ target, link = .node target → target.draft = j := by
  cases link with
  | node target =>
    refine (nodeOfDraft i w target j).weaken fun _ _ _ ⟨same, own⟩ => ⟨same, fun _ given => ?_⟩
    cases given
    exact own
  | named | deferred => exact .pure ⟨rfl, fun _ given => by cases given⟩

def Inside (w : Workshop) (link : Link) : Prop := ∀ target, link = .node target → target.Inside w

theorem linkTo (sound : w.Sound) (here : n.Of i w) {link : Link} (there : Inside w link) :
    Calls i w (n.linkTo link) (NodeRef.Of i) := by
  unfold NodeRef.linkTo
  refine (linkOfDraft i w link n.draft).bind fun _ _ _ ⟨same, own⟩ => ?_
  subst same
  refine (writable sound here _).bind fun m w₁ step₁ given => ?_
  replace sound := step₁.sound sound
  dsimp only
  cases link with
  | deferred script => exact deferOn given rfl
  | node target =>
    refine (setNext sound given ((there target rfl).later step₁)).bind fun _ _ step _ => ?_
    exact .pure (given.later step)
  | named name =>
    refine (lookUp sound name).bind fun target _ _ ⟨same, _, there⟩ => ?_
    subst same
    exact (setNext sound given there).bind fun _ _ step _ => .pure (given.later step)

theorem pushRule (own : n.draft = i) (condition : Condition) (there : target.Of i w) :
    Calls i w (n.pushRule condition target) fun _ _ => True := by
  obtain ⟨rfl, there⟩ := there
  exact changeNode own (.rule condition there)

theorem branchOn (sound : w.Sound) (here : n.Of i w) (key op : String) (value : Json) {link : Link}
    (there : Inside w link) : Calls i w (n.branchOn key op value link) (NodeRef.Of i) := by
  unfold NodeRef.branchOn
  refine (operator i w op).bind fun op _ _ same => ?_
  subst same
  refine (linkOfDraft i _ link n.draft).bind fun _ _ _ ⟨same, own⟩ => ?_
  subst same
  refine (writable sound here _).bind fun m w₁ step₁ given => ?_
  dsimp only
  cases link with
  | deferred script => exact deferOn given rfl
  | node target =>
    have target : target.Of i w₁ := ⟨(own target rfl).trans here.1, (there target rfl).later step₁⟩
    exact (pushRule given.1 _ target).bind fun _ _ step _ => .pure (given.later step)
  | named name =>
    refine (lookUp (step₁.sound sound) name).bind fun target _ _ ⟨same, found, there⟩ => ?_
    subst same
    exact (pushRule given.1 _ ⟨found.trans given.1, there⟩).bind fun _ _ step _ => .pure (given.later step)

theorem pushEffect (sound : w.Sound) (here : n.Of i w) (operation : String) (e : Effect) :
    Calls i w (n.pushEffect operation e) (NodeRef.Of i) := by
  unfold NodeRef.pushEffect
  refine (writable sound here operation).bind fun m w₁ _ given => ?_
  exact (changeNode given.1 (.content fun _ => rfl)).bind fun _ _ step _ => .pure (given.later step)

theorem joinWith (sound : w.Sound) (here : n.Of i w) {link : Link} (there : Inside w link) :
    Calls i w (n.joinWith link) (NodeRef.Of i) := by
  unfold NodeRef.joinWith
  refine (linkOfDraft i w link n.draft).bind fun _ _ _ ⟨same, _⟩ => ?_
  subst same
  have joined : ∀ target : NodeRef, target.Inside w →
      Calls i w (do (← n.writable "join").setNext target) (NodeRef.Of i) := fun target there => by
    refine (writable sound here _).bind fun m w₁ step given => ?_
    exact setNext (step.sound sound) given (there.later step)
  cases link with
  | deferred script => exact linkTo sound here there
  | node target => exact joined target (there target rfl)
  | named name =>
    refine (lookUp sound name).bind fun target _ _ ⟨same, _, there⟩ => ?_
    subst same
    exact joined target there

theorem splice (sound : w.Sound) (here : n.Of i w) (there : target.Inside w) :
    Calls i w (n.splice target) (NodeRef.Of i) := by
  unfold NodeRef.splice
  refine Keeps.nodeRecord ?_
  split
  · exact .throw trivial
  · rename_i key leads
    obtain ⟨rfl, inside⟩ := here
    have previous : key < (w.draftAt n.draft).nodes.size := ((sound n.draft).bound.nodes n.key).next key leads
    refine (setNext sound ⟨rfl, inside⟩ there).bind fun inserted w₁ step₁ given => ?_
    replace sound := step₁.sound sound
    replace previous : (⟨n.draft, key⟩ : NodeRef).Inside w₁ := NodeRef.Inside.later previous step₁
    have told : ∀ w₂, w₁.Evolves n.draft w₂ → Calls n.draft w₂ (do
        Authoring.tell [.returning (← n.record).id (← inserted.record).id (← (⟨n.draft, key⟩ : NodeRef).record).id]
        return n) (NodeRef.Of n.draft) := fun w₂ step₂ => by
      refine Keeps.nodeRecord (Keeps.nodeRecord (Keeps.nodeRecord ?_))
      exact (tell _ _ _).bind fun _ _ step₃ _ => .pure ⟨rfl, ((inside.later step₁).later step₂).later step₃⟩
    refine Keeps.draftAt ?_
    dsimp only
    split
    · rename_i last ends
      have lastInside : (⟨n.draft, last⟩ : NodeRef).Inside w₁ :=
        (sound n.draft).bound.tailBefore (given.1 ▸ given.2) ends
      exact (setNext sound ⟨rfl, lastInside⟩ previous).bind fun _ w₂ step₂ _ => told w₂ step₂
    · exact told w₁ (refl_of _ w₁)

theorem returnsTo (sound : w.Sound) (here : n.Of i w) {link : Link} (there : Inside w link) :
    Calls i w (n.returnsTo link) (NodeRef.Of i) := by
  unfold NodeRef.returnsTo
  refine (linkOfDraft i w link n.draft).bind fun _ _ _ ⟨same, _⟩ => ?_
  subst same
  refine (writable sound here _).bind fun m w₁ step₁ given => ?_
  replace sound := step₁.sound sound
  cases link with
  | deferred script => exact deferOn given rfl
  | node target => exact splice sound given ((there target rfl).later step₁)
  | named name =>
    refine (lookUp sound name).bind fun target _ _ ⟨same, _, there⟩ => ?_
    subst same
    exact splice sound given there

theorem head (sound : w.Sound) (here : n.Of i w) : Calls i w n.head (NodeRef.Of i) := by
  obtain ⟨rfl, inside⟩ := here
  exact Keeps.draftAt (.pure ⟨rfl, (sound n.draft).bound.head inside⟩)

theorem tail (sound : w.Sound) (here : n.Of i w) : Calls i w n.tail (NodeRef.Of i) := by
  obtain ⟨rfl, inside⟩ := here
  exact Keeps.draftAt (.pure ⟨rfl, (sound n.draft).bound.tail inside⟩)

theorem freeze (here : n.Of i w) : Calls i w n.freeze (NodeRef.Of i) := by
  obtain ⟨rfl, inside⟩ := here
  unfold NodeRef.freeze
  refine (changeDraft (Draft.freezeAllEdits _ _)).bind fun _ _ step _ => ?_
  exact .pure ⟨rfl, inside.later step⟩

theorem addNode (inside : i < w.drafts.size) (name : String) : Calls i w (Workshop.addNode i name) (NodeRef.Of i) := by
  unfold Workshop.addNode
  refine (made inside (.one (.node name))).bind fun key _ _ ⟨same, changed⟩ => .pure ⟨rfl, ?_⟩
  rw [NodeRef.Inside, changed, same, Draft.nodesAddNode]
  exact Nat.lt_succ_self _

theorem newNamed (inside : i < w.drafts.size) (name : String) :
    Calls i w (Workshop.newNamed i name) (NodeRef.Of i) := by
  unfold Workshop.newNamed
  have added : Draft.Edits (w.draftAt i) ((w.draftAt i).addNode name).1 := .one (.node name)
  have registered := added.trans (.one (.register name (by simp : (w.draftAt i).nodes.size < _)))
  refine (made inside registered).bind fun key _ _ ⟨same, changed⟩ => .pure ⟨rfl, ?_⟩
  rw [NodeRef.Inside, changed, same, Draft.nodesRegister, Draft.nodesAddNode]
  exact Nat.lt_succ_self _

theorem newAction (inside : i < w.drafts.size) (label : String) :
    Calls i w (Workshop.newAction i label) (ActionRef.Of i) := by
  unfold Workshop.newAction
  refine (made inside (.one (.action _))).bind fun key _ _ ⟨same, changed⟩ => .pure ⟨rfl, ?_⟩
  rw [ActionRef.Inside, changed, same, Draft.actionsAddAction]
  exact Nat.lt_succ_self _

theorem newActionWith (inside : i < w.drafts.size) (label : String) (script : Script) :
    Calls i w (Workshop.newActionWith i label script) (ActionRef.Of i) := by
  unfold Workshop.newActionWith
  refine (newAction inside label).bind fun a w₁ _ given => ?_
  exact deferOnAction given fun _ _ inside => inside

theorem cloneTemplate (sound : w.Sound) (there : n.Inside w) :
    Calls i w (Workshop.cloneTemplate i n) (NodeRef.Of i) := by
  unfold Workshop.cloneTemplate
  refine (nodeOfDraft i w n i).bind fun _ _ _ ⟨same, own⟩ => ?_
  subst same
  exact clone sound ⟨own, there⟩

theorem clonesOf : Calls i w (Workshop.clonesOf j n) fun _ _ => True := Keeps.draftAt (.pure trivial)

theorem join (sound : w.Sound) (here : n.Of i w) : Calls i w n.join (NodeRef.Of i) := by
  unfold NodeRef.join
  obtain ⟨rfl, here⟩ := here
  refine (addNode here.drafted _).bind fun target w₁ step given => ?_
  refine joinWith (step.sound sound) ⟨rfl, here.later step⟩ fun _ same => ?_
  cases same
  exact given.2

theorem joinNamed (sound : w.Sound) (here : n.Of i w) (name : String) :
    Calls i w (n.joinNamed name) (NodeRef.Of i) := by
  unfold NodeRef.joinNamed
  obtain ⟨rfl, here⟩ := here
  refine (newNamed here.drafted name).bind fun target w₁ step given => ?_
  refine joinWith (step.sound sound) ⟨rfl, here.later step⟩ fun _ same => ?_
  cases same
  exact given.2

theorem actionWritable (i : Nat) (w : Workshop) (a : ActionRef) (operation : String) :
    Calls i w (a.writable operation) fun _ w' => w = w' := by
  unfold ActionRef.writable
  refine Keeps.actionRecord ?_
  split
  · exact .throw trivial
  · exact .pure rfl

def Detail (f : DraftAction → DraftAction) : Prop :=
  ∀ a, f a = { a with label := (f a).label, texts := (f a).texts, requirements := (f a).requirements
                      alternatives := (f a).alternatives, effects := (f a).effects }

theorem edit (here : a.Of i w) (operation : String) {g : DraftAction → DraftAction} (only : Detail g) :
    Calls i w (a.edit operation g) (ActionRef.Of i) := by
  unfold ActionRef.edit
  refine (actionWritable i w a operation).bind fun _ _ _ same => ?_
  subst same
  exact (changeAction here.1 (.detail only)).bind fun _ _ step _ => .pure (here.later step)

theorem editActionTexts (here : a.Of i w) (operation : String) (fragments : List Fragment)
    (edit : List Segment → List Segment → List Segment) :
    Calls i w (a.editTexts operation fragments edit) (ActionRef.Of i) := by
  unfold ActionRef.editTexts
  refine (actionWritable i w a operation).bind fun _ _ _ same => ?_
  subst same
  refine (paced i w fragments).bind fun segments w₁ step _ => ?_
  refine (changeAction here.1 (.detail fun _ => rfl)).bind fun _ _ further _ => ?_
  exact .pure ((here.later step).later further)

theorem require (here : a.Of i w) (key op : String) (value : Json) :
    Calls i w (a.require key op value) (ActionRef.Of i) := by
  unfold ActionRef.require
  refine (operator i w op).bind fun op _ _ same => ?_
  subst same
  exact edit here _ fun _ => rfl

theorem allow (here : a.Of i w) (key op : String) (value : Json) :
    Calls i w (a.allow key op value) (ActionRef.Of i) := by
  unfold ActionRef.allow
  refine (operator i w op).bind fun op _ _ same => ?_
  subst same
  exact edit here _ fun _ => rfl

theorem actionSetNext (sound : w.Sound) (here : a.Of i w) (there : target.Inside w) :
    Calls i w (a.setNext target) (NodeRef.Of i) := by
  unfold ActionRef.setNext
  refine (nodeOfDraft i w target a.draft).bind fun _ _ _ ⟨same, own⟩ => ?_
  subst same
  refine (linkable sound ⟨own.trans here.1, there⟩).bind fun m w₁ _ given => ?_
  refine (changeAction here.1 (.lead (given.1 ▸ given.2))).bind fun _ _ step _ => ?_
  exact .pure (given.later step)

theorem actionLinkTo (sound : w.Sound) (here : a.Of i w) {link : Link} (there : Inside w link) :
    Calls i w (a.linkTo link) (ActionRef.Of i) := by
  unfold ActionRef.linkTo
  refine (actionWritable i w a _).bind fun _ _ _ same => ?_
  subst same
  dsimp only
  cases link with
  | deferred script =>
    obtain ⟨rfl, here⟩ := here
    exact deferOnAction ⟨rfl, here⟩ fun _ _ inside => inside
  | node target => exact (actionSetNext sound here (there target rfl)).bind fun _ _ step _ => .pure (here.later step)
  | named name =>
    refine (lookUp sound name).bind fun target _ _ ⟨same, _, there⟩ => ?_
    subst same
    exact (actionSetNext sound here there).bind fun _ _ step _ => .pure (here.later step)

theorem actionJoin (sound : w.Sound) (here : a.Of i w) : Calls i w a.join (NodeRef.Of i) := by
  unfold ActionRef.join
  refine (actionWritable i w a _).bind fun _ _ _ same => ?_
  subst same
  obtain ⟨rfl, here⟩ := here
  refine (addNode here.drafted _).bind fun target w₁ step given => ?_
  exact actionSetNext (step.sound sound) ⟨rfl, here.later step⟩ given.2

theorem actionJoinNamed (sound : w.Sound) (here : a.Of i w) (name : String) :
    Calls i w (a.joinNamed name) (NodeRef.Of i) := by
  unfold ActionRef.joinNamed
  refine (actionWritable i w a _).bind fun _ _ _ same => ?_
  subst same
  obtain ⟨rfl, here⟩ := here
  refine (newNamed here.drafted name).bind fun target w₁ step given => ?_
  exact actionSetNext (step.sound sound) ⟨rfl, here.later step⟩ given.2

theorem actionFreeze (here : a.Of i w) : Calls i w a.freeze (ActionRef.Of i) := by
  unfold ActionRef.freeze
  exact (changeAction here.1 .lock).bind fun _ _ step _ => .pure (here.later step)

theorem attachAction (sound : w.Sound) (here : n.Of i w) (there : a.Inside w) :
    Calls i w (n.attachAction a) (NodeRef.Of i) := by
  unfold NodeRef.attachAction
  refine (actionOfDraft i w a n.draft).bind fun _ _ _ ⟨same, own⟩ => ?_
  subst same
  refine (writable sound here _).bind fun m w₁ step₁ given => ?_
  have action : a.Of i w₁ := ⟨own.trans here.1, there.later step₁⟩
  refine (changeNode given.1 (.attach (action.1 ▸ action.2))).bind fun _ w₂ step₂ _ => ?_
  replace given := given.later step₂
  refine (changeAction action.1 (.parent (given.1 ▸ given.2))).bind fun _ _ step₃ _ => ?_
  exact .pure (given.later step₃)

end Calls
end Dialogue
