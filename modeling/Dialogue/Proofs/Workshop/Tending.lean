import Dialogue.Proofs.Workshop.Freezing
import Dialogue.Proofs.Workshop.Outcomes

/-! Frozen nodes under authoring. What is asked of a frozen node is done with a copy of it, and a link to one goes to
a copy of it. So a call leaves every frozen node as it is, but for nodes whose successor it may set anyway. -/
namespace Dialogue
variable {α β : Type} {past : NodeRef → Prop} {w w' : Workshop} {i : Nat} {n : NodeRef} {d d' : Draft}

namespace Draft

structure Spares (past : Nat → Prop) (d d' : Draft) : Prop where
  kept : ∀ k, (d.node k).frozen = true → ∃ next, d'.node k = { d.node k with next }
  same : ∀ k, (d.node k).frozen = true → ¬ past k → d'.node k = d.node k

structure Tends (past : Nat → Prop) (d d' : Draft) : Prop extends d.Spares past d' where
  unfrozen : ∀ k, (d.node k).frozen = false → (d'.node k).frozen = false

variable {past : Nat → Prop} {key : Nat}

namespace Spares

theorem refl : d.Spares past d where
  kept := fun _ _ => ⟨_, rfl⟩
  same := fun _ _ _ => rfl

theorem whole (same : ∀ k, (d.node k).frozen = true → d'.node k = d.node k) : d.Spares past d' where
  kept := fun k frozen => ⟨_, same k frozen⟩
  same := fun k frozen _ => same k frozen

theorem trans {d'' : Draft} (first : d.Spares past d') (second : d'.Spares past d'') : d.Spares past d'' where
  kept := fun k frozen => by
    obtain ⟨next, same⟩ := first.kept k frozen
    obtain ⟨next', same'⟩ := second.kept k (by rw [same]; exact frozen)
    exact ⟨next', by rw [same', same]⟩
  same := fun k frozen apart => by
    have same := first.same k frozen apart
    exact (second.same k (by rw [same]; exact frozen) apart).trans same

end Spares

namespace Tends

theorem refl : d.Tends past d where
  toSpares := .refl
  unfrozen := fun _ => id

theorem trans {d'' : Draft} (first : d.Tends past d') (second : d'.Tends past d'') : d.Tends past d'' where
  toSpares := first.toSpares.trans second.toSpares
  unfrozen := fun k => second.unfrozen k ∘ first.unfrozen k

theorem sameNodes (nodes : d'.nodes = d.nodes) : d.Tends past d' := by
  have same : ∀ k, d'.node k = d.node k := fun k => by rw [node, nodes, node]
  exact ⟨.whole fun k _ => same k, fun k => by rw [same k]; exact id⟩

theorem ofExtends (more : d.Extends d') (fresh : ∀ k, d.nodes.size ≤ k → (d'.node k).frozen = false) :
    d.Tends past d' := by
  have old : ∀ k, (d.node k).frozen = true → d'.node k = d.node k := fun k frozen => by
    refine more.node k ?_
    by_contra outside
    rw [nodeOutside d k (Nat.le_of_not_lt outside)] at frozen
    cases frozen
  refine ⟨.whole old, fun k unfrozen => ?_⟩
  rcases Nat.lt_or_ge k d.nodes.size with inside | outside
  · rw [more.node k inside]
    exact unfrozen
  · exact fresh k outside

theorem addNode (d : Draft) (name : String) : d.Tends past (d.addNode name).1 := by
  refine ofExtends (.addNode d name) fun k new => ?_
  rw [nodeAddNode]
  split
  · rfl
  · rw [nodeOutside d k new]
    rfl

theorem cloneChain (d : Draft) (start : Nat) : d.Tends past (d.cloneChain start).1 :=
  ofExtends (cloneChainExtends d start) fun _ => cloneChainUnfrozen d start

theorem changeNode (unfrozen : (d.node key).frozen = false) {f : DraftNode → DraftNode}
    (keeps : ∀ n, (f n).frozen = n.frozen) : d.Tends past (d.changeNode key f) := by
  have other : ∀ k, (d.node k).frozen = true → (d.changeNode key f).node k = d.node k := fun k frozen => by
    rw [nodeChangeNode, if_neg]
    rintro ⟨rfl, _⟩
    cases frozen.symm.trans unfrozen
  refine ⟨.whole other, fun k before => ?_⟩
  rw [nodeChangeNode]
  split
  · rw [keeps]
    exact before
  · exact before

theorem leadOn (free : (d.node key).frozen = false ∨ past key) (next : Nat) :
    d.Tends past (d.changeNode key fun n => { n with next := some next }) := by
  refine ⟨⟨fun k _ => ?_, fun k frozen apart => ?_⟩, fun k before => ?_⟩
  · rw [nodeChangeNode]
    split
    · exact ⟨_, rfl⟩
    · exact ⟨_, rfl⟩
  · rw [nodeChangeNode, if_neg]
    rintro ⟨rfl, _⟩
    rcases free with unfrozen | among
    · cases frozen.symm.trans unfrozen
    · exact apart among
  · rw [nodeChangeNode]
    split <;> exact before

end Tends

theorem freezeAllSpares (d : Draft) (keys : List Nat) : d.Spares past (d.freezeAll keys) := by
  refine .whole fun k frozen => ?_
  rw [nodeFreezeAll]
  split
  · rw [← frozen]
  · rfl

end Draft

def Workshop.Spares (past : NodeRef → Prop) (w w' : Workshop) : Prop :=
  ∀ i, (w.draftAt i).Spares (fun k => past ⟨i, k⟩) (w'.draftAt i)

def Workshop.Tends (past : NodeRef → Prop) (w w' : Workshop) : Prop :=
  ∀ i, (w.draftAt i).Tends (fun k => past ⟨i, k⟩) (w'.draftAt i)

instance : IsPreorder Workshop (Workshop.Tends past) where
  refl := fun _ _ => .refl
  trans := fun _ _ _ first second i => (first i).trans (second i)

def NodeRef.Open (n : NodeRef) (w : Workshop) : Prop := ((w.draftAt n.draft).node n.key).frozen = false

theorem NodeRef.Open.later (here : n.Open w) (step : w.Tends past w') : n.Open w' := (step n.draft).unfrozen n.key here

abbrev Tending (past : NodeRef → Prop) (w : Workshop) (call : Authoring α) (post : α → Workshop → Prop) : Prop :=
  Keeps (Workshop.Tends past) (fun _ => True) w call post

namespace Tending
variable {f : Draft → Draft} {post : β → Workshop → Prop}

theorem tell (w : Workshop) (notices : List Notice) : Tending past w (Authoring.tell notices) fun _ _ => True :=
  .ok (fun _ => .refl) trivial

theorem changeDraft (tends : (w.draftAt i).Tends (fun k => past ⟨i, k⟩) (f (w.draftAt i))) :
    Tending past w (Authoring.changeDraft i f) fun _ w' =>
      w'.draftAt i = if i < w.drafts.size then f (w.draftAt i) else w.draftAt i := by
  refine .ok (fun j => ?_) ?_
  · rw [Calls.draftAtChanged]
    split
    · rename_i here
      exact here.1 ▸ tends
    · exact .refl
  · rw [Calls.draftAtChanged]
    simp

theorem made {g : Draft → Draft × Nat × List Notice}
    (tends : (w.draftAt i).Tends (fun k => past ⟨i, k⟩) (g (w.draftAt i)).1) :
    Tending past w (Authoring.made i g) fun key w' => key = (g (w.draftAt i)).2.1 ∧
      w'.draftAt i = if i < w.drafts.size then (g (w.draftAt i)).1 else w.draftAt i := by
  unfold Authoring.made
  refine Keeps.draftAt ?_
  refine (changeDraft tends).bind fun _ w₁ _ changed => ?_
  refine (show Tending past w₁ (Authoring.tell _) (fun _ w' => ∀ j, w'.draftAt j = w₁.draftAt j) from
    .ok (fun _ => .refl) fun _ => rfl).bind fun _ w₂ _ same => ?_
  exact .pure ⟨rfl, (same i).trans changed⟩

theorem defer (link : Deferred) : Tending past w (Authoring.defer i link) fun _ _ => True := by
  unfold Authoring.defer
  refine Keeps.draftAt ?_
  dsimp only
  split
  · exact .throwBind trivial
  · refine (tell w _).bind fun _ w₁ _ _ => ?_
    exact (changeDraft (.sameNodes rfl)).weaken fun _ _ _ _ => trivial

theorem paced {j : Nat} (w : Workshop) (fragments : List Fragment) :
    Tending past w (Authoring.paced j fragments) fun _ _ => True := by
  unfold Authoring.paced
  exact (tell w _).bind fun _ w₁ _ _ => Keeps.draftAt (.pure trivial)

theorem changeNode (here : n.Open w) {g : DraftNode → DraftNode} (keeps : ∀ r, (g r).frozen = r.frozen) :
    Tending past w (n.change g) fun _ _ => True :=
  (changeDraft (.changeNode here keeps)).weaken fun _ _ _ _ => trivial

theorem changeAction {a : ActionRef} (g : DraftAction → DraftAction) :
    Tending past w (a.change g) fun _ _ => True :=
  (changeDraft (.sameNodes rfl)).weaken fun _ _ _ _ => trivial

theorem clone (w : Workshop) (n : NodeRef) : Tending past w n.clone fun copy w' => copy.draft = n.draft ∧ copy.Open w' := by
  unfold NodeRef.clone
  refine (made (.cloneChain _ n.key)).bind fun key w₁ _ ⟨same, changed⟩ => .pure ⟨rfl, ?_⟩
  rw [NodeRef.Open, changed, same, Draft.cloneChainKey]
  split
  · exact Draft.cloneChainUnfrozen _ _ (Nat.le_refl _)
  · rw [Draft.nodeOutside _ _ (Nat.le_refl _)]
    rfl

theorem writable (w : Workshop) (n : NodeRef) (operation : String) :
    Tending past w (n.writable operation) fun m w' => m.draft = n.draft ∧ m.Open w' := by
  unfold NodeRef.writable
  refine Keeps.nodeRecord ?_
  split
  · refine Keeps.draftAt ?_
    split
    · exact .throw trivial
    · refine (clone w n).bind fun copy w₁ _ ⟨own, here⟩ => ?_
      refine Keeps.nodeRecord ?_
      exact (tell w₁ _).bind fun _ w₂ step _ => .pure ⟨own, here.later step⟩
  · rename_i unfrozen
    exact .pure ⟨rfl, Bool.eq_false_iff.mpr unfrozen⟩

theorem linkable (w : Workshop) (n : NodeRef) :
    Tending past w n.linkable fun m w' => m.draft = n.draft ∧ m.Open w' := by
  unfold NodeRef.linkable
  refine Keeps.nodeRecord ?_
  split
  · exact clone w n
  · rename_i unfrozen
    exact .pure ⟨rfl, Bool.eq_false_iff.mpr unfrozen⟩

theorem setNext (w : Workshop) (free : n.Open w ∨ past n) (target : NodeRef) :
    Tending past w (n.setNext target) fun _ _ => True := by
  unfold NodeRef.setNext
  refine Keeps.after (Checked.nodeOfDraft target n.draft) fun _ _ => ?_
  refine (linkable w target).bind fun m w₁ step₁ ⟨_, opened⟩ => ?_
  dsimp only
  split
  · exact Keeps.nodeRecord (.throwBind trivial)
  · have back : Tending past w₁ (m.change fun r => { r with prev := some n.key }) fun _ _ => True :=
      changeNode opened fun _ => rfl
    refine back.bind fun _ w₂ step₂ _ => ?_
    have still := free.imp_left fun here => (NodeRef.Open.later here step₁).later step₂
    have leads : (w₂.draftAt n.draft).Tends (fun k => past ⟨n.draft, k⟩)
        ((w₂.draftAt n.draft).changeNode n.key fun r => { r with next := some m.key }) := by
      refine .leadOn ?_ m.key
      exact still
    have forth : Tending past w₂ (n.change fun r => { r with next := some m.key }) fun _ _ => True :=
      (changeDraft leads).weaken fun _ _ _ _ => trivial
    exact forth.bind fun _ _ _ _ => .pure trivial

theorem editTexts (w : Workshop) (n : NodeRef) (operation : String) (fragments : List Fragment)
    (edit : List Segment → List Segment → List Segment) :
    Tending past w (n.editTexts operation fragments edit) fun _ _ => True := by
  unfold NodeRef.editTexts
  refine (writable w n operation).bind fun m w₁ _ ⟨_, opened⟩ => ?_
  refine (paced w₁ fragments).bind fun segments w₂ step _ => ?_
  have edited : Tending past w₂ (m.change fun r => { r with texts := edit r.texts segments }) fun _ _ => True :=
    changeNode (opened.later step) fun _ => rfl
  exact edited.bind fun _ _ _ _ => .pure trivial

theorem pushEffect (w : Workshop) (n : NodeRef) (operation : String) (e : Effect) :
    Tending past w (n.pushEffect operation e) fun _ _ => True := by
  unfold NodeRef.pushEffect
  refine (writable w n operation).bind fun m w₁ _ ⟨_, opened⟩ => ?_
  have pushed : Tending past w₁ (m.change fun r => { r with effects := r.effects ++ [e] }) fun _ _ => True :=
    changeNode opened fun _ => rfl
  exact pushed.bind fun _ _ _ _ => .pure trivial

theorem attachAction (w : Workshop) (n : NodeRef) (a : ActionRef) :
    Tending past w (n.attachAction a) fun _ _ => True := by
  unfold NodeRef.attachAction
  refine Keeps.after (Checked.actionOfDraft a n.draft) fun _ _ => ?_
  refine (writable w n "attach_action").bind fun m w₁ _ ⟨_, opened⟩ => ?_
  have attached : Tending past w₁ (m.change fun r => { r with actions := r.actions ++ [a.key] }) fun _ _ => True :=
    changeNode opened fun _ => rfl
  refine attached.bind fun _ w₂ _ _ => ?_
  exact (changeAction _).bind fun _ _ _ _ => .pure trivial

theorem linkTo (w : Workshop) (n : NodeRef) (link : Link) : Tending past w (n.linkTo link) fun _ _ => True := by
  unfold NodeRef.linkTo
  refine Keeps.after (Checked.linkOfDraft link n.draft) fun _ _ => ?_
  refine (writable w n "link_to").bind fun m w₁ _ ⟨_, opened⟩ => ?_
  dsimp only
  cases link with
  | deferred script => exact (defer _).bind fun _ _ _ _ => .pure trivial
  | node target => exact (setNext w₁ (.inl opened) target).bind fun _ _ _ _ => .pure trivial
  | named name =>
    refine Keeps.after (Checked.lookUp name) fun target _ => ?_
    exact (setNext w₁ (.inl opened) target).bind fun _ _ _ _ => .pure trivial

theorem branchOn (w : Workshop) (n : NodeRef) (key op : String) (value : Json) (link : Link) :
    Tending past w (n.branchOn key op value link) fun _ _ => True := by
  unfold NodeRef.branchOn
  refine Keeps.after (Checked.operator op) fun op _ => ?_
  refine Keeps.after (Checked.linkOfDraft link n.draft) fun _ _ => ?_
  refine (writable w n "branch_on").bind fun m w₁ _ ⟨_, opened⟩ => ?_
  have pushed : ∀ (condition : Condition) (target : NodeRef),
      Tending past w₁ (m.pushRule condition target) fun _ _ => True := fun condition target =>
    changeNode opened fun _ => rfl
  dsimp only
  cases link with
  | deferred script => exact (defer _).bind fun _ _ _ _ => .pure trivial
  | node target => exact (pushed _ target).bind fun _ _ _ _ => .pure trivial
  | named name =>
    refine Keeps.after (Checked.lookUp name) fun target _ => ?_
    exact (pushed _ target).bind fun _ _ _ _ => .pure trivial

theorem joinWith (w : Workshop) (n : NodeRef) (link : Link) : Tending past w (n.joinWith link) fun _ _ => True := by
  have joined : ∀ target : NodeRef, Tending past w (do (← n.writable "join").setNext target) fun _ _ => True :=
    fun target => (writable w n "join").bind fun m w₁ _ ⟨_, opened⟩ => setNext w₁ (.inl opened) target
  unfold NodeRef.joinWith
  refine Keeps.after (Checked.linkOfDraft link n.draft) fun _ _ => ?_
  cases link with
  | deferred script => exact linkTo w n _
  | node target => exact joined target
  | named name =>
    refine Keeps.after (Checked.lookUp name) fun target _ => ?_
    exact joined target

theorem addNode (w : Workshop) (i : Nat) (name : String) : Tending past w (Workshop.addNode i name) fun _ _ => True := by
  unfold Workshop.addNode
  exact (made (.addNode _ name)).bind fun _ _ _ _ => .pure trivial

theorem newNamed (w : Workshop) (i : Nat) (name : String) : Tending past w (Workshop.newNamed i name) fun _ _ => True := by
  have registered : ∀ (d : Draft) {past : Nat → Prop}, d.Tends past ((d.addNode name).1.register name d.nodes.size).1 :=
    fun d _ => (Draft.Tends.addNode d name).trans (.sameNodes (Draft.nodesRegister _ _ name))
  unfold Workshop.newNamed
  exact (made (registered _)).bind fun _ _ _ _ => .pure trivial

theorem join (w : Workshop) (n : NodeRef) : Tending past w n.join fun _ _ => True := by
  unfold NodeRef.join
  exact (addNode w n.draft "gen").bind fun _ w₁ _ _ => joinWith w₁ n _

theorem joinNamed (w : Workshop) (n : NodeRef) (name : String) : Tending past w (n.joinNamed name) fun _ _ => True := by
  unfold NodeRef.joinNamed
  exact (newNamed w n.draft name).bind fun _ w₁ _ _ => joinWith w₁ n _

theorem newAction (w : Workshop) (i : Nat) (label : String) : Tending past w (Workshop.newAction i label) fun _ _ => True := by
  unfold Workshop.newAction
  exact (made (.sameNodes rfl)).bind fun _ _ _ _ => .pure trivial

theorem newActionWith (w : Workshop) (i : Nat) (label : String) (script : Script) :
    Tending past w (Workshop.newActionWith i label script) fun _ _ => True := by
  unfold Workshop.newActionWith
  refine (newAction w i label).bind fun a w₁ _ _ => ?_
  exact (defer _).bind fun _ _ _ _ => .pure trivial

theorem cloneTemplate (w : Workshop) (i : Nat) (n : NodeRef) :
    Tending past w (Workshop.cloneTemplate i n) fun _ _ => True := by
  unfold Workshop.cloneTemplate
  refine Keeps.after (Checked.nodeOfDraft n i) fun _ _ => ?_
  exact (clone w n).weaken fun _ _ _ _ => trivial

theorem actionSetNext (w : Workshop) (a : ActionRef) (target : NodeRef) :
    Tending past w (a.setNext target) fun _ _ => True := by
  unfold ActionRef.setNext
  refine Keeps.after (Checked.nodeOfDraft target a.draft) fun _ _ => ?_
  refine (linkable w target).bind fun m w₁ _ _ => ?_
  exact (changeAction _).bind fun _ _ _ _ => .pure trivial

theorem edit (w : Workshop) (a : ActionRef) (operation : String) (g : DraftAction → DraftAction) :
    Tending past w (a.edit operation g) fun _ _ => True := by
  unfold ActionRef.edit
  refine Keeps.after (Checked.actionWritable a operation) fun _ _ => ?_
  exact (changeAction g).bind fun _ _ _ _ => .pure trivial

theorem editActionTexts (w : Workshop) (a : ActionRef) (operation : String) (fragments : List Fragment)
    (edit : List Segment → List Segment → List Segment) :
    Tending past w (a.editTexts operation fragments edit) fun _ _ => True := by
  unfold ActionRef.editTexts
  refine Keeps.after (Checked.actionWritable a operation) fun _ _ => ?_
  refine (paced w fragments).bind fun segments w₁ _ _ => ?_
  exact (changeAction _).bind fun _ _ _ _ => .pure trivial

theorem actionLinkTo (w : Workshop) (a : ActionRef) (link : Link) : Tending past w (a.linkTo link) fun _ _ => True := by
  unfold ActionRef.linkTo
  refine Keeps.after (Checked.actionWritable a "link_to") fun _ _ => ?_
  dsimp only
  cases link with
  | deferred script => exact (defer _).bind fun _ _ _ _ => .pure trivial
  | node target => exact (actionSetNext w a target).bind fun _ _ _ _ => .pure trivial
  | named name =>
    refine Keeps.after (Checked.lookUp name) fun target _ => ?_
    exact (actionSetNext w a target).bind fun _ _ _ _ => .pure trivial

theorem actionJoin (w : Workshop) (a : ActionRef) : Tending past w a.join fun _ _ => True := by
  unfold ActionRef.join
  refine Keeps.after (Checked.actionWritable a "join") fun _ _ => ?_
  exact (addNode w a.draft "gen").bind fun target w₁ _ _ => actionSetNext w₁ a target

theorem actionJoinNamed (w : Workshop) (a : ActionRef) (name : String) :
    Tending past w (a.joinNamed name) fun _ _ => True := by
  unfold ActionRef.joinNamed
  refine Keeps.after (Checked.actionWritable a "join") fun _ _ => ?_
  exact (newNamed w a.draft name).bind fun target w₁ _ _ => actionSetNext w₁ a target

end Tending
end Dialogue
