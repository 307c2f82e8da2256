import Dialogue.Proofs.Workshop.Outcomes
import Dialogue.Proofs.Workshop.Programs

/-! Refused requests. Most checks come before anything is done. Three kinds of request do something first: a join
makes its node, an action with a script is made before its script is registered, and what is asked of a frozen node is
asked of a copy that is made before a name is looked up, a script registered or a successor missed. -/
namespace Dialogue

namespace Draft

def closedTo (d : Draft) (key : Nat) : Option AuthoringError :=
  if d.resolving then some (.nestedContinuation (d.node key).id) else none

def unnamed (d : Draft) (name : String) : Option AuthoringError :=
  if d.names.get? name = none then some (.unknownName name) else none

def unfollowed (d : Draft) (key : Nat) : Option AuthoringError :=
  if (d.node key).next = none then some (.missingSuccessor (d.node key).id) else none

end Draft

namespace NodeRequest

def obstacle (d : Draft) (copy : Nat) : NodeRequest → Option AuthoringError
  | .linkTo (.deferred _) | .branchOn _ _ _ (.deferred _) | .joinWith (.deferred _) | .returnsTo (.deferred _) =>
    d.closedTo copy
  | .linkTo (.named name) | .branchOn _ _ _ (.named name) => d.unnamed name
  | .returnsTo (.named name) => d.unnamed name <|> d.unfollowed copy
  | .returnsTo (.node _) => d.unfollowed copy
  | _ => none

theorem obstacleOf {d : Draft} {copy : Nat} {what : NodeRequest} {e : AuthoringError}
    (met : what.obstacle d copy = some e) :
    (∃ id, e = .nestedContinuation id) ∨ (∃ name, e = .unknownName name) ∨ ∃ id, e = .missingSuccessor id := by
  unfold obstacle Draft.closedTo Draft.unnamed Draft.unfollowed at met
  grind

/- The draft with the copy that a refused request has made of a frozen node. Without one it is as it was. -/
def spare (d : Draft) (key : Nat) (what : NodeRequest) (e : AuthoringError) : Draft :=
  let copied := (d.cloneChain key).1
  if (d.node key).frozen = true ∧ d.config.freezePolicy = .cloneOnWrite ∧
    what.obstacle copied d.nodes.size = some e then copied else d

/- The draft that a refused request leaves behind. -/
def residue (d : Draft) (key : Nat) : NodeRequest → AuthoringError → Draft
  | .join, _ => (d.addNode "gen").1
  | .joinNamed name, _ => ((d.addNode name).1.register name d.nodes.size).1
  | what, e => what.spare d key e

end NodeRequest

def Request.residue (w : Workshop) : Request → AuthoringError → Draft
  | .node n what, e => what.residue (w.draftAt n.draft) n.key e
  | .draft i (.newActionWith label _), _ =>
    ((w.draftAt i).addAction (if label.isEmpty then Workshop.defaultLabel else label)).1
  | r, _ => w.draftAt r.draftIndex

variable {α : Type} {i : Nat} {w w₁ w' : Workshop} {n target : NodeRef} {a : ActionRef} {what : NodeRequest}
  {link : Link} {e : AuthoringError}

def Leaves (w : Workshop) (n : NodeRef) (what : NodeRequest) (call : Authoring α) : Prop :=
  Outcome w call (fun _ _ => True) fun e w' => w.Becomes n.draft (what.spare (w.draftAt n.draft) n.key e) w'

abbrev Clean (w : Workshop) (call : Authoring α) (refused : AuthoringError → Prop := fun _ => True) : Prop :=
  Checked w call (fun _ _ => True) refused

namespace Clean
variable {β : Type} {returned : α → Workshop → Prop} {refused : AuthoringError → Prop} {call : Authoring α}
  {rest : α → Authoring β}

theorem of (first : Checked w call returned refused) : Clean w call :=
  first.weaken (fun _ _ _ => trivial) fun _ _ ⟨same, _⟩ => ⟨same, trivial⟩

theorem first (checked : Checked w call returned refused)
    (never : ∀ a w', Outcome w' (rest a) (fun _ _ => True) fun _ _ => False) : Clean w (call >>= rest) refused :=
  Outcome.bind checked fun a w' _ => (never a w').weaken (fun _ _ => id) fun _ _ => False.elim

theorem after {given : α → Prop} (checked : Checked w call (fun a w' => w' = w ∧ given a) refused)
    (then_ : ∀ a, given a → Clean w (rest a)) : Clean w (call >>= rest) := by
  refine Outcome.bind (checked.weaken (fun _ _ => id) fun _ _ ⟨same, _⟩ => ⟨same, trivial⟩) ?_
  rintro a _ ⟨rfl, holds⟩
  exact then_ a holds

theorem setNext (here : n.Inside w) (there : target.Inside w) : Clean w (n.setNext target) :=
  of (Checked.setNext here there)

theorem lookUp (sound : w.Sound) (name : String) {rest : NodeRef → Authoring β}
    (then_ : ∀ m, m.draft = i → m.Inside w → Clean w (rest m)) : Clean w (Authoring.lookUp i name >>= rest) := by
  refine after (Checked.lookUp name) fun m ⟨own, known⟩ => then_ m own ?_
  subst own
  exact (sound m.draft).bound.names name m.key known

theorem defer (link : Deferred) {m : α} : Clean w (do Authoring.defer i link; return m) :=
  of (first (Checked.defer link) fun _ _ => trivial)

theorem operator (token : String) {rest : Operator → Authoring β} (then_ : ∀ op, Clean w (rest op)) :
    Clean w (Authoring.operator token >>= rest) := by
  exact after (Checked.operator token) fun op _ => then_ op

end Clean

namespace Leaves

theorem nothing (apart : what.obstacle ((w.draftAt n.draft).cloneChain n.key).1 (w.draftAt n.draft).nodes.size ≠ some e) :
    w.Becomes n.draft (what.spare (w.draftAt n.draft) n.key e) w := by
  rw [NodeRequest.spare, if_neg fun all => apart all.2.2]
  exact .same rfl

theorem check {β : Type} {call : Authoring β} {rest : β → Authoring α} {given : β → Prop}
    {refused : AuthoringError → Prop} (first : Checked w call (fun a w' => w' = w ∧ given a) refused)
    (apart : ∀ e, refused e →
      what.obstacle ((w.draftAt n.draft).cloneChain n.key).1 (w.draftAt n.draft).nodes.size ≠ some e)
    (then_ : ∀ a, given a → Leaves w n what (rest a)) : Leaves w n what (call >>= rest) := by
  refine Outcome.bind (first.weaken (fun _ _ => id) ?_) ?_
  · rintro e _ ⟨rfl, holds⟩
    exact nothing (apart e holds)
  · rintro a _ ⟨rfl, holds⟩
    exact then_ a holds

theorem checkLink {rest : Unit → Authoring α}
    (then_ : (∀ target, link = .node target → target.draft = n.draft) → Leaves w n what (rest ())) :
    Leaves w n what (NodeRef.linkOfDraft link n.draft >>= rest) := by
  refine check (Checked.linkOfDraft link n.draft) (fun e ⟨_, _, foreign⟩ met => ?_) fun _ own => then_ own
  subst foreign
  simpa using NodeRequest.obstacleOf met

theorem write (here : n.Inside w) (operation : String) {rest : NodeRef → Authoring α} (straight : Clean w (rest n))
    (copied : ∀ w₁, w.Becomes n.draft ((w.draftAt n.draft).cloneChain n.key).1 w₁ →
      Clean w₁ (rest ⟨n.draft, (w.draftAt n.draft).nodes.size⟩) fun e =>
        what.obstacle ((w.draftAt n.draft).cloneChain n.key).1 (w.draftAt n.draft).nodes.size = some e) :
    Leaves w n what (n.writable operation >>= rest) := by
  have untouched : ¬ ((w.draftAt n.draft).node n.key).frozen = true ∨
      (w.draftAt n.draft).config.freezePolicy = .strict →
      ∀ e, w.Becomes n.draft (what.spare (w.draftAt n.draft) n.key e) w := fun why e => by
    rw [NodeRequest.spare, if_neg]
    · exact .same rfl
    · rintro ⟨frozen, policy, _⟩
      rcases why with unfrozen | strict
      · exact unfrozen frozen
      · cases strict.symm.trans policy
  refine Outcome.bind (Outcome.weaken (Checked.writable here operation) (fun _ _ => id) ?_) ?_
  · rintro e _ ⟨rfl, _, policy, _⟩
    exact untouched (.inr policy) e
  · intro m w₁ opened
    cases opened with
    | itself unfrozen =>
      refine straight.weaken (fun _ _ => id) ?_
      rintro e _ ⟨rfl, _⟩
      exact untouched (.inl (by simp [unfrozen])) e
    | copy frozen policy changed =>
      refine (copied w₁ changed).weaken (fun _ _ => id) ?_
      rintro e _ ⟨rfl, met⟩
      rw [NodeRequest.spare, if_pos ⟨frozen, policy, met⟩]
      exact changed

end Leaves

section Copy
variable {β : Type} {refused : AuthoringError → Prop}
  (changed : w.Becomes n.draft ((w.draftAt n.draft).cloneChain n.key).1 w₁)
include changed

theorem copyOf (sound : w.Sound) (here : n.Inside w) :
    w.Evolves n.draft w₁ ∧ (⟨n.draft, (w.draftAt n.draft).nodes.size⟩ : NodeRef).Inside w₁ := by
  obtain ⟨edits, inside⟩ := Draft.cloneChainEdits (sound n.draft).bound here
  rw [Draft.cloneChainKey] at inside
  exact ⟨⟨changed.drafts, changed.others, changed.here ▸ edits⟩, by rwa [NodeRef.Inside, changed.here]⟩

theorem copySetNext (sound : w.Sound) (here : n.Inside w) (own : target.draft = n.draft) (there : target.Inside w) :
    Clean w₁ ((⟨n.draft, (w.draftAt n.draft).nodes.size⟩ : NodeRef).setNext target) refused := by
  obtain ⟨step, inside⟩ := copyOf changed sound here
  refine (Checked.setNext inside (there.later step)).weaken (fun _ _ => id) ?_
  rintro _ _ ⟨_, foreign | same⟩
  · exact absurd own foreign
  · rw [NodeRef.Inside, own] at there
    exact absurd same (Nat.ne_of_lt there)

theorem copyLookUp (sound : w.Sound) (name : String) {rest : NodeRef → Authoring β}
    (unknown : ∀ e, ((w.draftAt n.draft).cloneChain n.key).1.unnamed name = some e → refused e)
    (then_ : ∀ m, m.draft = n.draft → m.Inside w →
      ((w.draftAt n.draft).cloneChain n.key).1.unnamed name = none → Clean w₁ (rest m) refused) :
    Clean w₁ (Authoring.lookUp n.draft name >>= rest) refused := by
  refine Outcome.bind (Outcome.weaken (Checked.lookUp name) (fun _ _ => id) ?_) ?_
  · rintro e _ ⟨rfl, none, rfl⟩
    rw [changed.here] at none
    exact ⟨rfl, unknown _ (if_pos none)⟩
  · rintro m _ ⟨rfl, own, known⟩
    rw [changed.here] at known
    refine then_ m own ?_ (if_neg (by simp [known]))
    rw [Draft.cloneChainNames] at known
    rw [NodeRef.Inside, own]
    exact (sound n.draft).bound.names name m.key known

theorem copyDefer {m : β} {link : Deferred} {key : Nat} (on : link.node? = some key) :
    Clean w₁ (do Authoring.defer n.draft link; return m) fun e =>
      ((w.draftAt n.draft).cloneChain n.key).1.closedTo key = some e := by
  refine Clean.first ((Checked.defer link).weaken (fun _ _ => id) ?_) fun _ _ => trivial
  rintro e _ ⟨rfl, resolving, rfl⟩
  refine ⟨rfl, ?_⟩
  rw [changed.here] at resolving ⊢
  rw [Draft.closedTo, if_pos resolving]
  cases link <;> cases on <;> rfl

end Copy

namespace Leaves

theorem editTexts (here : n.Inside w) (operation : String) (fragments : List Fragment)
    (edit : List Segment → List Segment → List Segment) :
    Leaves w n what (n.editTexts operation fragments edit) := by
  unfold NodeRef.editTexts
  exact write here operation trivial fun _ _ => trivial

theorem pushEffect (here : n.Inside w) (operation : String) (effect : Effect) :
    Leaves w n what (n.pushEffect operation effect) := by
  unfold NodeRef.pushEffect
  exact write here operation trivial fun _ _ => trivial

theorem attachAction (here : n.Inside w) (a : ActionRef) : Leaves w n (.attachAction a) (n.attachAction a) := by
  unfold NodeRef.attachAction
  refine check (Checked.actionOfDraft a n.draft) (fun _ _ => nofun) fun _ _ => ?_
  exact write here "attach_action" trivial fun _ _ => trivial

theorem linkTo (sound : w.Sound) (here : n.Inside w) (there : Calls.Inside w link) :
    Leaves w n (.linkTo link) (n.linkTo link) := by
  unfold NodeRef.linkTo
  refine checkLink fun own => ?_
  cases link with
  | deferred script => exact write here "link_to" (Clean.defer _) fun w₁ changed => copyDefer changed rfl
  | node target =>
    refine write here "link_to" (Clean.first (Clean.setNext here (there target rfl)) fun _ _ => trivial) ?_
    intro w₁ changed
    exact Clean.first (copySetNext changed sound here (own target rfl) (there target rfl)) fun _ _ => trivial
  | named name =>
    refine write here "link_to" ?_ fun w₁ changed => ?_
    · exact Clean.lookUp sound name fun m _ inside => Clean.first (Clean.setNext here inside) fun _ _ => trivial
    · refine copyLookUp changed sound name (fun _ => id) fun m own inside _ => ?_
      exact Clean.first (copySetNext changed sound here own inside) fun _ _ => trivial

theorem branchOn (sound : w.Sound) (here : n.Inside w) (key op : String) (value : Json) (link : Link) :
    Leaves w n (.branchOn key op value link) (n.branchOn key op value link) := by
  unfold NodeRef.branchOn
  refine check (Checked.operator op) (fun e unsupported met => ?_) fun op _ => checkLink fun _ => ?_
  · subst unsupported
    simpa using NodeRequest.obstacleOf met
  cases link with
  | deferred script => exact write here "branch_on" (Clean.defer _) fun w₁ changed => copyDefer changed rfl
  | node target => exact write here "branch_on" trivial fun _ _ => trivial
  | named name =>
    refine write here "branch_on" (Clean.lookUp sound name fun _ _ _ => trivial) fun w₁ changed => ?_
    exact copyLookUp changed sound name (fun _ => id) fun _ _ _ _ => trivial

theorem splice (sound : w.Sound) (here : n.Inside w) (own : target.draft = n.draft) (there : target.Inside w)
    (changed : w.Becomes n.draft ((w.draftAt n.draft).cloneChain n.key).1 w₁) :
    Clean w₁ ((⟨n.draft, (w.draftAt n.draft).nodes.size⟩ : NodeRef).splice target) fun e =>
      ((w.draftAt n.draft).cloneChain n.key).1.unfollowed (w.draftAt n.draft).nodes.size = some e := by
  obtain ⟨step, inside⟩ := copyOf changed sound here
  refine (Checked.splice (step.sound sound) inside (there.later step)).weaken (fun _ _ => id) ?_
  rintro e _ ⟨rfl, ⟨nowhere, rfl⟩ | foreign | same⟩
  · rw [changed.here] at nowhere ⊢
    exact ⟨rfl, if_pos nowhere⟩
  · exact absurd own foreign
  · rw [NodeRef.Inside, own] at there
    exact absurd same (Nat.ne_of_lt there)

theorem returnsTo (sound : w.Sound) (here : n.Inside w) (there : Calls.Inside w link) :
    Leaves w n (.returnsTo link) (n.returnsTo link) := by
  unfold NodeRef.returnsTo
  refine checkLink fun own => ?_
  cases link with
  | deferred script => exact write here "returns_to" (Clean.defer _) fun w₁ changed => copyDefer changed rfl
  | node target =>
    refine write here "returns_to" (Clean.of (Checked.splice sound here (there target rfl))) fun w₁ changed => ?_
    exact splice sound here (own target rfl) (there target rfl) changed
  | named name =>
    refine write here "returns_to" ?_ fun w₁ changed => ?_
    · exact Clean.lookUp sound name fun m _ inside => Clean.of (Checked.splice sound here inside)
    · refine copyLookUp changed sound name (fun e unknown => ?_) fun m own inside known => ?_
      · simp [NodeRequest.obstacle, unknown]
      · simpa [NodeRequest.obstacle, known] using splice sound here own inside changed

theorem joinNode (sound : w.Sound) (here : n.Inside w) (own : target.draft = n.draft) (there : target.Inside w) :
    Leaves w n what (do (← n.writable "join").setNext target) :=
  write here "join" (Clean.setNext here there) fun _ changed => copySetNext changed sound here own there

theorem joinWith (sound : w.Sound) (here : n.Inside w) (there : Calls.Inside w link) :
    Leaves w n (.joinWith link) (n.joinWith link) := by
  unfold NodeRef.joinWith
  refine checkLink fun own => ?_
  cases link with
  | deferred script => exact linkTo sound here there
  | node target => exact joinNode sound here (own target rfl) (there target rfl)
  | named name =>
    refine check (Checked.lookUp name) (fun _ _ => nofun) fun m ⟨own, known⟩ => joinNode sound here own ?_
    rw [NodeRef.Inside, own]
    exact (sound n.draft).bound.names name m.key known

theorem joinMade (sound : w.Sound) (here : n.Inside w) {g : Draft → Draft × Nat × List Notice}
    (edits : Draft.Edits (w.draftAt n.draft) (g (w.draftAt n.draft)).1)
    (inside : (g (w.draftAt n.draft)).2.1 < (g (w.draftAt n.draft)).1.nodes.size) :
    Outcome w (do n.joinWith (.node ⟨n.draft, ← Authoring.made n.draft g⟩)) (fun _ _ => True)
      fun _ w' => w.Becomes n.draft (g (w.draftAt n.draft)).1 w' := by
  refine ((Checked.made here.drafted).both (Calls.made here.drafted edits)).bind ?_
  rintro _ w₁ ⟨step, _, rfl, changed⟩
  have there : Calls.Inside w₁ (.node ⟨n.draft, (g (w.draftAt n.draft)).2.1⟩) := fun target given => by
    cases given
    rwa [NodeRef.Inside, changed.here]
  refine Outcome.weaken (joinWith (step.sound sound) (here.later step) there) (fun _ _ => id) ?_
  rintro e w₂ left
  rw [NodeRequest.spare, if_neg (by simp [NodeRequest.obstacle]), changed.here] at left
  exact changed.trans left

theorem join (sound : w.Sound) (here : n.Inside w) : Outcome w n.join (fun _ _ => True)
    fun _ w' => w.Becomes n.draft ((w.draftAt n.draft).addNode "gen").1 w' := by
  have added : Draft.Edits (w.draftAt n.draft) ((w.draftAt n.draft).addNode "gen").1 := .one (.node "gen")
  exact joinMade (g := fun d => ((d.addNode "gen").1, d.nodes.size, [])) sound here added (by simp)

theorem joinNamed (sound : w.Sound) (here : n.Inside w) (name : String) :
    Outcome w (n.joinNamed name) (fun _ _ => True) fun _ w' =>
      w.Becomes n.draft (((w.draftAt n.draft).addNode name).1.register name (w.draftAt n.draft).nodes.size).1 w' := by
  have added : Draft.Edits (w.draftAt n.draft) ((w.draftAt n.draft).addNode name).1 := .one (.node name)
  have registered := added.trans (.one (.register name (by simp : (w.draftAt n.draft).nodes.size < _)))
  exact joinMade (g := fun d =>
    (((d.addNode name).1.register name d.nodes.size).1, d.nodes.size,
      ((d.addNode name).1.register name d.nodes.size).2)) sound here registered (by simp)

theorem nodeRequest (sound : w.Sound) (here : n.Inside w) (live : what.Live w) :
    Outcome w (what.run n) (fun _ _ => True) fun e w' =>
      w.Becomes n.draft (what.residue (w.draftAt n.draft) n.key e) w' := by
  cases what with
  | appendText fragments =>
    show Leaves w n (.appendText fragments) (n.appendText fragments)
    exact editTexts here _ _ _
  | prependText fragments =>
    show Leaves w n (.prependText fragments) (n.prependText fragments)
    exact editTexts here _ _ _
  | replaceText fragments =>
    show Leaves w n (.replaceText fragments) (n.replaceText fragments)
    exact editTexts here _ _ _
  | attachAction a => exact attachAction here a
  | linkTo => exact linkTo sound here live
  | branchOn key op value link => exact branchOn sound here key op value link
  | setEffect key value =>
    show Leaves w n (.setEffect key value) (n.setEffect key value)
    exact pushEffect here _ _
  | addEffect key value =>
    show Leaves w n (.addEffect key value) (n.addEffect key value)
    exact pushEffect here _ _
  | join => exact join sound here
  | joinNamed name => exact joinNamed sound here name
  | joinWith => exact joinWith sound here live
  | returnsTo => exact returnsTo sound here live
  | clone => trivial
  | freeze => trivial

end Leaves

namespace Clean

theorem edit (operation : String) (f : DraftAction → DraftAction) : Clean w (a.edit operation f) := by
  unfold ActionRef.edit
  exact of (first (Checked.actionWritable a operation) fun _ _ => trivial)

theorem editTexts (operation : String) (fragments : List Fragment)
    (edit : List Segment → List Segment → List Segment) : Clean w (a.editTexts operation fragments edit) := by
  unfold ActionRef.editTexts
  exact of (first (Checked.actionWritable a operation) fun _ _ => trivial)

theorem linkTo (sound : w.Sound) (link : Link) : Clean w (a.linkTo link) := by
  unfold ActionRef.linkTo
  refine after (Checked.actionWritable a _) fun _ _ => ?_
  cases link with
  | deferred script => exact defer _
  | node target => exact of (first (Checked.actionSetNext a target) fun _ _ => trivial)
  | named name => exact lookUp sound name fun m _ _ => of (first (Checked.actionSetNext a m) fun _ _ => trivial)

theorem joinMade (g : Draft → Draft × Nat × List Notice) :
    Clean w (do a.writable "join"; a.setNext ⟨a.draft, ← Authoring.made a.draft g⟩) := by
  refine after (Checked.actionWritable a _) fun _ _ => ?_
  have made : Outcome w (Authoring.made a.draft g) (fun _ _ => True) fun e w' => w' = w ∧ True := trivial
  refine made.bind fun key w₁ _ => ?_
  exact (Checked.actionSetNext a ⟨a.draft, key⟩).weaken (fun _ _ => id) fun _ _ ⟨_, foreign⟩ => absurd rfl foreign

theorem asNode {call : Authoring NodeRef} (clean : Clean w call) : Clean w (do return Vertex.node (← call)) :=
  first clean fun _ _ => trivial

theorem asAction {call : Authoring ActionRef} (clean : Clean w call) : Clean w (do return Vertex.action (← call)) :=
  first clean fun _ _ => trivial

theorem actionRequest (sound : w.Sound) (what : ActionRequest) : Clean w (what.run a) := by
  cases what with
  | label text => exact asAction (edit "label" _)
  | appendText fragments => exact asAction (editTexts "append_text" fragments _)
  | prependText fragments => exact asAction (editTexts "prepend_text" fragments _)
  | replaceText fragments => exact asAction (editTexts "replace_text" fragments _)
  | require key op value => exact asAction (operator op fun _ => edit "and" _)
  | allow key op value => exact asAction (operator op fun _ => edit "or" _)
  | setEffect key value => exact asAction (edit "set_effect" _)
  | addEffect key value => exact asAction (edit "add_effect" _)
  | linkTo link => exact asAction (linkTo sound link)
  | join => exact asNode (joinMade fun d => ((d.addNode "gen").1, d.nodes.size, []))
  | joinNamed name =>
    exact asNode (joinMade fun d => (((d.addNode name).1.register name d.nodes.size).1, d.nodes.size,
      ((d.addNode name).1.register name d.nodes.size).2))
  | freeze => trivial

end Clean

namespace Leaves

theorem newActionWith (inside : i < w.drafts.size) (label : String) (script : Script) :
    Outcome w (Workshop.newActionWith i label script) (fun _ _ => True) fun e w' =>
      w.Becomes i ((Request.draft i (.newActionWith label script)).residue w e) w' := by
  unfold Workshop.newActionWith
  have added : Outcome w (Workshop.newAction i label) (fun _ w₁ => w.Becomes i
      ((w.draftAt i).addAction (if label.isEmpty then Workshop.defaultLabel else label)).1 w₁) fun _ _ => False :=
    (Checked.made inside).bind fun _ _ ⟨_, changed⟩ => changed
  refine (added.weaken (fun _ _ => id) fun _ _ => False.elim).bind fun a w₁ changed => ?_
  refine Outcome.bind ((Checked.defer _).weaken (fun _ _ => id) ?_) fun _ _ _ => trivial
  rintro _ _ ⟨rfl, _⟩
  exact changed

theorem draftRequest (inside : i < w.drafts.size) (what : DraftRequest) :
    Outcome w (what.run i) (fun _ _ => True) fun e w' => w.Becomes i ((Request.draft i what).residue w e) w' := by
  cases what with
  | newNode | newNamed | newAction => trivial
  | newActionWith label script => exact (newActionWith inside label script).bind fun _ _ _ => trivial
  | cloneTemplate n =>
    have checked : Clean w (Workshop.cloneTemplate i n) :=
      Clean.of (Clean.first (Checked.nodeOfDraft n i) fun _ _ => trivial)
    refine (Clean.asNode checked).weaken (fun _ _ => id) ?_
    rintro _ _ ⟨rfl, _⟩
    exact .same rfl

end Leaves

namespace NodeRequest

theorem residueExtends (d : Draft) (key : Nat) (what : NodeRequest) (e : AuthoringError) :
    d.Extends (what.residue d key e) := by
  have spared : d.Extends (what.spare d key e) := by
    unfold spare
    dsimp only
    split
    · exact Draft.cloneChainExtends d key
    · exact .refl d
  cases what with
  | join => exact .addNode d "gen"
  | joinNamed name => exact (Draft.Extends.addNode d name).trans (.register _ name _)
  | _ => exact spared

end NodeRequest

namespace Request
variable {r : Request}

theorem residueExtends (w : Workshop) (r : Request) (e : AuthoringError) :
    (w.draftAt r.draftIndex).Extends (r.residue w e) := by
  cases r with
  | node n what => exact what.residueExtends _ _ e
  | action => exact .refl _
  | draft i what =>
    cases what with
    | newActionWith => exact .addAction _ _
    | newNode | newNamed | newAction | cloneTemplate => exact .refl _

theorem refusalLeaves (sound : w.Sound) (live : r.Live w) (refused : r.run.run w = (.error e, w')) :
    w.Becomes r.draftIndex (r.residue w e) w' ∧ (w.draftAt r.draftIndex).Extends (r.residue w e) := by
  have ends : Outcome w r.run (fun _ _ => True) fun e w' => w.Becomes r.draftIndex (r.residue w e) w' := by
    cases r with
    | node n what => exact (Leaves.nodeRequest sound live.1 live.2).bind fun _ _ _ => trivial
    | action a what =>
      refine (Clean.actionRequest sound what).weaken (fun _ _ => id) ?_
      rintro e _ ⟨rfl, _⟩
      exact .same rfl
    | draft i what => exact Leaves.draftRequest live.1 what
  rw [Outcome, refused] at ends
  exact ⟨ends, r.residueExtends w e⟩

def attic : Workshop := (Machine.after Machine.passDepth { freezePolicy := .strict } [
  .mk none none (some "attic") (.newNamed "attic"),
  .mk (some "attic") none none .freeze]).workshop

def ladder : Request := .node ⟨0, 0⟩ (.joinNamed "ladder")

theorem ladderLive : ladder.Live attic := by
  show 0 < (attic.draftAt 0).nodes.size ∧ True
  decide

theorem ladderRefused :
    ladder.run.run attic = (.error (.frozen "attic_0001" "join"), (ladder.run.run attic).2) := rfl

theorem atticGetsLadder : attic.Sound ∧ ladder.Live attic ∧
    ladder.run.run attic = (.error (.frozen "attic_0001" "join"), (ladder.run.run attic).2) ∧
    ((ladder.run.run attic).2.draftAt 0).names.get? "ladder" = some 1 ∧
    ((ladder.run.run attic).2.draftAt 0).node 0 = (attic.draftAt 0).node 0 := by
  have sound : attic.Sound := (Machine.afterSound _ _ _).drafts
  obtain ⟨left, more⟩ := refusalLeaves sound ladderLive ladderRefused
  have here : (ladder.run.run attic).2.draftAt 0 = ladder.residue attic (.frozen "attic_0001" "join") := left.here
  refine ⟨sound, ladderLive, ladderRefused, ?_, ?_⟩
  · rw [here]
    rfl
  · rw [here]
    exact more.node 0 ladderLive.1

theorem refusedJoinTakesName : ¬ ∀ (depth : Nat) (config : Config) (program : List Step) (r : Request)
    (e : AuthoringError) (w' : Workshop), r.Live (Machine.after depth config program).workshop →
    r.run.run (Machine.after depth config program).workshop = (.error e, w') →
    w'.drafts = (Machine.after depth config program).workshop.drafts := by
  intro claim
  have same := claim _ _ _ ladder _ _ ladderLive ladderRefused
  have kept := congrArg (fun drafts => (drafts[0]?.getD default).count) same
  have taken : ((ladder.run.run attic).2.draftAt 0).count = 2 := rfl
  cases taken.symm.trans kept

end Request
end Dialogue
