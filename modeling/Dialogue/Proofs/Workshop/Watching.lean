import Dialogue.Proofs.Workshop.Acts
import Dialogue.Proofs.Workshop.Mirrors
import Dialogue.Proofs.Workshop.Outcomes

/-! An action under watch. What is said of an action without the node that it hangs on stays true of it, but for what
is asked of the action itself, and that is heard as long as the action is not frozen. A build pass leads the action on
whether it is frozen or not. -/
namespace Dialogue
variable {α β : Type} {w w' : Workshop} {i : Nat} {n target : NodeRef} {a b : ActionRef}

def Workshop.SameActions (w w' : Workshop) : Prop := ∀ i, (w'.draftAt i).actions = (w.draftAt i).actions

instance : IsPreorder Workshop Workshop.SameActions where
  refl := fun _ _ => rfl
  trans := fun _ _ _ first second i => (second i).trans (first i)

def Idle (call : Authoring α) : Prop :=
  ∀ w, Keeps Workshop.SameActions (fun _ => True) w call fun _ _ => True

namespace Idle
variable {call : Authoring α} {rest : α → Authoring β}

theorem pure (x : α) : Idle (pure x) := fun _ => .pure trivial

theorem throw (e : AuthoringError) : Idle (throw e : Authoring α) := fun _ => .throw trivial

theorem bind (first : Idle call) (then_ : ∀ x, Idle (rest x)) : Idle (call >>= rest) := fun w =>
  (first w).bind fun x w' _ _ => then_ x w'

theorem checked {given : Workshop → α → Prop} {refused : Workshop → AuthoringError → Prop}
    (checks : ∀ w, Checked w call (fun x w' => w' = w ∧ given w x) (refused w)) : Idle call := fun w =>
  (Keeps.checked (checks w)).weaken fun _ _ _ _ => trivial

theorem tell (notices : List Notice) : Idle (Authoring.tell notices) := fun _ => .ok (fun _ => rfl) trivial

theorem draftAt (i : Nat) : Idle (Authoring.draftAt i) := fun _ => .ok (fun _ => rfl) trivial

theorem nodeRecord (n : NodeRef) : Idle n.record := (draftAt n.draft).bind fun _ => .pure _

theorem changeDraft {f : Draft → Draft} (actions : ∀ d, (f d).actions = d.actions) :
    Idle (Authoring.changeDraft i f) := fun w => by
  refine .ok (fun j => ?_) trivial
  rw [Calls.draftAtChanged]
  split
  · exact actions _
  · rfl

theorem made {f : Draft → Draft × Nat × List Notice} (actions : ∀ d, (f d).1.actions = d.actions) :
    Idle (Authoring.made i f) := by
  intro w
  unfold Authoring.made
  refine Keeps.draftAt ?_
  have changed : Keeps Workshop.SameActions (fun _ => True) w
      (Authoring.changeDraft i fun _ => (f (w.draftAt i)).1) fun _ _ => True := by
    refine .ok (fun j => ?_) trivial
    rw [Calls.draftAtChanged]
    split
    · rename_i here
      exact here.1 ▸ actions _
    · rfl
  exact changed.bind fun _ w₁ _ _ => ((tell _).bind fun _ => .pure _) w₁

theorem defer (link : Deferred) : Idle (Authoring.defer i link) := by
  refine (draftAt i).bind fun d => ?_
  dsimp only
  split
  · exact (throw _).bind fun _ => (tell _).bind fun _ => changeDraft fun _ => rfl
  · exact (tell _).bind fun _ => changeDraft fun _ => rfl

theorem paced (i : Nat) (fragments : List Fragment) : Idle (Authoring.paced i fragments) :=
  (tell _).bind fun _ => (draftAt i).bind fun _ => .pure _

theorem lookUp (i : Nat) (name : String) : Idle (Authoring.lookUp i name) := checked fun _ => Checked.lookUp name

theorem linkOfDraft (link : Link) (i : Nat) : Idle (NodeRef.linkOfDraft link i) :=
  checked fun _ => Checked.linkOfDraft link i

theorem changeNode (n : NodeRef) (f : DraftNode → DraftNode) : Idle (n.change f) := changeDraft fun _ => rfl

theorem clone (n : NodeRef) : Idle n.clone := (made fun d => d.actionsCloneChain n.key).bind fun _ => .pure _

theorem writable (n : NodeRef) (operation : String) : Idle (n.writable operation) := by
  refine (nodeRecord n).bind fun r => ?_
  split
  · refine (draftAt n.draft).bind fun d => ?_
    split
    · exact throw _
    · exact (clone n).bind fun copy => (nodeRecord copy).bind fun _ => (tell _).bind fun _ => .pure _
  · exact pure _

theorem linkable (n : NodeRef) : Idle n.linkable := by
  refine (nodeRecord n).bind fun r => ?_
  split
  · exact clone n
  · exact pure _

theorem setNext (n target : NodeRef) : Idle (n.setNext target) := by
  refine (checked fun _ => Checked.nodeOfDraft target n.draft).bind fun _ => ?_
  refine (linkable target).bind fun m => ?_
  have linked : Idle (do
      m.change fun r => { r with prev := some n.key }
      n.change fun r => { r with next := some m.key }
      return m) := (changeNode m _).bind fun _ => (changeNode n _).bind fun _ => .pure _
  dsimp only
  split
  · exact (nodeRecord n).bind fun _ => (throw _).bind fun _ => linked
  · exact linked

theorem editTexts (n : NodeRef) (operation : String) (fragments : List Fragment)
    (edit : List Segment → List Segment → List Segment) : Idle (n.editTexts operation fragments edit) :=
  (writable n operation).bind fun m => (paced m.draft fragments).bind fun _ => (changeNode m _).bind fun _ => .pure _

theorem pushEffect (n : NodeRef) (operation : String) (e : Effect) : Idle (n.pushEffect operation e) :=
  (writable n operation).bind fun m => (changeNode m _).bind fun _ => .pure _

theorem linkTo (n : NodeRef) (link : Link) : Idle (n.linkTo link) := by
  refine (linkOfDraft link n.draft).bind fun _ => (writable n "link_to").bind fun m => ?_
  dsimp only
  cases link with
  | deferred script => exact (defer _).bind fun _ => .pure _
  | node target => exact (setNext m target).bind fun _ => .pure _
  | named name => exact (lookUp _ name).bind fun target => (setNext m target).bind fun _ => .pure _

theorem branchOn (n : NodeRef) (key op : String) (value : Json) (link : Link) : Idle (n.branchOn key op value link) := by
  refine (checked fun _ => Checked.operator op).bind fun op => ?_
  refine (linkOfDraft link n.draft).bind fun _ => (writable n "branch_on").bind fun m => ?_
  dsimp only
  cases link with
  | deferred script => exact (defer _).bind fun _ => .pure _
  | node target => exact (changeNode m _).bind fun _ => .pure _
  | named name => exact (lookUp _ name).bind fun target => (changeNode m _).bind fun _ => .pure _

theorem joinWith (n : NodeRef) (link : Link) : Idle (n.joinWith link) := by
  refine (linkOfDraft link n.draft).bind fun _ => ?_
  cases link with
  | deferred script => exact linkTo n _
  | node target => exact (writable n "join").bind fun m => setNext m target
  | named name => exact (lookUp _ name).bind fun target => (writable n "join").bind fun m => setNext m target

theorem splice (n inserted : NodeRef) : Idle (n.splice inserted) := by
  refine (nodeRecord n).bind fun r => ?_
  dsimp only
  cases r.next with
  | none => exact throw _
  | some key =>
    refine (setNext n inserted).bind fun m => (draftAt n.draft).bind fun d => ?_
    have told : Idle (do
        Authoring.tell [.returning (← n.record).id (← m.record).id (← (⟨n.draft, key⟩ : NodeRef).record).id]
        return n) :=
      (nodeRecord n).bind fun _ => (nodeRecord m).bind fun _ => (nodeRecord _).bind fun _ => (tell _).bind fun _ => .pure _
    split
    · exact (setNext _ _).bind fun _ => told
    · exact told

theorem returnsTo (n : NodeRef) (link : Link) : Idle (n.returnsTo link) := by
  refine (linkOfDraft link n.draft).bind fun _ => (writable n "returns_to").bind fun m => ?_
  cases link with
  | deferred script => exact (defer _).bind fun _ => .pure _
  | node inserted => exact splice m inserted
  | named name => exact (lookUp _ name).bind fun inserted => splice m inserted

theorem freeze (n : NodeRef) : Idle n.freeze := by
  have actions : ∀ (keys : List Nat) (d : Draft), (d.freezeAll keys).actions = d.actions := fun keys => by
    induction keys with
    | nil => exact fun _ => rfl
    | cons key rest ih => exact fun d => ih (d.changeNode key _)
  exact (changeDraft fun d => actions _ d).bind fun _ => .pure _

theorem addNode (i : Nat) (name : String) : Idle (Workshop.addNode i name) := (made fun _ => rfl).bind fun _ => .pure _

theorem newNamed (i : Nat) (name : String) : Idle (Workshop.newNamed i name) :=
  (made fun d => (d.addNode name).1.actionsRegister _ name).bind fun _ => .pure _

theorem cloneTemplate (i : Nat) (n : NodeRef) : Idle (Workshop.cloneTemplate i n) :=
  (checked fun _ => Checked.nodeOfDraft n i).bind fun _ => clone n

theorem join (n : NodeRef) : Idle n.join := (addNode n.draft "gen").bind fun m => joinWith n (.node m)

theorem joinNamed (n : NodeRef) (name : String) : Idle (n.joinNamed name) :=
  (newNamed n.draft name).bind fun m => joinWith n (.node m)

end Idle

def Workshop.actionAt (w : Workshop) (a : ActionRef) : DraftAction := (w.draftAt a.draft).action a.key

theorem Workshop.SameActions.at (same : w.SameActions w') (a : ActionRef) : w'.actionAt a = w.actionAt a := by
  unfold Workshop.actionAt Draft.action
  rw [same]

/- A relation that does not see what an action hangs on, and no difference between an action that is not there yet and a
new one. -/
structure Overlooks (same : DraftAction → DraftAction → Prop) : Prop where
  fresh : ∀ id label, same default { id, label }
  parent : ∀ r node, same r { r with parent := node }

def ActionRequest.Quiet (same : DraftAction → DraftAction → Prop) : ActionRequest → Prop
  | .label text => ∀ r, r.frozen = false → same r { r with label := text }
  | .appendText _ | .prependText _ | .replaceText _ => ∀ r texts, r.frozen = false → same r { r with texts := texts }
  | .require key op value => ∀ known, Operator.ofToken? op = some known → ∀ r, r.frozen = false →
    same r { r with requirements := r.requirements.insert key ⟨known, value⟩ }
  | .allow key op value => ∀ known, Operator.ofToken? op = some known → ∀ r, r.frozen = false →
    same r { r with alternatives := r.alternatives.insert key ⟨known, value⟩ }
  | .setEffect key value => ∀ r, r.frozen = false → same r { r with effects := r.effects ++ [.setting key value] }
  | .addEffect key value => ∀ r, r.frozen = false → same r { r with effects := r.effects ++ [.adding key value] }
  | .linkTo _ | .join | .joinNamed _ => ∀ r key, r.frozen = false → same r { r with next := some key }
  | .freeze => ∀ r, same r { r with frozen := true }

def Workshop.Alike (same : DraftAction → DraftAction → Prop) (a : ActionRef) (w w' : Workshop) : Prop :=
  same (w.actionAt a) (w'.actionAt a)

variable {same : DraftAction → DraftAction → Prop} [IsPreorder DraftAction same]

instance : IsPreorder Workshop (Workshop.Alike same a) where
  refl := fun w => refl_of same (w.actionAt a)
  trans := fun _ _ _ first second => trans_of same first second

abbrev Watches (same : DraftAction → DraftAction → Prop) (a : ActionRef) (w : Workshop) (call : Authoring α) : Prop :=
  Keeps (Workshop.Alike same a) (fun _ => True) w call fun _ _ => True

namespace Watches
variable {call : Authoring α} {rest : α → Authoring β}

theorem idle (idle : Idle call) : Watches same a w call where
  kept := by
    rw [Workshop.Alike, Workshop.SameActions.at (idle w).kept]
    exact refl_of same _
  returned := fun _ _ => trivial
  refused := fun _ _ => trivial

theorem bind (first : Watches same a w call) (then_ : ∀ x w', Watches same a w' (rest x)) :
    Watches same a w (call >>= rest) := Keeps.bind first fun x w' _ _ => then_ x w'

theorem idleBind (first : Idle call) (then_ : ∀ x w', w'.actionAt b = w.actionAt b → Watches same a w' (rest x)) :
    Watches same a w (call >>= rest) := by
  have idles : Keeps (Workshop.Alike same a) (fun _ => True) w call fun _ w' => w'.actionAt b = w.actionAt b :=
    ⟨(idle first).kept, fun _ _ => Workshop.SameActions.at (first w).kept b, fun _ _ => trivial⟩
  exact idles.bind fun x w' _ kept => then_ x w' kept

theorem changeDraft {f : Draft → Draft} (kept : i = a.draft → same (w.actionAt a) ((f (w.draftAt i)).action a.key)) :
    Watches same a w (Authoring.changeDraft i f) := by
  refine .ok ?_ trivial
  unfold Workshop.Alike Workshop.actionAt
  rw [Calls.draftAtChanged]
  split
  · rename_i here
    have own := here.1.symm
    subst own
    exact kept rfl
  · exact refl_of same _

theorem change {g : DraftAction → DraftAction} (kept : b = a → same (w.actionAt a) (g (w.actionAt a))) :
    Watches same a w (b.change g) := by
  refine changeDraft fun own => ?_
  rw [Draft.actionChangeAction, own]
  split
  · rename_i here
    refine kept ?_
    cases a
    cases b
    simp_all
  · exact refl_of same _

theorem writable (b : ActionRef) (operation : String) {rest : Unit → Authoring β}
    (then_ : (w.actionAt b).frozen = false → Watches same a w (rest ())) :
    Watches same a w (b.writable operation >>= rest) :=
  Keeps.after (Checked.actionWritable b operation) fun _ unfrozen => then_ unfrozen

theorem edit (b : ActionRef) (operation : String) {g : DraftAction → DraftAction}
    (kept : b = a → ∀ r, r.frozen = false → same r (g r)) : Watches same a w (b.edit operation g) := by
  refine writable b operation fun unfrozen => ?_
  exact (change fun own => kept own _ (own ▸ unfrozen)).bind fun _ _ => .pure trivial

theorem editTexts (b : ActionRef) (operation : String) (fragments : List Fragment)
    (edit : List Segment → List Segment → List Segment)
    (kept : b = a → ∀ r texts, r.frozen = false → same r { r with texts := texts }) :
    Watches same a w (b.editTexts operation fragments edit) := by
  refine writable b operation fun unfrozen => ?_
  refine idleBind (b := b) (Idle.paced b.draft fragments) fun _ w' still => ?_
  exact (change fun own => kept own _ _ (own ▸ still ▸ unfrozen)).bind fun _ _ => .pure trivial

theorem setNext (b : ActionRef) (target : NodeRef)
    (kept : b = a → ∀ key, same (w.actionAt a) { w.actionAt a with next := some key }) :
    Watches same a w (b.setNext target) := by
  refine idleBind (b := a) (Idle.checked fun _ => Checked.nodeOfDraft target b.draft) fun _ w₁ still₁ => ?_
  refine idleBind (b := a) (Idle.linkable target) fun m w₂ still₂ => ?_
  refine (change fun own => ?_).bind fun _ _ => .pure trivial
  rw [still₂.trans still₁]
  exact kept own m.key

section
variable (kept : b = a → ∀ r key, r.frozen = false → same r { r with next := some key })
include kept

theorem leadOn (unfrozen : (w.actionAt b).frozen = false) (target : NodeRef) : Watches same a w (b.setNext target) :=
  setNext b target fun own key => kept own _ key (own ▸ unfrozen)

theorem linkTo (link : Link) : Watches same a w (b.linkTo link) := by
  refine writable b "link_to" fun unfrozen => ?_
  cases link with
  | deferred script => exact idle ((Idle.defer _).bind fun _ => .pure _)
  | node target => exact (leadOn kept unfrozen target).bind fun _ _ => .pure trivial
  | named name =>
    refine idleBind (b := b) (Idle.lookUp b.draft name) fun target w' still => ?_
    exact (leadOn kept (still ▸ unfrozen) target).bind fun _ _ => .pure trivial

theorem join : Watches same a w b.join := by
  refine writable b "join" fun unfrozen => ?_
  exact idleBind (b := b) (Idle.addNode b.draft "gen") fun target _ still => leadOn kept (still ▸ unfrozen) target

theorem joinNamed (name : String) : Watches same a w (b.joinNamed name) := by
  refine writable b "join" fun unfrozen => ?_
  exact idleBind (b := b) (Idle.newNamed b.draft name) fun target _ still => leadOn kept (still ▸ unfrozen) target

end

theorem operator (token : String) {rest : Operator → Authoring β}
    (then_ : ∀ known, Operator.ofToken? token = some known → Watches same a w (rest known)) :
    Watches same a w (Authoring.operator token >>= rest) :=
  Keeps.after (Checked.operator token) then_

theorem actionRequest (b : ActionRef) {what : ActionRequest} (quiet : b = a → what.Quiet same) :
    Watches same a w (what.run b) := by
  cases what with
  | label text => exact (edit b "label" quiet).bind fun _ _ => .pure trivial
  | appendText fragments => exact (editTexts b "append_text" fragments _ quiet).bind fun _ _ => .pure trivial
  | prependText fragments => exact (editTexts b "prepend_text" fragments _ quiet).bind fun _ _ => .pure trivial
  | replaceText fragments => exact (editTexts b "replace_text" fragments _ quiet).bind fun _ _ => .pure trivial
  | require key op value =>
    have required : Watches same a w (b.require key op value) :=
      operator op fun known told => edit b "and" fun own => quiet own known told
    exact required.bind fun _ _ => .pure trivial
  | allow key op value =>
    have allowed : Watches same a w (b.allow key op value) :=
      operator op fun known told => edit b "or" fun own => quiet own known told
    exact allowed.bind fun _ _ => .pure trivial
  | setEffect key value => exact (edit b "set_effect" quiet).bind fun _ _ => .pure trivial
  | addEffect key value => exact (edit b "add_effect" quiet).bind fun _ _ => .pure trivial
  | linkTo link => exact (linkTo quiet link).bind fun _ _ => .pure trivial
  | join => exact (join quiet).bind fun _ _ => .pure trivial
  | joinNamed name => exact (joinNamed quiet name).bind fun _ _ => .pure trivial
  | freeze =>
    have frozen : Watches same a w b.freeze := (change fun own => quiet own _).bind fun _ _ => .pure trivial
    exact frozen.bind fun _ _ => .pure trivial

variable (blind : Overlooks same)
include blind

theorem newAction (i : Nat) (label : String) : Watches same a w (Workshop.newAction i label) := by
  unfold Workshop.newAction
  refine bind (Keeps.draftAt ?_) fun _ _ => .pure trivial
  refine (changeDraft fun own => ?_).bind fun _ _ => (idle (Idle.tell _)).bind fun _ _ => .pure trivial
  show same (w.actionAt a) (((w.draftAt i).addAction _).1.action a.key)
  rw [Draft.actionAddAction]
  split
  · rename_i new
    rw [Workshop.actionAt, Draft.actionOutside _ _ (by rw [new, own])]
    exact blind.fresh _ _
  · rw [own]
    exact refl_of same _

theorem newActionWith (i : Nat) (label : String) (script : Script) :
    Watches same a w (Workshop.newActionWith i label script) :=
  (newAction blind i label).bind fun _ _ => idle ((Idle.defer _).bind fun _ => .pure _)

theorem attachAction (n : NodeRef) (b : ActionRef) : Watches same a w (n.attachAction b) := by
  refine (idle (Idle.checked fun _ => Checked.actionOfDraft b n.draft)).bind fun _ _ => ?_
  refine (idle (Idle.writable n "attach_action")).bind fun m _ => ?_
  refine (idle (Idle.changeNode m _)).bind fun _ _ => ?_
  exact (change fun _ => blind.parent _ _).bind fun _ _ => .pure trivial

theorem nodeRequest (n : NodeRef) (what : NodeRequest) : Watches same a w (what.run n) := by
  cases what with
  | appendText fragments =>
    show Watches same a w (n.appendText fragments)
    exact idle (Idle.editTexts n "append_text" fragments _)
  | prependText fragments =>
    show Watches same a w (n.prependText fragments)
    exact idle (Idle.editTexts n "prepend_text" fragments _)
  | replaceText fragments =>
    show Watches same a w (n.replaceText fragments)
    exact idle (Idle.editTexts n "replace_text" fragments _)
  | attachAction b => exact attachAction blind n b
  | linkTo link => exact idle (Idle.linkTo n link)
  | branchOn key op value link => exact idle (Idle.branchOn n key op value link)
  | setEffect key value =>
    show Watches same a w (n.setEffect key value)
    exact idle (Idle.pushEffect n "set_effect" _)
  | addEffect key value =>
    show Watches same a w (n.addEffect key value)
    exact idle (Idle.pushEffect n "add_effect" _)
  | join => exact idle (Idle.join n)
  | joinNamed name => exact idle (Idle.joinNamed n name)
  | joinWith link => exact idle (Idle.joinWith n link)
  | returnsTo link => exact idle (Idle.returnsTo n link)
  | clone => exact idle (Idle.clone n)
  | freeze => exact idle (Idle.freeze n)

theorem draftRequest (i : Nat) (what : DraftRequest) : Watches same a w (what.run i) := by
  cases what with
  | newNode => exact (idle (Idle.addNode i "gen")).bind fun _ _ => .pure trivial
  | newNamed name => exact (idle (Idle.newNamed i name)).bind fun _ _ => .pure trivial
  | newAction label => exact (newAction blind i label).bind fun _ _ => .pure trivial
  | newActionWith label script => exact (newActionWith blind i label script).bind fun _ _ => .pure trivial
  | cloneTemplate n => exact (idle (Idle.cloneTemplate i n)).bind fun _ _ => .pure trivial

theorem request {r : Request} (quiet : ∀ what, r = .action a what → what.Quiet same) : Watches same a w r.run := by
  cases r with
  | node n what => exact (nodeRequest blind n what).bind fun _ _ => .pure trivial
  | action b what => exact actionRequest b fun own => quiet what (own ▸ rfl)
  | draft i what => exact draftRequest blind i what

end Watches

theorem Overlooks.act (blind : Overlooks same) {act : Act}
    (quiet : ∀ what, act = .ask (.action a what) → what.Quiet same)
    (led : ∀ target, act = .lead a target → ∀ r key, same r { r with next := some key }) :
    Workshop.Alike same a w (act.run w) := by
  have still : w.SameActions (act.run w) → Workshop.Alike same a w (act.run w) := fun still => by
    rw [Workshop.Alike, still.at]
    exact refl_of same _
  cases act with
  | ask r => exact (Watches.request blind fun what is => quiet what (is ▸ rfl)).kept
  | begin config =>
    refine still fun i => ?_
    rw [Act.run, draftAtPush]
    split
    · rename_i new
      rw [Workshop.draftAtOutside (Nat.le_of_eq new.symm)]
      rfl
    · rfl
  | take i =>
    refine still fun j => ?_
    rw [Act.run, Workshop.draftAtTaking]
    split <;> rfl
  | release i =>
    refine still fun j => ?_
    rw [Act.run, Workshop.draftAtReleasing]
    split <;> rfl
  | follow n target => exact still (Idle.setNext n target w).kept
  | branch n condition target => exact still (Idle.changeNode n _ w).kept
  | splice n target => exact still (Idle.splice n target w).kept
  | lead b target => exact (Watches.setNext b target fun own => led target (own ▸ rfl) _).kept

end Dialogue
