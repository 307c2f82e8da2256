import Dialogue.Proofs.Workshop.Outcomes
import Dialogue.Proofs.Workshop.Waiting

/-! What requests register. A call with a deferred link registers that link, on the node or action it answers with, as
the last thing it does; no other call registers any. Whatever else a call does to a draft, the only links that come to
wait are those that the copies it makes take over. -/
namespace Dialogue

/- The first draft has become the second: some chains were copied on the way, and then these links were registered. -/
def Draft.Registers (d : Draft) (links : List Deferred) (d' : Draft) : Prop :=
  ∃ made, d.Gathers (Gain.ofCall made links) d'

namespace Draft.Registers
variable {d d' d'' : Draft} {links : List Deferred}

theorem still (pending : d'.pending = d.pending) (clones : d'.clones = d.clones)
    (resolving : d'.resolving = d.resolving) : d.Registers [] d' :=
  ⟨[], .still .start pending clones resolving⟩

theorem refl (d : Draft) : d.Registers [] d := still rfl rfl rfl

theorem trans (first : d.Registers [] d') (second : d'.Registers links d'') : d.Registers links d'' := by
  obtain ⟨made, run⟩ := first
  obtain ⟨made', run'⟩ := second
  refine ⟨made ++ made', ?_⟩
  simpa [Gain.ofCall] using run.trans run'

theorem copy {start : Nat} (inside : ∀ k ∈ (d.successors start).nodes, k < d.nodes.size) :
    d.Registers [] (d.cloneChain start).1 :=
  ⟨[_], .copy .start inside⟩

theorem one (link : Deferred) (outside : d.resolving = false) :
    d.Registers [link] { d with pending := d.pending ++ [link] } :=
  ⟨[], .link .start link outside⟩

theorem resolving (run : d.Registers links d') : d'.resolving = d.resolving := by
  obtain ⟨_, run⟩ := run
  exact run.resolving

theorem shut (run : d.Registers links d') (resolving : d.resolving = true) : d'.pending = d.pending ∧ links = [] := by
  obtain ⟨made, run⟩ := run
  obtain ⟨pending, none⟩ := run.shut resolving
  exact ⟨pending, (Gain.linksOfCall made links).symm.trans none⟩

end Draft.Registers

variable {α β : Type} {i : Nat} {w w' : Workshop} {n target : NodeRef} {a : ActionRef} {link : Link}

def Workshop.Registers (i : Nat) (links : List Deferred) (w w' : Workshop) : Prop :=
  (w.draftAt i).Registers links (w'.draftAt i)

instance : IsPreorder Workshop (Workshop.Registers i []) where
  refl := fun w => .refl (w.draftAt i)
  trans := fun _ _ _ first second => first.trans second

abbrev Plainly (i : Nat) (w : Workshop) (call : Authoring α) (post : α → Workshop → Prop) : Prop :=
  Keeps (Workshop.Registers i []) (fun _ => True) w call post

namespace Plainly

theorem changeDraft {f : Draft → Draft} (registers : (w.draftAt i).Registers [] (f (w.draftAt i))) :
    Plainly i w (Authoring.changeDraft i f) fun _ _ => True := by
  refine .ok ?_ trivial
  rw [Workshop.Registers, Calls.draftAtChanged]
  split
  · exact registers
  · exact .refl _

theorem tell (i : Nat) (w : Workshop) (notices : List Notice) : Plainly i w (Authoring.tell notices) fun _ _ => True :=
  .ok (.refl _) trivial

theorem made {g : Draft → Draft × Nat × List Notice} (registers : (w.draftAt i).Registers [] (g (w.draftAt i)).1) :
    Plainly i w (Authoring.made i g) fun _ _ => True := by
  unfold Authoring.made
  refine Keeps.draftAt ?_
  refine (changeDraft registers).bind fun _ w₁ _ _ => ?_
  exact (tell i w₁ _).bind fun _ _ _ _ => .pure trivial

theorem changeNode (own : n.draft = i) (f : DraftNode → DraftNode) : Plainly i w (n.change f) fun _ _ => True := by
  subst own
  exact changeDraft (.still rfl rfl rfl)

theorem changeAction (own : a.draft = i) (f : DraftAction → DraftAction) :
    Plainly i w (a.change f) fun _ _ => True := by
  subst own
  exact changeDraft (.still rfl rfl rfl)

theorem paced (i j : Nat) (w : Workshop) (fragments : List Fragment) :
    Plainly i w (Authoring.paced j fragments) fun _ _ => True := by
  unfold Authoring.paced
  exact (tell i w _).bind fun _ _ _ _ => Keeps.draftAt (.pure trivial)

theorem given {call : Authoring NodeRef} (plain : Plainly i w call fun _ _ => True)
    (calls : Calls i w call (NodeRef.Of i)) : Plainly i w call fun m w' => w.Evolves i w' ∧ m.Of i w' := by
  obtain ⟨kept, _, _⟩ := plain
  exact ⟨kept, fun m ok => ⟨calls.kept, calls.returned m ok⟩, fun _ _ => trivial⟩

theorem clone (sound : w.Sound) (here : n.Of i w) : Plainly i w n.clone fun m w' => w.Evolves i w' ∧ m.Of i w' := by
  refine given ?_ (Calls.clone sound here)
  obtain ⟨rfl, here⟩ := here
  unfold NodeRef.clone
  refine (made (.copy ?_)).bind fun _ _ _ _ => .pure trivial
  exact ((sound n.draft).bound.successors here).nodes

theorem writable (sound : w.Sound) (here : n.Of i w) (operation : String) :
    Plainly i w (n.writable operation) fun m w' => w.Evolves i w' ∧ m.Of i w' := by
  refine given ?_ (Calls.writable sound here operation)
  unfold NodeRef.writable
  refine Keeps.nodeRecord ?_
  split
  · refine Keeps.draftAt ?_
    split
    · exact .throw trivial
    · refine (clone sound here).bind fun copy w₁ _ _ => Keeps.nodeRecord ?_
      exact (tell i w₁ _).bind fun _ _ _ _ => .pure trivial
  · exact .pure trivial

theorem linkable (sound : w.Sound) (here : n.Of i w) :
    Plainly i w n.linkable fun m w' => w.Evolves i w' ∧ m.Of i w' := by
  refine given ?_ (Calls.linkable sound here)
  unfold NodeRef.linkable
  refine Keeps.nodeRecord ?_
  split
  · exact (clone sound here).weaken fun _ _ _ _ => trivial
  · exact .pure trivial

theorem setNext (sound : w.Sound) (here : n.Of i w) (there : target.Inside w) :
    Plainly i w (n.setNext target) fun m w' => w.Evolves i w' ∧ m.Of i w' := by
  refine given ?_ (Calls.setNext sound here there)
  obtain ⟨rfl, here⟩ := here
  unfold NodeRef.setNext
  refine Keeps.after (Checked.nodeOfDraft target n.draft) fun _ own => ?_
  refine (linkable sound ⟨own, there⟩).bind fun m w₁ _ ⟨_, linked⟩ => ?_
  dsimp only
  split
  · exact Keeps.nodeRecord (.throwBind trivial)
  · refine (changeNode linked.1 _).bind fun _ w₂ _ _ => ?_
    exact (changeNode rfl _).bind fun _ _ _ _ => .pure trivial

theorem editTexts (sound : w.Sound) (here : n.Of i w) (operation : String) (fragments : List Fragment)
    (edit : List Segment → List Segment → List Segment) :
    Plainly i w (n.editTexts operation fragments edit) fun _ _ => True := by
  unfold NodeRef.editTexts
  refine (writable sound here operation).bind fun m w₁ _ ⟨_, given⟩ => ?_
  refine (paced i m.draft w₁ fragments).bind fun segments w₂ _ _ => ?_
  exact (changeNode given.1 _).bind fun _ _ _ _ => .pure trivial

theorem pushEffect (sound : w.Sound) (here : n.Of i w) (operation : String) (e : Effect) :
    Plainly i w (n.pushEffect operation e) fun _ _ => True := by
  unfold NodeRef.pushEffect
  refine (writable sound here operation).bind fun m w₁ _ ⟨_, given⟩ => ?_
  exact (changeNode given.1 _).bind fun _ _ _ _ => .pure trivial

theorem attachAction (sound : w.Sound) (here : n.Of i w) (a : ActionRef) :
    Plainly i w (n.attachAction a) fun _ _ => True := by
  unfold NodeRef.attachAction
  refine Keeps.after (Checked.actionOfDraft a n.draft) fun _ own => ?_
  refine (writable sound here _).bind fun m w₁ _ ⟨_, given⟩ => ?_
  refine (changeNode given.1 _).bind fun _ w₂ _ _ => ?_
  exact (changeAction (own.trans here.1) _).bind fun _ _ _ _ => .pure trivial

theorem lookUp (sound : w.Sound) {j : Nat} (name : String) {rest : NodeRef → Authoring β} {post : β → Workshop → Prop}
    (then_ : ∀ m, m.draft = j → m.Inside w → Plainly i w (rest m) post) :
    Plainly i w (Authoring.lookUp j name >>= rest) post := by
  refine Keeps.after (Checked.lookUp name) fun m ⟨own, known⟩ => then_ m own ?_
  subst own
  exact (sound m.draft).bound.names name m.key known

def Immediate (link : Link) : Prop := ∀ script, link ≠ .deferred script

theorem linkTo (sound : w.Sound) (here : n.Of i w) (there : Calls.Inside w link) (now : Immediate link) :
    Plainly i w (n.linkTo link) fun _ _ => True := by
  unfold NodeRef.linkTo
  refine Keeps.after (Checked.linkOfDraft link n.draft) fun _ _ => ?_
  refine (writable sound here _).bind fun m w₁ _ ⟨step, given⟩ => ?_
  dsimp only
  cases link with
  | deferred script => exact absurd rfl (now script)
  | node target =>
    refine (setNext (step.sound sound) given ((there target rfl).later step)).bind fun _ _ _ _ => .pure trivial
  | named name =>
    refine lookUp (step.sound sound) name fun target _ there => ?_
    exact (setNext (step.sound sound) given there).bind fun _ _ _ _ => .pure trivial

theorem branchOn (sound : w.Sound) (here : n.Of i w) (key op : String) (value : Json) (now : Immediate link) :
    Plainly i w (n.branchOn key op value link) fun _ _ => True := by
  unfold NodeRef.branchOn
  refine Keeps.after (Checked.operator op) fun op _ => ?_
  refine Keeps.after (Checked.linkOfDraft link n.draft) fun _ _ => ?_
  refine (writable sound here _).bind fun m w₁ _ ⟨step, given⟩ => ?_
  have pushed : ∀ (condition : Condition) (target : NodeRef), Plainly i w₁ (m.pushRule condition target)
      fun _ _ => True := fun _ _ => changeNode given.1 _
  dsimp only
  cases link with
  | deferred script => exact absurd rfl (now script)
  | node target => exact (pushed _ target).bind fun _ _ _ _ => .pure trivial
  | named name =>
    refine lookUp (step.sound sound) name fun target _ _ => ?_
    exact (pushed _ target).bind fun _ _ _ _ => .pure trivial

theorem joinWith (sound : w.Sound) (here : n.Of i w) (there : Calls.Inside w link) (now : Immediate link) :
    Plainly i w (n.joinWith link) fun _ _ => True := by
  have joined : ∀ target : NodeRef, target.Inside w →
      Plainly i w (do (← n.writable "join").setNext target) fun _ _ => True := fun target there => by
    refine (writable sound here _).bind fun m w₁ _ ⟨step, given⟩ => ?_
    exact (setNext (step.sound sound) given (there.later step)).weaken fun _ _ _ _ => trivial
  unfold NodeRef.joinWith
  refine Keeps.after (Checked.linkOfDraft link n.draft) fun _ _ => ?_
  cases link with
  | deferred script => exact absurd rfl (now script)
  | node target => exact joined target (there target rfl)
  | named name => exact lookUp sound name fun target _ inside => joined target inside

theorem splice (sound : w.Sound) (here : n.Of i w) (there : target.Inside w) :
    Plainly i w (n.splice target) fun _ _ => True := by
  unfold NodeRef.splice
  refine Keeps.nodeRecord ?_
  split
  · exact .throw trivial
  · rename_i key leads
    obtain ⟨rfl, inside⟩ := here
    have previous : (⟨n.draft, key⟩ : NodeRef).Inside w := ((sound n.draft).bound.nodes n.key).next key leads
    refine (setNext sound ⟨rfl, inside⟩ there).bind fun m w₁ _ ⟨step, given⟩ => ?_
    have told : ∀ w₂ : Workshop, Plainly n.draft w₂ (do
        Authoring.tell [.returning (← n.record).id (← m.record).id (← (⟨n.draft, key⟩ : NodeRef).record).id]
        return n) fun _ _ => True := fun w₂ =>
      Keeps.nodeRecord (Keeps.nodeRecord (Keeps.nodeRecord ((tell _ w₂ _).bind fun _ _ _ _ => .pure trivial)))
    refine Keeps.draftAt ?_
    dsimp only
    split
    · rename_i last ends
      have lastInside : (⟨n.draft, last⟩ : NodeRef).Inside w₁ :=
        (step.sound sound n.draft).bound.tailBefore (given.1 ▸ given.2) ends
      exact (setNext (step.sound sound) ⟨rfl, lastInside⟩ (previous.later step)).bind fun _ w₂ _ _ => told w₂
    · exact told w₁

theorem returnsTo (sound : w.Sound) (here : n.Of i w) (there : Calls.Inside w link) (now : Immediate link) :
    Plainly i w (n.returnsTo link) fun _ _ => True := by
  unfold NodeRef.returnsTo
  refine Keeps.after (Checked.linkOfDraft link n.draft) fun _ _ => ?_
  refine (writable sound here _).bind fun m w₁ _ ⟨step, given⟩ => ?_
  cases link with
  | deferred script => exact absurd rfl (now script)
  | node target => exact splice (step.sound sound) given ((there target rfl).later step)
  | named name => exact lookUp (step.sound sound) name fun target _ inside => splice (step.sound sound) given inside

theorem freeze (own : n.draft = i) : Plainly i w n.freeze fun _ _ => True := by
  subst own
  unfold NodeRef.freeze
  have marked : ∀ d : Draft, d.Registers [] (d.freezeChain (d.head n.key)) := fun d => by
    rw [Draft.freezeChain, (d.restFreezeAll _).1]
    exact .still rfl rfl rfl
  exact (changeDraft (marked _)).bind fun _ _ _ _ => .pure trivial

theorem addNode (i : Nat) (w : Workshop) (name : String) : Plainly i w (Workshop.addNode i name) fun _ _ => True := by
  unfold Workshop.addNode
  exact (made (.still rfl rfl rfl)).bind fun _ _ _ _ => .pure trivial

theorem newNamed (i : Nat) (w : Workshop) (name : String) : Plainly i w (Workshop.newNamed i name) fun _ _ => True := by
  have registered : ∀ d : Draft, d.Registers [] ((d.addNode name).1.register name d.nodes.size).1 := fun d => by
    unfold Draft.register
    split <;> exact .still rfl rfl rfl
  unfold Workshop.newNamed
  exact (made (registered _)).bind fun _ _ _ _ => .pure trivial

theorem newAction (i : Nat) (w : Workshop) (label : String) :
    Plainly i w (Workshop.newAction i label) fun a _ => a.draft = i := by
  unfold Workshop.newAction
  exact (made (.still rfl rfl rfl)).bind fun _ _ _ _ => .pure rfl

theorem cloneTemplate (sound : w.Sound) (there : n.Inside w) :
    Plainly i w (Workshop.cloneTemplate i n) fun _ _ => True := by
  unfold Workshop.cloneTemplate
  refine Keeps.after (Checked.nodeOfDraft n i) fun _ own => ?_
  exact (clone sound ⟨own, there⟩).weaken fun _ _ _ _ => trivial

theorem join (sound : w.Sound) (here : n.Of i w) : Plainly i w n.join fun _ _ => True := by
  obtain ⟨rfl, here⟩ := here
  unfold NodeRef.join
  have added := given (addNode n.draft w "gen") (Calls.addNode here.drafted "gen")
  refine added.bind fun m w₁ _ ⟨step, given⟩ => ?_
  exact joinWith (step.sound sound) ⟨rfl, here.later step⟩ (fun _ same => by cases same; exact given.2) nofun

theorem joinNamed (sound : w.Sound) (here : n.Of i w) (name : String) :
    Plainly i w (n.joinNamed name) fun _ _ => True := by
  obtain ⟨rfl, here⟩ := here
  unfold NodeRef.joinNamed
  have added := given (newNamed n.draft w name) (Calls.newNamed here.drafted name)
  refine added.bind fun m w₁ _ ⟨step, given⟩ => ?_
  exact joinWith (step.sound sound) ⟨rfl, here.later step⟩ (fun _ same => by cases same; exact given.2) nofun

theorem actionSetNext (sound : w.Sound) (own : a.draft = i) (there : target.Inside w) :
    Plainly i w (a.setNext target) fun _ _ => True := by
  unfold ActionRef.setNext
  refine Keeps.after (Checked.nodeOfDraft target a.draft) fun _ same => ?_
  refine (linkable sound ⟨same.trans own, there⟩).bind fun m w₁ _ _ => ?_
  exact (changeAction own _).bind fun _ _ _ _ => .pure trivial

theorem edit (own : a.draft = i) (operation : String) (f : DraftAction → DraftAction) :
    Plainly i w (a.edit operation f) fun _ _ => True := by
  unfold ActionRef.edit
  refine Keeps.after (Checked.actionWritable a operation) fun _ _ => ?_
  exact (changeAction own f).bind fun _ _ _ _ => .pure trivial

theorem editActionTexts (own : a.draft = i) (operation : String) (fragments : List Fragment)
    (edit : List Segment → List Segment → List Segment) :
    Plainly i w (a.editTexts operation fragments edit) fun _ _ => True := by
  unfold ActionRef.editTexts
  refine Keeps.after (Checked.actionWritable a operation) fun _ _ => ?_
  refine (paced i a.draft w fragments).bind fun segments w₁ _ _ => ?_
  exact (changeAction own _).bind fun _ _ _ _ => .pure trivial

theorem actionLinkTo (sound : w.Sound) (own : a.draft = i) (there : Calls.Inside w link) (now : Immediate link) :
    Plainly i w (a.linkTo link) fun _ _ => True := by
  unfold ActionRef.linkTo
  refine Keeps.after (Checked.actionWritable a "link_to") fun _ _ => ?_
  dsimp only
  cases link with
  | deferred script => exact absurd rfl (now script)
  | node target => exact (actionSetNext sound own (there target rfl)).bind fun _ _ _ _ => .pure trivial
  | named name =>
    refine lookUp sound name fun target _ inside => ?_
    exact (actionSetNext sound own inside).bind fun _ _ _ _ => .pure trivial

theorem actionJoin (sound : w.Sound) (here : a.Of i w) : Plainly i w a.join fun _ _ => True := by
  obtain ⟨rfl, here⟩ := here
  unfold ActionRef.join
  refine Keeps.after (Checked.actionWritable a "join") fun _ _ => ?_
  have added := given (addNode a.draft w "gen") (Calls.addNode here.drafted "gen")
  refine added.bind fun m w₁ _ ⟨step, given⟩ => ?_
  exact actionSetNext (step.sound sound) rfl given.2

theorem actionJoinNamed (sound : w.Sound) (here : a.Of i w) (name : String) :
    Plainly i w (a.joinNamed name) fun _ _ => True := by
  obtain ⟨rfl, here⟩ := here
  unfold ActionRef.joinNamed
  refine Keeps.after (Checked.actionWritable a "join") fun _ _ => ?_
  have added := given (newNamed a.draft w name) (Calls.newNamed here.drafted name)
  refine added.bind fun m w₁ _ ⟨step, given⟩ => ?_
  exact actionSetNext (step.sound sound) rfl given.2

end Plainly

def Vertex.key : Vertex → Nat
  | .node n => n.key
  | .action a => a.key

namespace NodeRequest

def registers (key : Nat) : NodeRequest → List Deferred
  | .linkTo (.deferred script) | .joinWith (.deferred script) => [.successor key script]
  | .branchOn subject op value (.deferred script) =>
    (Operator.ofToken? op).toList.map fun op => .branch key ⟨subject, ⟨op, value⟩⟩ script
  | .returnsTo (.deferred script) => [.returns key script]
  | _ => []

end NodeRequest

def ActionRequest.registers (key : Nat) : ActionRequest → List Deferred
  | .linkTo (.deferred script) => [.actionSuccessor key script]
  | _ => []

def DraftRequest.registers (key : Nat) : DraftRequest → List Deferred
  | .newActionWith _ script => [.actionBuild key script]
  | _ => []

def Request.registers (key : Nat) : Request → List Deferred
  | .node _ what => what.registers key
  | .action _ what => what.registers key
  | .draft _ what => what.registers key

def Registering (i : Nat) (w : Workshop) (call : Authoring α) (links : α → List Deferred) : Prop :=
  Outcome w call (fun a w' => w.Registers i (links a) w') fun _ w' => w.Registers i [] w'

namespace Registering
variable {call : Authoring α} {links : α → List Deferred}

theorem plain {post : α → Workshop → Prop} (plainly : Plainly i w call post) (none : ∀ a, links a = []) :
    Registering i w call links := by
  have kept : w.Registers i [] (call.run w).2 := plainly.kept
  unfold Registering Outcome
  generalize call.run w = result at *
  obtain ⟨e | a, w'⟩ := result
  · exact kept
  · show w.Registers i (links a) w'
    rw [none a]
    exact kept

theorem bind {rest : β → Authoring α} {first : Authoring β} {mid : β → Workshop → Prop}
    (begins : Plainly i w first mid) (then_ : ∀ b w', mid b w' → Registering i w' (rest b) links) :
    Registering i w (first >>= rest) links := by
  obtain ⟨kept, returned, _⟩ := begins
  unfold Registering Outcome
  rw [runBind]
  generalize first.run w = result at *
  obtain ⟨e | b, w₁⟩ := result
  · exact kept
  · have further := then_ b w₁ (returned b rfl)
    unfold Registering Outcome at further
    change (w.draftAt i).Registers [] (w₁.draftAt i) at kept
    dsimp only
    generalize (rest b).run w₁ = result at *
    obtain ⟨e | a, w₂⟩ := result
    · exact kept.trans further
    · exact kept.trans further

theorem after {rest : β → Authoring α} {first : Authoring β} {given : β → Prop} {refused : AuthoringError → Prop}
    (checked : Checked w first (fun b w' => w' = w ∧ given b) refused)
    (then_ : ∀ b, given b → Registering i w (rest b) links) : Registering i w (first >>= rest) links := by
  refine bind (Keeps.checked checked) ?_
  rintro b _ ⟨rfl, holds⟩
  exact then_ b holds

theorem defer (inside : i < w.drafts.size) {a : α} {link : Deferred} (same : links a = [link]) :
    Registering i w (do Authoring.defer i link; return a) links := by
  have taken : Outcome w (Authoring.defer i link) (fun _ w' => w.Registers i [link] w') fun _ w' =>
      w.Registers i [] w' := by
    unfold Authoring.defer
    refine Checked.draftAt ?_
    dsimp only
    split
    · exact .throwBind (.refl _)
    · rename_i outside
      refine (Checked.tell w _).bind fun _ w₁ told => ?_
      have here : w₁.draftAt i = w.draftAt i := by rw [Workshop.draftAt, told, Workshop.draftAt]
      refine (Checked.changeDraft (told ▸ inside)).weaken (fun _ w₂ changed => ?_) fun _ _ => id
      rw [Workshop.Registers, changed.here, here]
      exact .one link (Bool.eq_false_iff.mpr outside)
  refine Outcome.bind taken fun _ w' registered => .pure ?_
  rwa [same]

theorem onNode (sound : w.Sound) (here : n.Inside w) (operation : String) (make : Nat → Deferred) :
    Registering n.draft w (do
      let m ← n.writable operation
      Authoring.defer m.draft (make m.key)
      return m) fun m => [make m.key] := by
  refine bind (Plainly.writable sound ⟨rfl, here⟩ operation) fun m w₁ ⟨step, given⟩ => ?_
  rw [given.1]
  exact defer (step.drafts ▸ here.drafted) rfl

theorem linkTo (sound : w.Sound) (here : n.Inside w) (script : Script) :
    Registering n.draft w (n.linkTo (.deferred script)) fun m => [.successor m.key script] := by
  unfold NodeRef.linkTo
  exact after (Checked.linkOfDraft _ n.draft) fun _ _ => onNode sound here "link_to" (.successor · script)

theorem branchOn (sound : w.Sound) (here : n.Inside w) (key op : String) (value : Json) (script : Script) :
    Registering n.draft w (n.branchOn key op value (.deferred script)) fun m =>
      (Operator.ofToken? op).toList.map fun op => .branch m.key ⟨key, ⟨op, value⟩⟩ script := by
  unfold NodeRef.branchOn
  refine after (Checked.operator op) fun op known => ?_
  rw [known]
  refine after (Checked.linkOfDraft _ n.draft) fun _ _ => ?_
  exact onNode sound here "branch_on" (.branch · ⟨key, ⟨op, value⟩⟩ script)

theorem joinWith (sound : w.Sound) (here : n.Inside w) (script : Script) :
    Registering n.draft w (n.joinWith (.deferred script)) fun m => [.successor m.key script] := by
  unfold NodeRef.joinWith
  exact after (Checked.linkOfDraft _ n.draft) fun _ _ => linkTo sound here script

theorem returnsTo (sound : w.Sound) (here : n.Inside w) (script : Script) :
    Registering n.draft w (n.returnsTo (.deferred script)) fun m => [.returns m.key script] := by
  unfold NodeRef.returnsTo
  exact after (Checked.linkOfDraft _ n.draft) fun _ _ => onNode sound here "returns_to" (.returns · script)

theorem actionLinkTo (here : a.Inside w) (script : Script) :
    Registering a.draft w (a.linkTo (.deferred script)) fun a => [.actionSuccessor a.key script] := by
  unfold ActionRef.linkTo
  exact after (Checked.actionWritable a _) fun _ _ => defer here.drafted rfl

theorem newActionWith (inside : i < w.drafts.size) (label : String) (script : Script) :
    Registering i w (Workshop.newActionWith i label script) fun a => [.actionBuild a.key script] := by
  unfold Workshop.newActionWith
  have added := (Plainly.newAction i w label).along (Calls.newAction inside label).outcome
  refine bind added fun a w₁ ⟨_, step, _⟩ => ?_
  exact defer (step.drafts ▸ inside) rfl

theorem asNode {call : Authoring NodeRef} (links : Nat → List Deferred)
    (registering : Registering i w call fun m => links m.key) :
    Registering i w (do return Vertex.node (← call)) fun v => links v.key :=
  Outcome.bind registering fun _ _ registered => .pure registered

theorem asAction {call : Authoring ActionRef} (links : Nat → List Deferred)
    (registering : Registering i w call fun a => links a.key) :
    Registering i w (do return Vertex.action (← call)) fun v => links v.key :=
  Outcome.bind registering fun _ _ registered => .pure registered

theorem plainNode {call : Authoring NodeRef} {post : NodeRef → Workshop → Prop} (plainly : Plainly i w call post) :
    Registering i w (do return Vertex.node (← call)) fun _ => [] :=
  asNode (fun _ => []) (plain plainly fun _ => rfl)

theorem plainAction {call : Authoring ActionRef} {post : ActionRef → Workshop → Prop} (plainly : Plainly i w call post) :
    Registering i w (do return Vertex.action (← call)) fun _ => [] :=
  asAction (fun _ => []) (plain plainly fun _ => rfl)

theorem nodeRequest (sound : w.Sound) (here : n.Inside w) {what : NodeRequest} (live : what.Live w) :
    Registering n.draft w (what.run n) fun m => what.registers m.key := by
  have own : n.Of n.draft w := ⟨rfl, here⟩
  cases what with
  | appendText fragments =>
    show Registering _ w (n.appendText fragments) _
    exact plain (Plainly.editTexts sound own _ _ _) fun _ => rfl
  | prependText fragments =>
    show Registering _ w (n.prependText fragments) _
    exact plain (Plainly.editTexts sound own _ _ _) fun _ => rfl
  | replaceText fragments =>
    show Registering _ w (n.replaceText fragments) _
    exact plain (Plainly.editTexts sound own _ _ _) fun _ => rfl
  | attachAction a => exact plain (Plainly.attachAction sound own a) fun _ => rfl
  | linkTo link =>
    cases link with
    | deferred script => exact linkTo sound here script
    | node | named => exact plain (Plainly.linkTo sound own live nofun) fun _ => rfl
  | branchOn key op value link =>
    cases link with
    | deferred script => exact branchOn sound here key op value script
    | node | named => exact plain (Plainly.branchOn sound own key op value nofun) fun _ => rfl
  | setEffect key value =>
    show Registering _ w (n.setEffect key value) _
    exact plain (Plainly.pushEffect sound own _ _) fun _ => rfl
  | addEffect key value =>
    show Registering _ w (n.addEffect key value) _
    exact plain (Plainly.pushEffect sound own _ _) fun _ => rfl
  | join => exact plain (Plainly.join sound own) fun _ => rfl
  | joinNamed name => exact plain (Plainly.joinNamed sound own name) fun _ => rfl
  | joinWith link =>
    cases link with
    | deferred script => exact joinWith sound here script
    | node | named => exact plain (Plainly.joinWith sound own live nofun) fun _ => rfl
  | returnsTo link =>
    cases link with
    | deferred script => exact returnsTo sound here script
    | node | named => exact plain (Plainly.returnsTo sound own live nofun) fun _ => rfl
  | clone => exact plain (Plainly.clone sound own) fun _ => rfl
  | freeze => exact plain (Plainly.freeze rfl) fun _ => rfl

theorem actionRequest (sound : w.Sound) (here : a.Inside w) {what : ActionRequest} (live : what.Live w) :
    Registering a.draft w (what.run a) fun v => what.registers v.key := by
  have own : a.Of a.draft w := ⟨rfl, here⟩
  cases what with
  | label text => exact plainAction (Plainly.edit rfl "label" _)
  | appendText fragments => exact plainAction (Plainly.editActionTexts rfl "append_text" fragments _)
  | prependText fragments => exact plainAction (Plainly.editActionTexts rfl "prepend_text" fragments _)
  | replaceText fragments => exact plainAction (Plainly.editActionTexts rfl "replace_text" fragments _)
  | require key op value => exact plainAction (Keeps.after (Checked.operator op) fun _ _ => Plainly.edit rfl "and" _)
  | allow key op value => exact plainAction (Keeps.after (Checked.operator op) fun _ _ => Plainly.edit rfl "or" _)
  | setEffect key value => exact plainAction (Plainly.edit rfl "set_effect" _)
  | addEffect key value => exact plainAction (Plainly.edit rfl "add_effect" _)
  | linkTo link =>
    cases link with
    | deferred script => exact asAction (fun key => [.actionSuccessor key script]) (actionLinkTo here script)
    | node | named => exact plainAction (Plainly.actionLinkTo sound rfl live nofun)
  | join => exact plainNode (Plainly.actionJoin sound own)
  | joinNamed name => exact plainNode (Plainly.actionJoinNamed sound own name)
  | freeze =>
    have frozen : Plainly a.draft w a.freeze fun _ _ => True :=
      (Plainly.changeAction rfl _).bind fun _ _ _ _ => .pure trivial
    exact plainAction frozen

theorem draftRequest (sound : w.Sound) (inside : i < w.drafts.size) {what : DraftRequest} (live : what.Live w) :
    Registering i w (what.run i) fun v => what.registers v.key := by
  cases what with
  | newNode => exact plainNode (Plainly.addNode i w "gen")
  | newNamed name => exact plainNode (Plainly.newNamed i w name)
  | newAction label => exact plainAction (Plainly.newAction i w label)
  | newActionWith label script => exact asAction (fun key => [.actionBuild key script]) (newActionWith inside label script)
  | cloneTemplate n => exact plainNode (Plainly.cloneTemplate sound live)

end Registering

theorem Request.registering {r : Request} (sound : w.Sound) (live : r.Live w) :
    Registering r.draftIndex w r.run fun v => r.registers v.key := by
  cases r with
  | node n what => exact Registering.asNode (what.registers ·) (Registering.nodeRequest sound live.1 live.2)
  | action a what => exact Registering.actionRequest sound live.1 live.2
  | draft i what => exact Registering.draftRequest sound live.1 live.2

end Dialogue
