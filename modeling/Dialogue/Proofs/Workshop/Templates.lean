import Dialogue.Proofs.Workshop.Tending

/-! Frozen nodes as templates. Whatever is authored leaves a frozen node as it is, with one way round: a returning
link leads on from the last node of the chain that it brings in, and does not look whether that node is frozen. The
chain is brought in as it stands if it begins at an open node, and frozen nodes further down it are no copies. -/
namespace Dialogue
variable {past : NodeRef → Prop} {w w₁ w' : Workshop} {n target : NodeRef} {d : Draft}

def Link.finds (w : Workshop) (i : Nat) : Link → Option NodeRef
  | .node target => some target
  | .named name => ((w.draftAt i).names.get? name).map fun key => ⟨i, key⟩
  | .deferred _ => none

namespace Draft
variable {key start : Nat}

def linked (d : Draft) (key target : Nat) : Draft :=
  (d.changeNode target fun n => { n with prev := some key }).changeNode key fun n => { n with next := some target }

theorem nextLinked (here : key < d.nodes.size) (target k : Nat) :
    ((d.linked key target).node k).next = if k = key then some target else (d.node k).next := by
  rw [linked, nodeChangeNode, nodesChangeNode]
  by_cases same : k = key
  · rw [if_pos ⟨same, here⟩, if_pos same]
  · rw [if_neg fun both => same both.1, if_neg same, nodeChangeNode]
    split <;> rfl

theorem frozenLinked (d : Draft) (key target k : Nat) :
    ((d.linked key target).node k).frozen = (d.node k).frozen := by
  have first : ((d.changeNode target fun n => { n with prev := some key }).node k).frozen = (d.node k).frozen := by
    rw [nodeChangeNode]
    split <;> rfl
  rw [linked, nodeChangeNode, ← first]
  split <;> rfl

theorem tailLinked (here : key < d.nodes.size) (start : Nat) :
    (d.linked key start).tail start = start ∨ (d.linked key start).tail start = d.tail start := by
  have walks := (d.linked key start).successorsWalk start
  by_cases back : key ∈ ((d.linked key start).successors start).nodes
  · left
    have again := walks.back back ((nextLinked here start key).trans (if_pos rfl))
    rw [Draft.tail, Trail.stop, again]
  · right
    have same : (d.linked key start).successors start = d.successors start := by
      refine (walks.congr fun k mem => ?_).unique (d.successorsWalk start)
      have other : k ≠ key := fun equal => back (equal ▸ mem)
      rw [nextLinked here, if_neg other]
    rw [Draft.tail, same, Draft.tail]

theorem tailBeforeTail {goal last : Nat} (ends : d.tailBefore? start goal = some last) : last = d.tail start := by
  simp only [tailBefore?] at ends
  split at ends
  · contradiction
  · exact (Option.some.inj ends).symm

theorem tailCopy (d : Draft) (start : Nat) : d.nodes.size ≤ (d.cloneChain start).1.tail d.nodes.size := by
  have walks := (d.cloneChain start).1.successorsWalk d.nodes.size
  have reached := walks.memIff.mp walks.stopMem
  change Relation.ReflTransGen _ _ ((d.cloneChain start).1.tail d.nodes.size) at reached
  generalize (d.cloneChain start).1.tail d.nodes.size = last at reached
  induction reached with
  | refl => exact Nat.le_refl _
  | tail _ leads ih => exact cloneChainLeads d start ih leads

end Draft

inductive Workshop.Links (w : Workshop) (n target : NodeRef) (key : Nat) (w' : Workshop) : Prop where
  | itself (opened : target.Open w) (same : key = target.key)
      (linked : w'.draftAt n.draft = (w.draftAt n.draft).linked n.key target.key)
  | copy (frozen : ¬ target.Open w) (new : key = (w.draftAt n.draft).nodes.size) (linked : w'.draftAt n.draft =
      ((w.draftAt n.draft).cloneChain target.key).1.linked n.key (w.draftAt n.draft).nodes.size)

namespace Tending

theorem setNextLinks (here : n.Inside w) (there : target.Inside w) :
    Outcome w (n.setNext target) (fun m w' => target.draft = n.draft ∧ w.Links n target m.key w')
    fun _ _ => True := by
  have links : ∀ (w₁ : Workshop) (key : Nat), n.draft < w₁.drafts.size → Outcome w₁ (do
      (⟨n.draft, key⟩ : NodeRef).change fun r => { r with prev := some n.key }
      n.change fun r => { r with next := some key }
      return (⟨n.draft, key⟩ : NodeRef)) (fun m w' =>
        m.key = key ∧ w'.draftAt n.draft = (w₁.draftAt n.draft).linked n.key key) fun _ _ => True := by
    intro w₁ key inside
    refine (Checked.changeDraft inside).bind fun _ w₂ back => ?_
    refine (Checked.changeDraft (back.drafts ▸ inside)).bind fun _ w₃ forth => ?_
    exact ⟨rfl, by rw [forth.here, back.here]; rfl⟩
  unfold NodeRef.setNext
  refine Checked.after (Checked.nodeOfDraft target n.draft) fun _ own => ?_
  refine (Checked.linkable there).bind fun m w₁ ⟨same, opened, which⟩ => ?_
  obtain ⟨i, key⟩ := m
  obtain rfl : i = n.draft := same.trans own
  dsimp only
  split
  · trivial
  · rcases which with ⟨itself, rfl⟩ | ⟨frozen, new, changed⟩
    · subst itself
      refine (links w₁ key here.drafted).weaken ?_ fun _ _ => id
      exact fun _ _ ⟨same, linked⟩ => ⟨own, .itself opened same linked⟩
    · rw [own] at new changed
      refine (links w₁ key (changed.drafts ▸ here.drafted)).weaken ?_ fun _ _ => id
      rintro _ _ ⟨rfl, linked⟩
      rw [changed.here] at linked
      refine ⟨own, .copy (fun unfrozen => ?_) new (new ▸ linked)⟩
      cases frozen.symm.trans unfrozen

theorem endAfterLink (sound : w.Sound) (here : n.Inside w) (there : target.Inside w) {key last : Nat}
    (own : target.draft = n.draft) (links : w.Links n target key w₁)
    (ends : last = (w₁.draftAt n.draft).tail key) :
    (⟨n.draft, last⟩ : NodeRef).Open w₁ ∨ target.Open w ∧ last = (w.draftAt n.draft).tail target.key := by
  obtain ⟨i, start⟩ := target
  obtain rfl : i = n.draft := own
  have bound := (sound n.draft).bound
  obtain ⟨opened, rfl, linked⟩ | ⟨_, rfl, linked⟩ := links
  · rw [linked] at ends
    rcases Draft.tailLinked here key with same | tail
    · left
      rw [NodeRef.Open, linked, Draft.frozenLinked, ends, same]
      exact opened
    · exact .inr ⟨opened, ends.trans tail⟩
  · left
    obtain ⟨edits, copied⟩ := Draft.cloneChainEdits bound there
    rw [Draft.cloneChainKey] at copied
    have bound' := edits.bound bound
    rw [linked] at ends
    rw [NodeRef.Open, linked, Draft.frozenLinked]
    refine Draft.cloneChainUnfrozen _ _ ?_
    rcases Draft.tailLinked (Nat.lt_of_lt_of_le here edits.nodesGrow) _ with same | tail
    · exact Nat.le_of_eq (ends.trans same).symm
    · exact (ends.trans tail) ▸ Draft.tailCopy _ _

theorem splice (sound : w.Sound) (here : n.Inside w) (there : target.Inside w) (opened : n.Open w)
    (ends : target.draft = n.draft → target.Open w → past ⟨n.draft, (w.draftAt n.draft).tail target.key⟩) :
    Tending past w (n.splice target) fun _ _ => True := by
  have tending : Tending past w (n.setNext target) fun _ _ => True := setNext w (.inl opened) target
  have linked := tending.along ((setNextLinks here there).both (Calls.setNext sound ⟨rfl, here⟩ there))
  unfold NodeRef.splice
  refine Keeps.nodeRecord ?_
  split
  · exact .throw trivial
  · rename_i key _
    refine linked.bind fun m w₁ _ ⟨_, step, _, own, links⟩ => ?_
    have told : ∀ w₂ : Workshop, Tending past w₂ (do
        Authoring.tell [.returning (← n.record).id (← m.record).id (← (⟨n.draft, key⟩ : NodeRef).record).id]
        return n) fun _ _ => True := fun w₂ =>
      Keeps.nodeRecord (Keeps.nodeRecord (Keeps.nodeRecord ((tell w₂ _).bind fun _ _ _ _ => .pure trivial)))
    refine Keeps.draftAt ?_
    dsimp only
    split
    · rename_i last before
      have tail := Draft.tailBeforeTail before
      have free := endAfterLink sound here there own links tail
      refine (setNext w₁ (free.imp_right ?_) _).bind fun _ w₂ _ _ => told w₂
      exact fun ⟨still, same⟩ => same ▸ ends own still
    · exact told w₁

theorem openedExtends {m : NodeRef} (opened : Checked.Opened w n m w₁) :
    (w.draftAt n.draft).Extends (w₁.draftAt n.draft) ∧ (w₁.draftAt n.draft).names = (w.draftAt n.draft).names := by
  cases opened with
  | itself => exact ⟨.refl _, rfl⟩
  | copy _ _ changed =>
    rw [changed.here]
    exact ⟨Draft.cloneChainExtends _ _, Draft.cloneChainNames _ _⟩

theorem writeOpen (sound : w.Sound) (here : n.Inside w) (operation : String) :
    Tending past w (n.writable operation) fun m w₁ => m.Open w₁ ∧ m.Of n.draft w₁ ∧ w₁.Sound ∧
      w.Evolves n.draft w₁ ∧ (w.draftAt n.draft).Extends (w₁.draftAt n.draft) ∧
      (w₁.draftAt n.draft).names = (w.draftAt n.draft).names := by
  have known := (Checked.writable here operation).both (Calls.writable sound ⟨rfl, here⟩ operation)
  refine ((writable w n operation).along known).weaken ?_
  rintro m w₁ _ ⟨⟨_, opened⟩, step, given, which⟩
  obtain ⟨more, names⟩ := openedExtends which
  exact ⟨opened, given, step.sound sound, step, more, names⟩

theorem returnsTo (sound : w.Sound) (here : n.Inside w) {link : Link} (there : Calls.Inside w link)
    (free : ∀ target, link.finds w n.draft = some target → target.draft = n.draft → target.Open w →
      past ⟨n.draft, (w.draftAt n.draft).tail target.key⟩) :
    Tending past w (n.returnsTo link) fun _ _ => True := by
  unfold NodeRef.returnsTo
  refine Keeps.after (Checked.linkOfDraft link n.draft) fun _ own => ?_
  refine (writeOpen sound here "returns_to").bind fun m w₁ _ ⟨opened, given, sound₁, step, more, names⟩ => ?_
  have spliced : ∀ target : NodeRef, link.finds w n.draft = some target → target.draft = n.draft →
      target.Inside w → Tending past w₁ (m.splice target) fun _ _ => True := by
    intro target found own inside
    refine splice sound₁ given.2 (inside.later step) opened fun _ unfrozen => ?_
    obtain ⟨i, key⟩ := target
    obtain rfl : i = n.draft := own
    have same := more.successors (sound n.draft).bound inside
    rw [given.1, Draft.tail, same]
    refine free _ found rfl ?_
    rw [NodeRef.Open, ← more.node key inside]
    exact unfrozen
  cases link with
  | deferred script => exact (defer _).bind fun _ _ _ _ => .pure trivial
  | node target => exact spliced target rfl (own target rfl) (there target rfl)
  | named name =>
    refine Keeps.after (Checked.lookUp name) ?_
    rintro ⟨i, key⟩ ⟨found, known⟩
    obtain rfl : i = n.draft := found.trans given.1
    rw [given.1, names] at known
    refine spliced _ ?_ rfl ((sound n.draft).bound.names name key known)
    rw [Link.finds, known]
    rfl

end Tending

namespace Request

/- The node that a request may lead on from although it is frozen: the end of a chain that begins at an open node. -/
inductive LeadsOn (w : Workshop) : Request → NodeRef → Prop where
  | tail {n target : NodeRef} {link : Link} (found : link.finds w n.draft = some target)
      (own : target.draft = n.draft) (opened : target.Open w) :
      LeadsOn w (.node n (.returnsTo link)) ⟨n.draft, (w.draftAt n.draft).tail target.key⟩

end Request

variable {a : ActionRef} {r : Request}

namespace Tending

theorem asNode {call : Authoring NodeRef} (tending : Tending past w call fun _ _ => True) :
    Tending past w (do return Vertex.node (← call)) fun _ _ => True := tending.bind fun _ _ _ _ => .pure trivial

theorem asAction {call : Authoring ActionRef} (tending : Tending past w call fun _ _ => True) :
    Tending past w (do return Vertex.action (← call)) fun _ _ => True := tending.bind fun _ _ _ _ => .pure trivial

theorem nodeRequest (sound : w.Sound) (here : n.Inside w) {what : NodeRequest} (live : what.Live w)
    (thawed : what ≠ .freeze) (free : ∀ k, (Request.node n what).LeadsOn w k → past k) :
    Tending past w (what.run n) fun _ _ => True := by
  cases what with
  | appendText fragments =>
    show Tending past w (n.appendText fragments) _
    exact editTexts w n _ _ _
  | prependText fragments =>
    show Tending past w (n.prependText fragments) _
    exact editTexts w n _ _ _
  | replaceText fragments =>
    show Tending past w (n.replaceText fragments) _
    exact editTexts w n _ _ _
  | attachAction => exact attachAction w n _
  | linkTo => exact linkTo w n _
  | branchOn => exact branchOn w n _ _ _ _
  | setEffect key value =>
    show Tending past w (n.setEffect key value) _
    exact pushEffect w n _ _
  | addEffect key value =>
    show Tending past w (n.addEffect key value) _
    exact pushEffect w n _ _
  | join => exact join w n
  | joinNamed => exact joinNamed w n _
  | joinWith => exact joinWith w n _
  | returnsTo => exact returnsTo sound here live fun target found own opened => free _ (.tail found own opened)
  | clone => exact (clone w n).weaken fun _ _ _ _ => trivial
  | freeze => exact absurd rfl thawed

theorem actionRequest (w : Workshop) (a : ActionRef) (what : ActionRequest) :
    Tending past w (what.run a) fun _ _ => True := by
  cases what with
  | label text => exact asAction (edit w a "label" _)
  | appendText fragments => exact asAction (editActionTexts w a "append_text" fragments _)
  | prependText fragments => exact asAction (editActionTexts w a "prepend_text" fragments _)
  | replaceText fragments => exact asAction (editActionTexts w a "replace_text" fragments _)
  | require key op value =>
    exact asAction (Keeps.after (Checked.operator op) fun op _ => edit w a "and" _)
  | allow key op value =>
    exact asAction (Keeps.after (Checked.operator op) fun op _ => edit w a "or" _)
  | setEffect | addEffect => exact asAction (edit w a _ _)
  | linkTo link => exact asAction (actionLinkTo w a link)
  | join => exact asNode (actionJoin w a)
  | joinNamed name => exact asNode (actionJoinNamed w a name)
  | freeze => exact asAction ((changeAction _).bind fun _ _ _ _ => .pure trivial)

theorem draftRequest (w : Workshop) (i : Nat) (what : DraftRequest) : Tending past w (what.run i) fun _ _ => True := by
  cases what with
  | newNode => exact asNode (addNode w i "gen")
  | newNamed name => exact asNode (newNamed w i name)
  | newAction label => exact asAction (newAction w i label)
  | newActionWith label script => exact asAction (newActionWith w i label script)
  | cloneTemplate n => exact asNode (cloneTemplate w i n)

end Tending

namespace Workshop

theorem freezeSpares (w : Workshop) (n : NodeRef) : w.Spares past (n.freeze.run w).2 := by
  intro i
  have changed := Calls.draftAtChanged w n.draft i fun d => d.freezeChain (d.head n.key)
  have same : (n.freeze.run w).2.draftAt i = if i = n.draft ∧ n.draft < w.drafts.size then
      (w.draftAt i).freezeChain ((w.draftAt i).head n.key) else w.draftAt i := changed
  rw [same]
  split
  · exact Draft.freezeAllSpares _ _
  · exact .refl

theorem requestSpares (sound : w.Sound) (live : r.Live w) : w.Spares (r.LeadsOn w) (r.run.run w).2 := by
  have tends : ∀ {call : Authoring Vertex}, Tending (r.LeadsOn w) w call (fun _ _ => True) →
      w.Spares (r.LeadsOn w) (call.run w).2 := fun tending i => (tending.kept i).toSpares
  cases r with
  | action a what => exact tends (Tending.actionRequest w a what)
  | draft i what => exact tends (Tending.draftRequest w i what)
  | node n what =>
    by_cases freezes : what = .freeze
    · subst freezes
      exact freezeSpares w n
    · exact tends (Tending.asNode (Tending.nodeRequest sound live.1 live.2 freezes fun _ => id))

theorem frozenStays (sound : w.Sound) {k : NodeRef} (frozen : ((w.draftAt k.draft).node k.key).frozen = true) :
    (∀ w', w.Authored (fun _ _ => True) w' →
      ∃ next, (w'.draftAt k.draft).node k.key = { (w.draftAt k.draft).node k.key with next }) ∧
    (∀ w', w.Authored (fun w r => ¬ r.LeadsOn w k) w' →
      (w'.draftAt k.draft).node k.key = (w.draftAt k.draft).node k.key) := by
  constructor
  · intro w' run
    induction run with
    | start => exact ⟨_, rfl⟩
    | next before live _ ih =>
      obtain ⟨next, same⟩ := ih
      have spares := requestSpares (before.sound sound) live k.draft
      obtain ⟨next', same'⟩ := spares.kept k.key (by rw [same]; exact frozen)
      exact ⟨next', by rw [same', same]⟩
  · intro w' run
    induction run with
    | start => rfl
    | next before live apart ih =>
      have spares := requestSpares (before.sound sound) live k.draft
      exact (spares.same k.key (by rw [ih]; exact frozen) apart).trans ih

def evening : Workshop := (Machine.after Machine.passDepth {} [
  .mk none none (some "day") (.newNamed "day"),
  .mk (some "day") none (some "dusk") (.joinNamed "dusk"),
  .mk none none (some "song") (.newNamed "song"),
  .mk (some "song") none (some "last") (.joinNamed "last"),
  .mk none none (some "other") (.newNamed "other"),
  .mk (some "other") none none (.linkTo (.node "last")),
  .mk (some "last") none none .freeze]).workshop

def singing : Request := .node ⟨0, 0⟩ (.returnsTo (.node ⟨0, 2⟩))

def humming : Request := .node ⟨0, 3⟩ (.setEffect "hum" (.bool true))

theorem eveningInside (key : Nat) (old : key < 5) : (⟨0, key⟩ : NodeRef).Inside evening := by
  show key < (evening.draftAt 0).nodes.size
  exact Nat.lt_of_lt_of_le old (by decide)

theorem lastFrozen : ((evening.draftAt 0).node 3).frozen = true := rfl

theorem lastStays : evening.Sound ∧ ((evening.draftAt 0).node 3).frozen = true ∧
    (∃ next, ((singing.run.run evening).2.draftAt 0).node 3 = { (evening.draftAt 0).node 3 with next }) ∧
    ((humming.run.run evening).2.draftAt 0).node 3 = (evening.draftAt 0).node 3 := by
  have sound : evening.Sound := (Machine.afterSound _ _ _).drafts
  obtain ⟨most, apart⟩ := frozenStays sound (k := ⟨0, 3⟩) lastFrozen
  have sung : evening.Authored (fun _ _ => True) (singing.run.run evening).2 := by
    refine .next .start ⟨eveningInside 0 (by omega), fun _ given => ?_⟩ trivial
    cases given
    exact eveningInside 2 (by omega)
  have hummed : evening.Authored (fun w r => ¬ r.LeadsOn w ⟨0, 3⟩) (humming.run.run evening).2 :=
    .next .start ⟨eveningInside 3 (by omega), trivial⟩ nofun
  exact ⟨sound, lastFrozen, most _ sung, apart _ hummed⟩

theorem returningLinkChangesFrozen : ¬ ∀ (depth : Nat) (config : Config) (program : List Step) (k : NodeRef),
    (((Machine.after depth config program).workshop.draftAt k.draft).node k.key).frozen = true →
    ∀ w', (Machine.after depth config program).workshop.Authored (fun _ _ => True) w' →
      ((w'.draftAt k.draft).node k.key).next =
        (((Machine.after depth config program).workshop.draftAt k.draft).node k.key).next := by
  intro claim
  have sung : evening.Authored (fun _ _ => True) (singing.run.run evening).2 := by
    refine .next .start ⟨eveningInside 0 (by omega), fun _ given => ?_⟩ trivial
    cases given
    exact eveningInside 2 (by omega)
  have same := claim _ _ _ ⟨0, 3⟩ lastFrozen _ sung
  have leads : (((singing.run.run evening).2.draftAt 0).node 3).next = some 1 := by decide +kernel
  have before : ((evening.draftAt 0).node 3).next = none := rfl
  cases (leads.symm.trans same).trans before

end Workshop
end Dialogue
