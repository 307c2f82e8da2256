import Dialogue.Proofs.Workshop.Passing

/-! Programs. Every step keeps a machine sound: the verbs one by one, scripts by induction on their steps, and the
scripts that build passes call by induction on how deep passes lie inside one another. So whatever a program has done,
its drafts are made by changes, and neither it nor a script of it has seen a compilation fail. -/
namespace Dialogue
variable {m m' : Machine} {i : Nat} {n : NodeRef} {a : ActionRef} {call : Run.Caller}

namespace Runs
variable {α : Type}

theorem logged (m : Machine) (kept : Option Play.State) (outcome : Play.Logged α) :
    Runs m (Run.logged kept outcome) fun _ _ => True := by
  unfold Run.logged
  refine (author (Calls.tell 0 _ _)).bind fun _ _ _ _ => ?_
  split
  · exact .pure trivial
  · exact .throw nofun

theorem session (m : Machine) (s : Play.Session) : Runs m (Run.session s) Done.Fine := by
  refine .pure ⟨nofun, fun b same => ?_, nofun⟩
  cases same
  trivial

theorem bindSession (m : Machine) (name : String) (s : Play.Session) :
    Runs m (modify (·.bind name (.session s))) fun _ _ => True :=
  (Keeps.modify fun sound => ⟨sound.bind name trivial, .same rfl⟩).weaken fun _ _ _ _ => trivial

theorem moveSession (m : Machine) (name : String) (s : Play.Session) (outcome : Play.Logged Play.Session) :
    Runs m (Run.moveSession name s outcome) Done.Fine := by
  unfold Run.moveSession
  refine (logged m _ outcome).bind fun next m₁ _ _ => ?_
  exact (bindSession m₁ name next).bind fun _ _ _ _ => plain nofun

theorem picked (sound : m.Sound) (s : Play.Session) (pick : Pick) : Runs m (Run.picked s pick) fun _ _ => True := by
  cases pick with
  | action var => exact (Reads.actionOf sound var).read fun _ _ => actionRecord (.pure trivial)
  | id id => exact .pure trivial
  | index k =>
    unfold Run.picked
    dsimp only
    split
    · exact .pure trivial
    · exact refuse _

theorem onSession (sound : m.Sound) (name : String) (s : Play.Session) (verb : Verb) :
    Runs m (Run.onSession name s verb) Done.Fine := by
  cases verb with
  | complete => exact moveSession m name s _
  | select pick => exact (picked sound s pick).bind fun _ _ _ _ => moveSession _ name s _
  | reveal var => exact (Reads.ticketOf sound var).read fun _ _ => moveSession _ name s _
  | revealTicket j => exact (Reads.typed m _ j).read fun _ _ => moveSession _ name s _
  | state => exact plain nofun
  | ticket =>
    refine .pure ⟨nofun, fun b same => ?_, nofun⟩
    cases same
    trivial
  | get key => exact plain nofun
  | snapshot => exact plain nofun
  | walk picks =>
    refine (author (Calls.tell 0 _ _)).bind fun _ m₁ _ _ => ?_
    exact (bindSession m₁ name _).bind fun _ _ _ _ => plain nofun
  | _ => exact refuse _

theorem onNode (sound : m.Sound) (here : n.Inside m.workshop) (lines : Nat) (verb : Verb) :
    Runs m (Run.onNode lines n verb) Done.Fine := by
  have own : n.Of n.draft m.workshop := ⟨rfl, here⟩
  have drafts := sound.drafts
  have record := (drafts n.draft).bound.nodes n.key
  have linked : ∀ target : Target, ∀ {call : Link → Authoring NodeRef},
      (∀ link, Calls.Inside m.workshop link → Calls n.draft m.workshop (call link) (NodeRef.Of n.draft)) →
      Runs m (do Run.nodeMade (call (← Run.link target))) Done.Fine := fun target call calls => by
    refine (Reads.link sound target).read fun link there => ?_
    exact nodeMade (calls link there)
  have edited : ∀ text : List Line, ∀ {call : List Fragment → Authoring NodeRef},
      (∀ fragments, Calls n.draft m.workshop (call fragments) (NodeRef.Of n.draft)) →
      Runs m (do Run.nodeMade (call (← Run.fragments lines text))) Done.Fine := fun text call calls => by
    refine (Reads.fragments m lines text).read fun fragments _ => ?_
    exact nodeMade (calls fragments)
  cases verb with
  | appendText text => exact edited text fun _ => Calls.editTexts drafts own _ _ _
  | prependText text => exact edited text fun _ => Calls.editTexts drafts own _ _ _
  | replaceText text => exact edited text fun _ => Calls.editTexts drafts own _ _ _
  | attachAction var =>
    refine (Reads.actionOf sound var).read fun a there => ?_
    exact nodeMade (Calls.attachAction drafts own there)
  | linkTo target => exact linked target fun _ there => Calls.linkTo drafts own there
  | branchOn key op value target => exact linked target fun _ there => Calls.branchOn drafts own key op value there
  | setEffect key value => exact nodeMade (Calls.pushEffect drafts own _ _)
  | addEffect key value => exact nodeMade (Calls.pushEffect drafts own _ _)
  | join => exact nodeMade (Calls.join drafts own)
  | joinNamed name => exact nodeMade (Calls.joinNamed drafts own name)
  | joinWith target => exact linked target fun _ there => Calls.joinWith drafts own there
  | returnsTo target => exact linked target fun _ there => Calls.returnsTo drafts own there
  | head => exact nodeMade (Calls.head drafts own)
  | tail => exact nodeMade (Calls.tail drafts own)
  | clone => exact nodeMade (Calls.clone drafts own)
  | freeze => exact nodeMade (Calls.freeze own)
  | get name => exact nodeMade (Calls.getNamed drafts name)
  | use => exact node here
  | next => exact nodeRecord (nodeIfAny record.next)
  | prev => exact nodeRecord (nodeIfAny record.prev)
  | template => exact nodeRecord (nodeIfAny record.template)
  | ruleTarget index =>
    refine nodeRecord (nodeIfAny fun k there => ?_)
    obtain ⟨r, among, rfl⟩ := Option.map_eq_some_iff.mp there
    exact record.rules r (List.mem_of_getElem? among)
  | actionAt index =>
    refine nodeRecord ?_
    split
    · rename_i key among
      exact action (record.actions key (List.mem_of_getElem? among))
    · exact plain nofun
  | same other => exact (Reads.nodeOf sound other).read fun _ _ => plain nofun
  | _ => exact refuse _

theorem onAction (sound : m.Sound) (here : a.Inside m.workshop) (lines : Nat) (verb : Verb) :
    Runs m (Run.onAction lines a verb) Done.Fine := by
  have own : a.Of a.draft m.workshop := ⟨rfl, here⟩
  have drafts := sound.drafts
  have record := (drafts a.draft).bound.actions a.key
  have edited : ∀ text : List Line, ∀ {call : List Fragment → Authoring ActionRef},
      (∀ fragments, Calls a.draft m.workshop (call fragments) (ActionRef.Of a.draft)) →
      Runs m (do Run.actionMade (call (← Run.fragments lines text))) Done.Fine := fun text call calls => by
    refine (Reads.fragments m lines text).read fun fragments _ => ?_
    exact actionMade (calls fragments)
  cases verb with
  | label label => exact actionMade (Calls.edit own _ fun _ => rfl)
  | appendText text => exact edited text fun _ => Calls.editActionTexts own _ _ _
  | prependText text => exact edited text fun _ => Calls.editActionTexts own _ _ _
  | replaceText text => exact edited text fun _ => Calls.editActionTexts own _ _ _
  | require key op value => exact actionMade (Calls.require own key op value)
  | allow key op value => exact actionMade (Calls.allow own key op value)
  | setEffect key value => exact actionMade (Calls.edit own _ fun _ => rfl)
  | addEffect key value => exact actionMade (Calls.edit own _ fun _ => rfl)
  | linkTo target =>
    refine (Reads.link sound target).read fun link there => ?_
    exact actionMade (Calls.actionLinkTo drafts own there)
  | join => exact nodeMade (Calls.actionJoin drafts own)
  | joinNamed name => exact nodeMade (Calls.actionJoinNamed drafts own name)
  | freeze => exact actionMade (Calls.actionFreeze own)
  | get name => exact nodeMade (Calls.getNamed drafts name)
  | use => exact action here
  | next => exact actionRecord (nodeIfAny record.next)
  | parent => exact actionRecord (nodeIfAny record.parent)
  | same other => exact (Reads.actionOf sound other).read fun _ _ => plain nofun
  | _ => exact refuse _

theorem newDraft (m : Machine) (config : Json) : Runs m (Run.onDraft call i (.newDraft config)) Done.Fine := by
  refine (Reads.typed m Config.decoder config).read fun config _ => ?_
  refine Keeps.get.bind ?_
  rintro _ _ _ ⟨rfl, rfl⟩
  refine (Keeps.modify fun sound => ⟨sound.push config, .push _ config⟩).bind fun _ _ _ pushed => ?_
  subst pushed
  refine .pure ⟨nofun, nofun, fun i same => ?_⟩
  cases same
  simp

theorem begun (m : Machine) (story : Story) (context : Context) (filter : NoticeFilter) :
    Runs m (do Run.session (← Run.logged none (Play.Session.begin story context filter))) Done.Fine :=
  (logged m none _).bind fun s m₁ _ _ => session m₁ s

theorem onDraft (calls : call.Sound) (sound : m.Sound) (inside : i < m.workshop.drafts.size) (verb : Verb) :
    Runs m (Run.onDraft call i verb) Done.Fine := by
  have drafts := sound.drafts
  have onRoot : ∀ (var : String) {run : NodeRef → Run Done}, (∀ n, n.Inside m.workshop → Runs m (run n) Done.Fine) →
      Runs m (do run (← Run.nodeOf var)) Done.Fine := fun var run runs => by
    refine (Reads.nodeOf sound var).read fun n there => ?_
    exact runs n there
  cases verb with
  | newDraft config => exact newDraft m config
  | newNode => exact nodeMade (Calls.addNode inside _)
  | newNamed name => exact nodeMade (Calls.newNamed inside name)
  | newAction label => exact actionMade (Calls.newAction inside label)
  | newActionWith label script => exact actionMade (Calls.newActionWith inside label script)
  | get name => exact nodeMade (Calls.getNamed drafts name)
  | cloneOf var => exact onRoot var fun n there => nodeMade (Calls.cloneTemplate drafts there)
  | clonesOf var =>
    exact onRoot var fun n _ => (author (Calls.clonesOf (i := i))).bind fun _ _ _ _ => draft (plain nofun)
  | pending => exact draft (plain nofun)
  | text lines =>
    refine (Reads.fragments m i lines).read fun fragments _ => ?_
    exact (author (Calls.paced i m.workshop fragments)).bind fun _ _ _ _ => plain nofun
  | say text => exact draft (plain nofun)
  | write text => exact draft (plain nofun)
  | resolve => exact resolve calls inside sound
  | build root brief => exact onRoot root fun n there => build calls inside sound there brief
  | compile root brief => exact onRoot root fun n there => compile sound there brief (by simp)
  | story json =>
    refine (Reads.typed m _ json).read fun s _ => .pure ⟨nofun, fun b same => ?_, nofun⟩
    cases same
    trivial
  | session story context debug =>
    refine (Reads.storyOf sound story).read fun story _ => ?_
    cases context with
    | none =>
      cases debug with
      | none => exact begun _ story .empty .quiet
      | some f => exact (Reads.typed m _ f).read fun filter _ => begun m story .empty filter
    | some c =>
      refine (Reads.typed m _ c).read fun context _ => ?_
      cases debug with
      | none => exact begun m story context .quiet
      | some f => exact (Reads.typed m _ f).read fun filter _ => begun m story context filter
  | sessionBytes bytes =>
    unfold Run.onDraft
    dsimp only
    split
    · exact .throw nofun
    · exact begun m _ _ _
  | _ => exact refuse _

theorem dispatch (calls : call.Sound) (sound : m.Sound) (on drafted : Option String) (verb : Verb) :
    Runs m (Run.dispatch call on drafted verb) Done.Fine := by
  unfold Run.dispatch
  refine (Reads.draftOf sound _).read fun i inside => ?_
  have read : ∀ {run : Run Done}, Runs m run Done.Fine → Runs m (do Run.readable verb; run) Done.Fine := fun runs =>
    (Reads.readable m verb).read fun _ _ => runs
  cases on with
  | none => exact read (onDraft calls sound inside verb)
  | some name =>
    refine (Reads.lookUp sound name).read fun b bound => ?_
    cases b with
    | node n => exact read (onNode sound bound i verb)
    | action a => exact read (onAction sound bound i verb)
    | session s => exact read (onSession sound name s verb)
    | story | ticket => exact refuse _

theorem perform (calls : call.Sound) (sound : m.Sound) (s : Step) : Runs m (Run.perform call s) Done.Fine := by
  obtain ⟨on, drafted, bind, verb⟩ := s
  unfold Run.perform
  refine (dispatch calls sound on drafted verb).bind fun done m₁ _ fine => ?_
  cases bind with
  | none => exact .pure fine
  | some name =>
    have same := m₁.keepWorkshop name done
    refine (Keeps.modify fun sound => ⟨sound.keep name fine, .same same⟩).bind fun _ _ _ kept => ?_
    subst kept
    exact .pure (fine.workshop same)

end Runs

def Binding.node? : Binding → Option NodeRef
  | .node n => some n
  | _ => none

theorem Binding.Inside.node {given : Binding} {w : Workshop} (inside : given.Inside w) (n : NodeRef)
    (same : given.node? = some n) : n.Inside w := by
  cases given with
  | node => exact Option.some.inj same ▸ inside
  | action | story | session | ticket => cases same

namespace Machine

def Safe (step : Step → StateM Machine Done) : Prop := ∀ (m : Machine) (s : Step), m.Sound →
  ((step s).run m).2.Sound ∧ m.Grows ((step s).run m).2 ∧ ((step s).run m).1.Fine ((step s).run m).2

theorem stepSafe (calls : call.Sound) : Safe (step call) := by
  intro m s sound
  obtain ⟨kept, returned, refused⟩ := Runs.perform calls sound s
  obtain ⟨sound', grows⟩ := kept sound
  have ran : StateT.run (Run.perform call s).run m = (Run.perform call s).run m := rfl
  unfold step
  rw [StateT.run_bind, ran]
  generalize (Run.perform call s).run m = result at *
  obtain ⟨answer | done, m'⟩ := result
  · exact ⟨sound', grows, refused _ rfl, nofun, nofun⟩
  · exact ⟨sound', grows, returned _ rfl⟩

variable {step : Step → StateM Machine Done}

theorem liftStep (safe : Safe step) (sound : m.Sound) (s : Step) :
    Passes m (ExceptT.lift (step s)) fun done m' => done.Fine m' := by
  obtain ⟨sound', grows, fine⟩ := safe m s sound
  exact .ok (fun _ => ⟨sound', grows⟩) fine

def answered (m : Machine) (done : Done) : Machine := { m with trace := m.trace.push done.answer }

theorem Sound.answered (sound : m.Sound) {done : Done} (fine : done.Fine m) : (m.answered done).Sound := by
  refine sound.traced fun a mem => ?_
  rcases Array.mem_push.mp mem with earlier | rfl
  · exact sound.trace a earlier
  · exact fine.answer

theorem runScriptPasses (safe : Safe step) {script : Script} {last : Option NodeRef} (sound : m.Sound)
    (inside : ∀ n, last = some n → n.Inside m.workshop) :
    Passes m (runScript step last script) fun last m' => ∀ n, last = some n → n.Inside m'.workshop := by
  induction script generalizing m last with
  | nil => exact .pure inside
  | cons s rest ih =>
    unfold runScript
    refine (liftStep safe sound s).bind fun done m₁ step₁ fine => ?_
    obtain ⟨sound₁, _⟩ := step₁ sound
    have answered := sound₁.answered fine
    refine (Keeps.modify fun _ => ⟨answered, .same rfl⟩).bind fun _ m₂ _ pushed => ?_
    subst pushed
    split
    · exact .throw trivial
    · rename_i n _ given
      exact ih answered fun n same => Option.some.inj same ▸ fine.result _ given
    · exact ih answered nofun

def onArgument (given : Binding) (inner : Run.Pass (Option NodeRef)) : Run.Pass (Option NodeRef) := do
  let before := (← get).binding? argument
  modify (·.bind argument given)
  let result ← ExceptT.lift inner.run
  modify fun m =>
    match before with
    | some b => m.bind argument b
    | none => m.unbind argument
  match result with
  | .ok last => return last
  | .error e => throw e

def restored (m : Machine) : Option Binding → Machine
  | some b => m.bind argument b
  | none => m.unbind argument

theorem restoredWorkshop (m : Machine) (b : Option Binding) : (m.restored b).workshop = m.workshop := by
  cases b <;> rfl

theorem onArgumentParts (given : Binding) (inner : Run.Pass (Option NodeRef)) (m : Machine) :
    (onArgument given inner).run m = ((inner.run (m.bind argument given)).1,
      (inner.run (m.bind argument given)).2.restored (m.binding? argument)) := by
  have got : (get : Run.Pass Machine).run m = (.ok m, m) := rfl
  have changed : ∀ (f : Machine → Machine) (m : Machine), (modify f : Run.Pass Unit).run m = (.ok (), f m) :=
    fun _ _ => rfl
  have lifted : ∀ m : Machine, (ExceptT.lift inner.run : Run.Pass (Except AuthoringError (Option NodeRef))).run m =
      (.ok (inner.run m).1, (inner.run m).2) := fun _ => rfl
  rw [onArgument, runBind, got]
  dsimp only
  rw [runBind, changed]
  dsimp only
  rw [runBind, lifted]
  dsimp only
  rw [runBind, changed]
  dsimp only
  generalize inner.run (m.bind argument given) = result
  obtain ⟨e | last, m'⟩ := result <;> cases m.binding? argument <;> rfl

structure Indifferent (R : Machine → Machine → Prop) : Prop where
  advances : ∀ {m m' : Machine}, R m m' → m.Advances m'
  same : ∀ {m m' : Machine}, m.Advances m' → m'.workshop = m.workshop → R m m'

theorem indifferentAdvances : Indifferent Advances := ⟨id, fun advances _ => advances⟩

theorem onArgumentKeeps {R : Machine → Machine → Prop} [IsPreorder Machine R] (keeps : Indifferent R) {given : Binding}
    {inner : Run.Pass (Option NodeRef)} (sound : m.Sound) (inside : given.Inside m.workshop)
    (passes : Keeps R (fun _ => True) (m.bind argument given) inner fun last m' =>
      ∀ n, last = some n → n.Inside m'.workshop) :
    Keeps R (fun _ => True) m (onArgument given inner) fun last m' => ∀ n, last = some n → n.Inside m'.workshop := by
  unfold onArgument
  refine Keeps.get.bind ?_
  rintro m _ _ ⟨rfl, rfl⟩
  have binds : m.Advances (m.bind argument given) := fun sound => ⟨sound.bind argument inside, .same rfl⟩
  refine (Keeps.modify (keeps.same binds rfl)).bind fun _ _ _ bound => ?_
  subst bound
  obtain ⟨sound₁, begins⟩ := binds sound
  refine passes.attempt.bind fun result m₂ step₂ answer => ?_
  obtain ⟨sound₂, further⟩ := keeps.advances step₂ sound₁
  have grows := begins.trans further
  refine (Keeps.modify (keeps.same (fun sound₂ => ?_) ?_)).bind fun _ m₃ step₃ _ => ?_
  · split
    · -- what the variable had before may be a handle, which the script cannot have led astray
      rename_i b was
      exact ⟨sound₂.bind argument ((sound.bound argument b was).grow grows), .same rfl⟩
    · exact ⟨sound₂.unbind argument, .same rfl⟩
  · split <;> rfl
  · obtain ⟨_, grows₃⟩ := keeps.advances step₃ sound₂
    split
    · rename_i last
      exact .pure fun n same => (answer.1 last rfl n same).grow grows₃
    · exact .throw trivial

theorem callWithOnArgument (step : Step → StateM Machine Done) (script : Script) (given : Binding) :
    callWith step script given = onArgument given (runScript step given.node? script) := by
  cases given <;> rfl

theorem callWithSound (safe : Safe step) : (callWith step : Run.Caller).Sound := by
  intro m script given sound inside
  rw [callWithOnArgument]
  exact onArgumentKeeps indifferentAdvances sound inside (runScriptPasses safe (sound.bind argument inside) inside.node)

theorem callerSound (depth : Nat) : (caller depth).Sound := by
  induction depth with
  | zero => exact fun _ _ _ _ _ => .throw trivial
  | succ depth ih => exact callWithSound (stepSafe ih)

theorem startSound (config : Config) : (start config).Sound where
  drafts := fun i => by
    cases i with
    | zero => exact ⟨config, .refl⟩
    | succ i =>
      rw [Workshop.draftAtOutside (by simp [start])]
      exact .blank
  named := fun name i found => by
    obtain ⟨_, same⟩ : name = firstDraft ∧ 0 = i := by simpa [start, lookupEntry] using found
    simp [start, ← same]
  bound := fun name b found => by cases found
  trace := by simp [start]

def after (depth : Nat) (config : Config) (program : List Step) : Machine :=
  program.foldl (fun m s => ((Machine.step (caller depth) s).run m).2) (start config)

theorem afterSound (depth : Nat) (config : Config) (program : List Step) : (after depth config program).Sound := by
  have general : ∀ m : Machine, m.Sound →
      (program.foldl (fun m s => ((Machine.step (caller depth) s).run m).2) m).Sound := by
    induction program with
    | nil => exact fun m sound => sound
    | cons s rest ih => exact fun m sound => ih _ (stepSafe (callerSound depth) m s sound).1
  exact general _ (startSound config)

end Machine
end Dialogue
