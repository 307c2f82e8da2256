import Dialogue.Proofs.Workshop.Building

/-! Programs as histories. Whatever a program runs, whatever its resolvers do and however deep build passes lie inside
one another, what becomes of the drafts is a history. So what every act keeps, every program keeps. A program leads an
action on only where a pass comes to a link of it, one that waited when the pass began. -/
namespace Dialogue
variable {m m' : Machine} {i : Nat} {call : Run.Caller} {α : Type}

namespace Workshop
variable {w w' : Workshop} {acts more : List Act} {act : Act} {a : ActionRef} {held held' : ActionRef → Prop}

def Taken (w : Workshop) (acts : List Act) (a : ActionRef) : Prop :=
  ∃ before after script w', acts = before ++ .take a.draft :: after ∧ w.Lived before w' ∧
    .actionSuccessor a.key script ∈ (w'.draftAt a.draft).pending

/- A history leads no actions on but those that are held from before and those that a pass of it has taken. -/
def Leads (held : ActionRef → Prop) (w : Workshop) (acts : List Act) : Prop :=
  ∀ front a target back, acts = front ++ .lead a target :: back → held a ∨ w.Taken front a

theorem Taken.longer (taken : w.Taken acts a) (more : List Act) : w.Taken (acts ++ more) a := by
  obtain ⟨before, after, script, w', rfl, lived, waits⟩ := taken
  exact ⟨before, after ++ more, script, w', by simp, lived, waits⟩

theorem Taken.behind (lived : w.Lived acts w') (taken : w'.Taken more a) : w.Taken (acts ++ more) a := by
  obtain ⟨before, after, script, w'', rfl, further, waits⟩ := taken
  exact ⟨acts ++ before, after, script, w'', by simp, lived.trans further, waits⟩

namespace Leads

theorem none (w : Workshop) (quiet : ∀ a target, .lead a target ∉ acts) : w.Leads held acts := by
  rintro front a target back rfl
  exact absurd (by simp) (quiet a target)

theorem weaken (leads : w.Leads held acts) (wider : ∀ a, held a → held' a) : w.Leads held' acts :=
  fun front a target back split => (leads front a target back split).imp_left (wider a)

theorem append (lived : w.Lived acts w') (first : w.Leads held acts)
    (later : w'.Leads (fun a => held a ∨ w.Taken acts a) more) : w.Leads held (acts ++ more) := by
  intro front a target back split
  rcases List.append_eq_append_iff.mp split with ⟨behind, whole, rest⟩ | ⟨ahead, whole, rest⟩
  · -- the action is led on in the later part
    subst whole
    rcases later behind a target back rest with (held | taken) | taken
    · exact .inl held
    · exact .inr (taken.longer behind)
    · exact .inr (taken.behind lived)
  · cases ahead with
    | nil =>
      obtain rfl : acts = front := by simpa using whole
      rcases later [] a target back rest.symm with (held | taken) | ⟨before, after, _, _, empty, _⟩
      · exact .inl held
      · exact .inr taken
      · simp at empty
    | cons act ahead =>
      obtain ⟨rfl, rfl⟩ := List.cons.inj rest
      exact first front a target ahead whole

theorem trans (lived : w.Lived acts w') (first : w.Leads held acts) (later : w'.Leads held more) :
    w.Leads held (acts ++ more) := append lived first (later.weaken fun _ => .inl)

end Leads
end Workshop

def Machine.Lives (held : ActionRef → Prop) (m m' : Machine) : Prop :=
  m.Advances m' ∧ ∃ acts, m.workshop.Lived acts m'.workshop ∧ m.workshop.Leads held acts

instance (held : ActionRef → Prop) : IsPreorder Machine (Machine.Lives held) where
  refl := fun m => ⟨refl_of _ m, [], .start rfl, .none _ (by simp)⟩
  trans := fun _ _ _ ⟨advances, acts, lived, leads⟩ ⟨further, more, later, ahead⟩ =>
    ⟨trans_of _ advances further, acts ++ more, lived.trans later, .trans lived leads ahead⟩

abbrev Machine.Goes : Machine → Machine → Prop := Machine.Lives fun _ => False

def Run.Caller.Lives (call : Run.Caller) : Prop := ∀ (m : Machine) (script : Script) (given : Binding), m.Sound →
  given.Inside m.workshop → Keeps Machine.Goes (fun _ => True) m (call script given) fun last m' =>
    ∀ n, last = some n → n.Inside m'.workshop

theorem Run.Caller.Lives.sound (calls : call.Lives) : call.Sound := fun m script given sound inside =>
  have lives := calls m script given sound inside
  ⟨lives.kept.1, lives.returned, lives.refused⟩

namespace Machine

theorem Moves.lived (moves : m.Moves m') :
    ∃ acts, m.workshop.Lived acts m'.workshop ∧ ∀ a target, .lead a target ∉ acts := by
  induction moves with
  | refl => exact ⟨[], .start rfl, by simp⟩
  | @tail m₁ _ _ move ih =>
    obtain ⟨acts, lived, quiet⟩ := ih
    cases move with
    | still drafts => exact ⟨acts, lived.still drafts, quiet⟩
    | ask r live drafts =>
      have asked : (Act.ask r).Live m₁.workshop := live
      exact ⟨_, .next lived asked drafts, by simpa using quiet⟩
    | draft config drafts =>
      have begun : (Act.begin config).Live m₁.workshop := trivial
      exact ⟨_, .next lived begun drafts, by simpa using quiet⟩

namespace Lives
variable {held held' : ActionRef → Prop}

theorem indifferent (held : ActionRef → Prop) : Indifferent (Lives held) where
  advances := And.left
  same := fun advances same => ⟨advances, [], .start (by rw [same]), .none _ (by simp)⟩

theorem weaken (lives : m.Lives held m') (wider : ∀ a, held a → held' a) : m.Lives held' m' := by
  obtain ⟨advances, acts, lived, leads⟩ := lives
  exact ⟨advances, acts, lived, leads.weaken wider⟩

theorem resolvable (i : Nat) (links : List Deferred) : Resolvable (· ∈ links) i
    (Lives fun a => a.draft = i ∧ ∃ script, .actionSuccessor a.key script ∈ links) where
  advances := And.left
  calls := fun step _ ⟨acts, lived, due⟩ => by
    refine ⟨fun sound => ⟨sound.evolve step, .evolve step⟩, acts, lived, ?_⟩
    rintro front a target back rfl
    exact .inl (due (.lead a target) (by simp))

theorem passed (calls : call.Lives) (sound : m.Sound) (inside : i < m.workshop.drafts.size) :
    m.Goes (m.passed call i) := by
  obtain ⟨sound₁, inside₁, within⟩ := sound.untraced.taking inside
  obtain ⟨_, acts, lived, leads⟩ := ((resolvable i _).resolveAll inside₁ sound₁ (fun link _ m' given _ sound' here =>
    have script := calls m' link.script given sound' here
    ⟨script.kept.weaken nofun, script.returned, script.refused⟩) within fun _ => id).kept
  have begun : m.workshop.Lived [.take i] (m.workshop.taking i) := .one trivial
  have ended : ∀ w : Workshop, w.Lived [.release i] (w.releasing i) := fun _ => .one trivial
  refine ⟨fun _ => passedSound calls.sound sound inside, [.take i] ++ acts ++ [.release i], ?_, ?_⟩
  · rw [Machine.passed, passParts]
    exact (begun.trans lived).trans (ended _)
  · refine .trans (begun.trans lived) (.append begun (.none _ (by simp)) (leads.weaken ?_)) (.none _ (by simp))
    rintro a ⟨rfl, script, waits⟩
    exact .inr ⟨[], [], script, m.workshop, rfl, .start rfl, List.mem_reverse.mp waits⟩

theorem asks {run : Run α} {post : α → Machine → Prop} (runs : Runs m run post) (asks : Asks m run) :
    Keeps Goes (fun _ => True) m run post := by
  obtain ⟨acts, lived, quiet⟩ := asks.kept.lived
  exact ⟨⟨runs.kept, acts, lived, .none _ quiet⟩, runs.returned, fun _ _ => trivial⟩

theorem resolve (calls : call.Lives) (sound : m.Sound) (inside : i < m.workshop.drafts.size) :
    Keeps Goes (fun _ => True) m (Run.resolve call i) Done.Fine where
  kept := by
    cases result : m.passResult call i with
    | ok count =>
      rw [resolvePassed result]
      exact passed calls sound inside
    | error e =>
      rw [resolveFailed result]
      exact passed calls sound inside
  returned := (Runs.resolve calls.sound inside sound).returned
  refused := fun _ _ => trivial

theorem build {root : NodeRef} (calls : call.Lives) (sound : m.Sound) (inside : i < m.workshop.drafts.size)
    (here : root.Inside m.workshop) (brief : Bool) :
    Keeps Goes (fun _ => True) m (Run.build call i root brief) Done.Fine where
  kept := by
    have builds := Runs.build calls.sound inside sound here brief
    refine ⟨builds.kept, ?_⟩
    by_cases own : root.draft = i
    · obtain ⟨_, acts, lived, leads⟩ := passed calls sound inside
      cases result : m.passResult call i with
      | ok count =>
        obtain ⟨_, _, _, ran⟩ := buildPassed brief calls.sound sound here own result
        rw [ran]
        exact ⟨acts, lived.still rfl, leads⟩
      | error e =>
        rw [buildFailed own result]
        exact ⟨acts, lived, leads⟩
    · rw [buildForeign own]
      exact ⟨[], .start rfl, .none _ (by simp)⟩
  returned := (Runs.build calls.sound inside sound here brief).returned
  refused := fun _ _ => trivial

theorem onDraft (calls : call.Lives) (sound : m.Sound) (inside : i < m.workshop.drafts.size) (verb : Verb) :
    Keeps Goes (fun _ => True) m (Run.onDraft call i verb) Done.Fine := by
  have runs := Runs.onDraft calls.sound sound inside verb
  cases verb with
  | resolve => exact resolve calls sound inside
  | build root brief =>
    exact (Reads.nodeOf sound root).anyhow.read fun n there => build calls sound inside there brief
  | _ => exact asks runs (Asks.onDraft sound inside trivial)

theorem dispatch (calls : call.Lives) (sound : m.Sound) (on drafted : Option String) (verb : Verb) :
    Keeps Goes (fun _ => True) m (Run.dispatch call on drafted verb) Done.Fine := by
  unfold Run.dispatch
  refine (Reads.draftOf sound _).anyhow.read fun i inside => ?_
  have read : ∀ {run : Run Done}, Keeps Goes (fun _ => True) m run Done.Fine →
      Keeps Goes (fun _ => True) m (do Run.readable verb; run) Done.Fine := fun lives =>
    (Reads.readable m verb).anyhow.read fun _ _ => lives
  cases on with
  | none => exact read (onDraft calls sound inside verb)
  | some name =>
    refine (Reads.lookUp sound name).anyhow.read fun b bound => ?_
    cases b with
    | node n => exact read (asks (Runs.onNode sound bound i verb) (Asks.onNode sound bound i verb))
    | action a => exact read (asks (Runs.onAction sound bound i verb) (Asks.onAction sound bound i verb))
    | session s => exact read (asks (Runs.onSession sound name s verb) (Asks.onSession sound name s verb))
    | story | ticket => exact .throw trivial

theorem perform (calls : call.Lives) (sound : m.Sound) (s : Step) :
    Keeps Goes (fun _ => True) m (Run.perform call s) Done.Fine := by
  obtain ⟨on, drafted, bind, verb⟩ := s
  unfold Run.perform
  refine (dispatch calls sound on drafted verb).bind fun done m₁ _ fine => ?_
  cases bind with
  | none => exact .pure fine
  | some name =>
    have same := m₁.keepWorkshop name done
    have kept : m₁.Goes (m₁.keep name done) :=
      (indifferent _).same (fun sound => ⟨sound.keep name fine, .same same⟩) same
    refine (Keeps.modify kept).bind fun _ _ _ is => ?_
    subst is
    exact .pure (fine.workshop same)

theorem step (calls : call.Lives) (sound : m.Sound) (s : Step) :
    Keeps Goes (fun _ => True) m (ExceptT.lift (Machine.step call s) : Run.Pass Done) fun done m' => done.Fine m' := by
  have kept := (perform calls sound s).kept
  rw [← stepLeaves] at kept
  exact .ok kept (stepSafe calls.sound m s sound).2.2

end Lives

theorem callerByLives (meaning : Script → Resolver) (depth : Nat) : (callerBy meaning depth).Lives := by
  induction depth with
  | zero => exact fun _ _ _ _ _ => .throw trivial
  | succ depth ih =>
    intro m script given sound inside
    have anyStep : ∀ s, (fun _ : Step => True) s := fun _ => trivial
    exact callByKeeps (Lives.indifferent _) (fun m s sound _ => Lives.step ih sound s)
      ((meaning script).all anyStep) sound inside

theorem programLives (meaning : Script → Resolver) (depth : Nat) (program : List Step) (sound : m.Sound) :
    m.Goes (program.foldl (fun m s => ((Machine.step (callerBy meaning depth) s).run m).2) m) := by
  induction program generalizing m with
  | nil => exact refl_of Goes m
  | cons s rest ih =>
    have first := (Lives.step (callerByLives meaning depth) sound s).kept
    exact trans_of Goes first (ih (first.1 sound).1)

theorem afterByLives (meaning : Script → Resolver) (depth : Nat) (config : Config) (program : List Step) :
    ∃ acts, (start config).workshop.Lived acts (afterBy meaning depth config program).workshop := by
  obtain ⟨_, acts, lived, _⟩ := programLives meaning depth program (startSound config)
  exact ⟨acts, lived⟩

end Machine
end Dialogue
