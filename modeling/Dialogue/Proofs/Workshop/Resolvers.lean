import Dialogue.Proofs.Workshop.Programs

/-! Resolvers of every kind. A script runs its steps one after another up to the first that fails. What finds the
target of a link may do more than that: it may choose each step by what the steps before have given, go on after one
that fails, and fail where none does. Scripts are the resolvers that do not. -/
namespace Dialogue

/- What a resolver does: it ends with the node that its last step has given, it fails, or it takes a step. -/
inductive Resolver where
  | give
  | fail (e : AuthoringError)
  | next (s : Step) (rest : Done → Resolver)

namespace Resolver

inductive All (P : Step → Prop) : Resolver → Prop where
  | give : All P .give
  | fail (e : AuthoringError) : All P (.fail e)
  | next {s : Step} {rest : Done → Resolver} (holds : P s) (later : ∀ done, (rest done).All P) : All P (.next s rest)

theorem all {P : Step → Prop} (holds : ∀ s, P s) (resolver : Resolver) : resolver.All P := by
  induction resolver with
  | give => exact .give
  | fail e => exact .fail e
  | next s _ ih => exact .next (holds s) ih

def ofScript : Script → Resolver
  | [] => .give
  | s :: rest => .next s fun done =>
    match done.answer.error? with
    | some e => .fail e
    | none => ofScript rest

theorem ofScriptAll {P : Step → Prop} {script : Script} (holds : ∀ s ∈ script, P s) : (ofScript script).All P := by
  induction script with
  | nil => exact .give
  | cons s rest ih =>
    obtain ⟨first, later⟩ := List.forall_mem_cons.mp holds
    refine .next first fun done => ?_
    split
    · exact .fail _
    · exact ih later

end Resolver

variable {m : Machine} {meaning : Script → Resolver}

def Done.last (done : Done) : Option NodeRef :=
  match done.result with
  | some (.node n) => some n
  | _ => none

namespace Machine
variable {step : Step → StateM Machine Done}

def runResolver (step : Step → StateM Machine Done) (last : Option NodeRef) : Resolver → Run.Pass (Option NodeRef)
  | .give => return last
  | .fail e => throw e
  | .next s rest => do
    let done ← ExceptT.lift (step s)
    modify fun m => { m with trace := m.trace.push done.answer }
    match done.result with
    | some (.node n) => runResolver step (some n) (rest done)
    | _ => runResolver step none (rest done)

theorem runResolverNext (step : Step → StateM Machine Done) (last : Option NodeRef) (s : Step) (rest : Done → Resolver)
    (m : Machine) : (runResolver step last (.next s rest)).run m =
      (runResolver step ((step s).run m).1.last (rest ((step s).run m).1)).run
        (((step s).run m).2.answered ((step s).run m).1) := by
  have lifted : (ExceptT.lift (step s) : Run.Pass Done).run m = (.ok ((step s).run m).1, ((step s).run m).2) := rfl
  have noted : ∀ (done : Done) (m' : Machine),
      (modify fun m => { m with trace := m.trace.push done.answer } : Run.Pass Unit).run m' = (.ok (), m'.answered done) :=
    fun _ _ => rfl
  rw [runResolver, runBind, lifted]
  dsimp only
  rw [runBind, noted]
  dsimp only
  unfold Done.last
  cases ((step s).run m).1.result with
  | none => rfl
  | some b => cases b <;> rfl

def callBy (meaning : Script → Resolver) (step : Step → StateM Machine Done) : Run.Caller := fun script given =>
  onArgument given (runResolver step given.node? (meaning script))

def callerBy (meaning : Script → Resolver) : Nat → Run.Caller
  | 0 => caller 0
  | depth + 1 => callBy meaning (Machine.step (callerBy meaning depth))

def afterBy (meaning : Script → Resolver) (depth : Nat) (config : Config) (program : List Step) : Machine :=
  program.foldl (fun m s => ((Machine.step (callerBy meaning depth) s).run m).2) (start config)

theorem runOfScript (step : Step → StateM Machine Done) (last : Option NodeRef) (script : Script) :
    runResolver step last (.ofScript script) = runScript step last script := by
  induction script generalizing last with
  | nil => rfl
  | cons s rest ih =>
    simp only [Resolver.ofScript, runResolver, runScript]
    congr 1
    funext done
    congr 1
    funext _
    cases failed : done.answer.error? with
    | some e =>
      cases done.result with
      | none => rfl
      | some b => cases b <;> rfl
    | none =>
      cases done.result with
      | none => exact ih none
      | some b => cases b <;> exact ih _

theorem callerOfScript (depth : Nat) : callerBy .ofScript depth = caller depth := by
  have calls : ∀ step : Step → StateM Machine Done, callBy .ofScript step = callWith step := fun step => by
    funext script given
    rw [callBy, runOfScript, callWithOnArgument]
  induction depth with
  | zero => rfl
  | succ depth ih => rw [callerBy, ih, calls, caller]

theorem afterOfScript (depth : Nat) (config : Config) (program : List Step) :
    afterBy .ofScript depth config program = after depth config program := by
  rw [afterBy, callerOfScript, after]

variable {R : Machine → Machine → Prop} [IsPreorder Machine R] {P : Step → Prop}

theorem runResolverKeeps (keeps : Indifferent R)
    (steps : ∀ m s, m.Sound → P s →
      Keeps R (fun _ => True) m (ExceptT.lift (step s) : Run.Pass Done) fun done m' => done.Fine m')
    {resolver : Resolver} (all : resolver.All P) {last : Option NodeRef} (sound : m.Sound)
    (inside : ∀ n, last = some n → n.Inside m.workshop) :
    Keeps R (fun _ => True) m (runResolver step last resolver) fun last m' =>
      ∀ n, last = some n → n.Inside m'.workshop := by
  induction all generalizing m last with
  | give => exact .pure inside
  | fail e => exact .throw trivial
  | next holds _ ih =>
    unfold runResolver
    refine (steps m _ sound holds).bind fun done m₁ step₁ fine => ?_
    have answered := (keeps.advances step₁ sound).1.answered fine
    refine (Keeps.modify (keeps.same (fun _ => ⟨answered, .same rfl⟩) rfl)).bind fun _ m₂ _ pushed => ?_
    subst pushed
    split
    · rename_i n given
      exact ih done answered fun n same => Option.some.inj same ▸ fine.result _ given
    · exact ih done answered nofun

theorem callByKeeps (keeps : Indifferent R)
    (steps : ∀ m s, m.Sound → P s →
      Keeps R (fun _ => True) m (ExceptT.lift (step s) : Run.Pass Done) fun done m' => done.Fine m')
    {script : Script} (all : (meaning script).All P) {given : Binding} (sound : m.Sound)
    (inside : given.Inside m.workshop) : Keeps R (fun _ => True) m (callBy meaning step script given) fun last m' =>
      ∀ n, last = some n → n.Inside m'.workshop :=
  onArgumentKeeps keeps sound inside
    (runResolverKeeps keeps steps all (sound.bind argument inside) inside.node)

theorem callerBySound (meaning : Script → Resolver) (depth : Nat) : (callerBy meaning depth).Sound := by
  induction depth with
  | zero => exact callerSound 0
  | succ depth ih =>
    intro m script given sound inside
    have anyStep : ∀ s, (fun _ : Step => True) s := fun _ => trivial
    exact callByKeeps indifferentAdvances (fun m s sound _ => liftStep (stepSafe ih) sound s)
      ((meaning script).all anyStep) sound inside

theorem callerByKeeps (keeps : Indifferent R)
    (steps : ∀ (call : Run.Caller) (m : Machine) (s : Step), call.Sound → m.Sound → P s →
      Keeps R (fun _ => True) m (ExceptT.lift (Machine.step call s) : Run.Pass Done) fun done m' => done.Fine m')
    (meaning : Script → Resolver) (depth : Nat) {script : Script} (all : (meaning script).All P) {given : Binding}
    (sound : m.Sound) (inside : given.Inside m.workshop) :
    Keeps R (fun _ => True) m (callerBy meaning depth script given) fun last m' =>
      ∀ n, last = some n → n.Inside m'.workshop := by
  cases depth with
  | zero => exact .throw trivial
  | succ depth =>
    exact callByKeeps keeps (fun m s => steps (callerBy meaning depth) m s (callerBySound meaning depth)) all sound inside

theorem afterBySound (meaning : Script → Resolver) (depth : Nat) (config : Config) (program : List Step) :
    (afterBy meaning depth config program).Sound := by
  have general : ∀ m : Machine, m.Sound →
      (program.foldl (fun m s => ((Machine.step (callerBy meaning depth) s).run m).2) m).Sound := by
    induction program with
    | nil => exact fun m sound => sound
    | cons s rest ih => exact fun m sound => ih _ (stepSafe (callerBySound meaning depth) m s sound).1
  exact general _ (startSound config)

end Machine
end Dialogue
