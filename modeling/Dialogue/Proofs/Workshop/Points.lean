import Dialogue.Proofs.Workshop.Building
import Dialogue.Proofs.Workshop.Course

/-! The points of a run, one for each step of the program and of every resolver that it calls, in the order in which
these steps begin. The list leaves none out: what holds at every point holds wherever an interpreter looks. -/
namespace Dialogue
variable {m : Machine} {i : Nat} {call call' : Run.Caller}

/- Where a step begins, with the links that passes have taken by then and have not yet led on, each with its draft. -/
structure Point where
  taken : List (Nat × Deferred)
  machine : Machine

def Point.amid (i : Nat) (links : List Deferred) (p : Point) : Point := { p with taken := p.taken ++ links.map (i, ·) }

def Run.linkPoints (call : Caller) (called : Script → Binding → Machine → List Point) (i : Nat) :
    List Deferred → Machine → List Point
  | [], _ => []
  | link :: rest, m =>
    match (opening i link).run m with
    | (.error _, _) => []
    | (.ok given, m₁) => (called link.script given m₁).map (.amid i (link :: rest)) ++
      match (call link.script given).run m₁ with
      | (.error _, _) => []
      | (.ok last, m₂) =>
        match (closing i last link).run m₂ with
        | (.error _, _) => []
        | (.ok (), m₃) => linkPoints call called i rest m₃

namespace Machine
variable {meaning : Script → Resolver} {s : Step} {step step' : Step → StateM Machine Done}

def resolverPoints (step : Step → StateM Machine Done) (points : Step → Machine → List Point) :
    Resolver → Machine → List Point
  | .next s rest, m => points s m ++
    resolverPoints step points (rest ((step s).run m).1) (((step s).run m).2.answered ((step s).run m).1)
  | .give, _ | .fail _, _ => []

/- The draft whose pass the step begins. No other step begins one. -/
def passOf? (m : Machine) : Step → Option Nat
  | .mk none drafted _ .resolve => lookupEntry (drafted.getD firstDraft) m.drafts
  | .mk none drafted _ (.build root _) =>
    match lookupEntry (drafted.getD firstDraft) m.drafts, m.binding? root with
    | some i, some (.node n) => if n.draft = i then some i else none
    | _, _ => none
  | _ => none

def stepPoints (meaning : Script → Resolver) : Nat → Step → Machine → List Point
  | 0, _, m => [⟨[], m⟩]
  | depth + 1, s, m => ⟨[], m⟩ ::
    match m.passOf? s with
    | none => []
    | some i => Run.linkPoints (callerBy meaning (depth + 1))
      (fun script given m => resolverPoints (Machine.step (callerBy meaning depth)) (stepPoints meaning depth)
        (meaning script) (m.bind argument given))
      i (m.workshop.draftAt i).pending.reverse (m.untraced.taking i)

def programPoints (meaning : Script → Resolver) (depth : Nat) : List Step → Machine → List Point
  | [], _ => []
  | s :: rest, m =>
    stepPoints meaning depth s m ++ programPoints meaning depth rest ((Machine.step (callerBy meaning depth) s).run m).2

def pointsBy (meaning : Script → Resolver) (depth : Nat) (config : Config) (program : List Step) : List Point :=
  programPoints meaning depth program (start config) ++ [⟨[], afterBy meaning depth config program⟩]

theorem runDraftOf (name : String) (m : Machine) : (Run.draftOf name).run m =
    ((lookupEntry name m.drafts).elim (Run.unbound name : Run Nat).run (fun i => (pure i : Run Nat).run)) m := by
  have got : (get : Run Machine).run m = (.ok m, m) := rfl
  rw [Run.draftOf, runBind, got]
  dsimp only
  cases lookupEntry name m.drafts <;> rfl

theorem runLookUp (name : String) (m : Machine) : (Run.lookUp name).run m =
    ((m.binding? name).elim (Run.unbound name : Run Binding).run (fun b => (pure b : Run Binding).run)) m := by
  have got : (get : Run Machine).run m = (.ok m, m) := rfl
  rw [Run.lookUp, runBind, got]
  dsimp only
  cases m.binding? name <;> rfl

theorem runNodeOf (name : String) (m : Machine) :
    (∃ n, m.binding? name = some (.node n) ∧ (Run.nodeOf name).run m = (.ok n, m)) ∨
      (∀ n, m.binding? name ≠ some (.node n)) ∧ ∃ e, (Run.nodeOf name).run m = (.error e, m) := by
  rw [Run.nodeOf, runBind, runLookUp]
  cases m.binding? name with
  | none => exact .inr ⟨nofun, _, rfl⟩
  | some b =>
    cases b with
    | node n => exact .inl ⟨n, rfl, rfl⟩
    | action | story | session | ticket => exact .inr ⟨nofun, _, rfl⟩

theorem dispatchDrafted (call : Run.Caller) {drafted : Option String} {verb : Verb} (begins : ¬ verb.Plain)
    (named : lookupEntry (drafted.getD firstDraft) m.drafts = some i) :
    (Run.dispatch call none drafted verb).run m = (Run.onDraft call i verb).run m := by
  rw [Run.dispatch, runBind, runDraftOf, named]
  cases verb with
  | resolve | build => rfl
  | _ => exact absurd trivial begins

theorem dispatchPassless {on drafted bind : Option String} {verb : Verb} (begins : ¬ verb.Plain)
    (pass : m.passOf? (.mk on drafted bind verb) = none) :
    ∃ e, ∀ call, (Run.dispatch call on drafted verb).run m = (.error e, m) := by
  cases named : lookupEntry (drafted.getD firstDraft) m.drafts with
  | none => exact ⟨_, fun call => by rw [Run.dispatch, runBind, runDraftOf, named]; rfl⟩
  | some i =>
    cases on with
    | none =>
      cases verb with
      | resolve => cases named.symm.trans pass
      | build root brief =>
        rcases runNodeOf root m with ⟨n, bound, ran⟩ | ⟨_, e, ran⟩
        · have foreign : n.draft ≠ i := fun own => by simp [passOf?, named, bound, own] at pass
          exact ⟨_, fun call => by
            rw [dispatchDrafted call begins named, Run.onDraft, runBind, ran]
            exact buildForeign foreign⟩
        · refine ⟨e, fun call => ?_⟩
          rw [dispatchDrafted call begins named, Run.onDraft, runBind, ran]
      | _ => exact absurd trivial begins
    | some name =>
      -- a step on a variable never calls a script, so one caller stands for all
      suffices fails : ∃ e, (Run.dispatch (caller 0) (some name) drafted verb).run m = (.error e, m) from
        fails.imp fun e ran call => ran
      rw [Run.dispatch, runBind, runDraftOf, named]
      show ∃ e, (Run.lookUp name >>= _).run m = (.error e, m)
      rw [runBind, runLookUp]
      cases m.binding? name with
      | none => exact ⟨_, rfl⟩
      | some b =>
        cases verb with
        | resolve | build => cases b <;> exact ⟨_, rfl⟩
        | _ => exact absurd trivial begins

theorem performLeaves (call : Run.Caller) (on drafted bind : Option String) (verb : Verb) (m : Machine) :
    ((Machine.step call (.mk on drafted bind verb)).run m).2.workshop =
      ((Run.dispatch call on drafted verb).run m).2.workshop := by
  rw [stepLeaves, Run.perform, runBind]
  generalize (Run.dispatch call on drafted verb).run m = result
  obtain ⟨e | done, m'⟩ := result
  · rfl
  · cases bind with
    | none => rfl
    | some name => exact m'.keepWorkshop name done

theorem stepSame {on drafted bind : Option String} {verb : Verb}
    (same : (Run.dispatch call on drafted verb).run m = (Run.dispatch call' on drafted verb).run m) :
    (Machine.step call (.mk on drafted bind verb)).run m = (Machine.step call' (.mk on drafted bind verb)).run m := by
  have performed : StateT.run (Run.perform call (.mk on drafted bind verb)).run m =
      StateT.run (Run.perform call' (.mk on drafted bind verb)).run m := bindFirstSame same
  rw [Machine.step, Machine.step, StateT.run_bind, StateT.run_bind, performed]

theorem buildLeaves {root : NodeRef} (call : Run.Caller) (brief : Bool) (own : root.draft = i) :
    ((Run.build call i root brief).run m).2.workshop.drafts = (m.passed call i).workshop.drafts := by
  cases result : m.passResult call i with
  | error e => rw [buildFailed own result]
  | ok count =>
    rw [buildUnfolded, runBind, ownedOwn own]
    dsimp only
    rw [runBind, passWithTraceParts, result]
    dsimp only
    generalize m.passed call i = m₁
    rw [Run.compile, runBind, compiledParts]
    dsimp only
    generalize ((m₁.workshop.draftAt root.draft).compile root.key).result = story
    cases story <;> rfl

/- A step that begins a pass does nothing else to the drafts, and calls scripts in the pass alone. -/
structure Passed (m : Machine) (s : Step) (i : Nat) : Prop where
  named : ∃ name, lookupEntry name m.drafts = some i
  leaves : ∀ call, ((Machine.step call s).run m).2.workshop.drafts = (m.passed call i).workshop.drafts
  same : ∀ call call', (Run.pass call i).run m.untraced = (Run.pass call' i).run m.untraced →
    (Machine.step call s).run m = (Machine.step call' s).run m

theorem passOfPassed (pass : m.passOf? s = some i) : m.Passed s i := by
  have traced : ∀ call call', (Run.pass call i).run m.untraced = (Run.pass call' i).run m.untraced →
      (Run.passWithTrace call i).run m = (Run.passWithTrace call' i).run m := fun call call' same => by
    simp only [passWithTraceParts, passResult, passAnswers, Machine.passed, same]
  obtain ⟨on, drafted, bind, verb⟩ := s
  cases on with
  | some name => cases pass
  | none =>
    cases verb with
    | resolve =>
      have named : lookupEntry (drafted.getD firstDraft) m.drafts = some i := pass
      refine ⟨⟨_, named⟩, fun call => ?_, fun call call' same => stepSame ?_⟩
      · rw [performLeaves, dispatchDrafted call id named, Run.onDraft]
        cases result : m.passResult call i with
        | error e => rw [resolveFailed result]
        | ok count => rw [resolvePassed result]
      · rw [dispatchDrafted call id named, dispatchDrafted call' id named]
        exact bindFirstSame (traced call call' same)
    | build root brief =>
      have owned : ∃ n, lookupEntry (drafted.getD firstDraft) m.drafts = some i ∧ m.binding? root = some (.node n) ∧
          n.draft = i := by
        unfold passOf? at pass
        dsimp only at pass
        split at pass
        · rename_i j n named bound
          split at pass
          · rename_i own
            cases Option.some.inj pass
            exact ⟨n, named, bound, own⟩
          · cases pass
        · cases pass
      obtain ⟨n, named, bound, own⟩ := owned
      have found : (Run.nodeOf root).run m = (.ok n, m) := by
        rcases runNodeOf root m with ⟨n', bound', ran⟩ | ⟨free, _⟩
        · cases bound.symm.trans bound'
          exact ran
        · exact absurd bound (free n)
      have ran : ∀ call, (Run.dispatch call none drafted (.build root brief)).run m = (Run.build call i n brief).run m :=
        fun call => by rw [dispatchDrafted call id named, Run.onDraft, runBind, found]
      refine ⟨⟨_, named⟩, fun call => ?_, fun call call' same => stepSame ?_⟩
      · rw [performLeaves, ran]
        exact buildLeaves call brief own
      · rw [ran, ran, buildUnfolded, buildUnfolded, runBind, runBind, ownedOwn own]
        exact bindFirstSame (traced call call' same)
    | _ => cases pass

theorem passlessSame (pass : m.passOf? s = none) : (Machine.step call s).run m = (Machine.step call' s).run m := by
  by_cases plain : s.Plain
  · rw [stepPlain call call' plain]
  · obtain ⟨on, drafted, bind, verb⟩ := s
    obtain ⟨e, ran⟩ := dispatchPassless plain pass
    exact stepSame ((ran call).trans (ran call').symm)

theorem passlessMoves (sound : m.Sound) (pass : m.passOf? s = none) : m.Moves ((Machine.step call s).run m).2 := by
  by_cases plain : s.Plain
  · rw [stepLeaves]
    exact (Asks.perform sound plain).kept
  · obtain ⟨on, drafted, bind, verb⟩ := s
    obtain ⟨e, ran⟩ := dispatchPassless plain pass
    exact .single (.still (by rw [performLeaves, ran]))

variable {P : Machine → Prop} {points : Step → Machine → List Point}

theorem resolverMet (same : ∀ s m, (∀ p ∈ points s m, P p.machine) → (step s).run m = (step' s).run m)
    (resolver : Resolver) (last : Option NodeRef) (met : ∀ p ∈ resolverPoints step points resolver m, P p.machine) :
    (runResolver step last resolver).run m = (runResolver step' last resolver).run m := by
  induction resolver generalizing m last with
  | give | fail => rfl
  | next s rest ih =>
    obtain ⟨now, later⟩ := List.forall_mem_append.mp met
    rw [runResolverNext, runResolverNext, ← same s m now]
    exact ih _ _ later

theorem linksMet {called : Script → Binding → Machine → List Point} {links : List Deferred}
    (same : ∀ script given m, (∀ p ∈ called script given m, P p.machine) →
      (call script given).run m = (call' script given).run m)
    (met : ∀ p ∈ Run.linkPoints call called i links m, P p.machine) :
    (Run.resolveAll call i links).run m = (Run.resolveAll call' i links).run m := by
  induction links generalizing m with
  | nil => rfl
  | cons link rest ih =>
    rw [Run.resolveAllParts, Run.resolveAllParts, runBind, runBind]
    rw [Run.linkPoints] at met
    cases opening : (Run.opening i link).run m with | mk opened m₁ => ?_
    rw [opening] at met
    cases opened with
    | error e => rfl
    | ok given =>
      obtain ⟨now, later⟩ := List.forall_mem_append.mp met
      have ran := same link.script given m₁ fun p mem => now (p.amid i (link :: rest)) (List.mem_map_of_mem mem)
      dsimp only
      rw [runBind, runBind, ← ran]
      cases called : (call link.script given).run m₁ with | mk answer m₂ => ?_
      rw [called] at later
      cases answer with
      | error e => rfl
      | ok last =>
        dsimp only at later ⊢
        rw [runBind, runBind]
        cases closing : (Run.closing i last link).run m₂ with | mk closed m₃ => ?_
        rw [closing] at later
        cases closed with
        | error e => rfl
        | ok => exact ih later

theorem stepMet (wrong : Step → StateM Machine Done) (meaning : Script → Resolver) (depth : Nat) (s : Step)
    (met : ∀ p ∈ stepPoints meaning depth s m, P p.machine) : (Machine.step (callerBy meaning depth) s).run m =
      (guarded P wrong (Machine.step (guardedCaller P wrong meaning depth)) s).run m := by
  induction depth generalizing s m with
  | zero => exact (if_pos (met ⟨[], m⟩ (by simp [stepPoints]))).symm
  | succ depth ih =>
    rw [stepPoints] at met
    obtain ⟨now, within⟩ := List.forall_mem_cons.mp met
    refine Eq.trans ?_ (if_pos now).symm
    cases pass : m.passOf? s with
    | none => exact passlessSame pass
    | some i =>
      rw [pass] at within
      have called : ∀ script given m, (∀ p ∈ resolverPoints (Machine.step (callerBy meaning depth))
          (stepPoints meaning depth) (meaning script) (m.bind argument given), P p.machine) →
          (callerBy meaning (depth + 1) script given).run m =
            (guardedCaller P wrong meaning (depth + 1) script given).run m := fun script given m met => by
        rw [callerBy, guardedCaller, callBy, callBy, onArgumentParts, onArgumentParts,
          resolverMet (fun s m met => ih s met) (meaning script) given.node? met]
      refine (passOfPassed pass).same _ _ ?_
      rw [passParts, passParts]
      have resolved : (Run.resolveAll (callerBy meaning (depth + 1)) i (m.workshop.draftAt i).pending.reverse).run
          (m.untraced.taking i) = (Run.resolveAll (guardedCaller P wrong meaning (depth + 1)) i
            (m.workshop.draftAt i).pending.reverse).run (m.untraced.taking i) := linksMet called within
      have waiting : (m.untraced.workshop.draftAt i).pending = (m.workshop.draftAt i).pending := rfl
      rw [waiting, resolved]

theorem pointsMet (wrong : Step → StateM Machine Done) (meaning : Script → Resolver) (depth : Nat) (config : Config)
    (program : List Step) (met : ∀ p ∈ pointsBy meaning depth config program, P p.machine) :
    guardedAfter P wrong meaning depth config program = afterBy meaning depth config program := by
  have general : ∀ m : Machine, (∀ p ∈ programPoints meaning depth program m, P p.machine) →
      program.foldl (fun m s => ((guarded P wrong (Machine.step (guardedCaller P wrong meaning depth)) s).run m).2) m =
        program.foldl (fun m s => ((Machine.step (callerBy meaning depth) s).run m).2) m := by
    clear met
    induction program with
    | nil => exact fun m met => rfl
    | cons s rest ih =>
      intro m met
      obtain ⟨now, later⟩ := List.forall_mem_append.mp met
      rw [List.foldl_cons, List.foldl_cons, ← stepMet wrong meaning depth s now]
      exact ih _ later
  exact general _ (List.forall_mem_append.mp met).1

end Machine
end Dialogue
