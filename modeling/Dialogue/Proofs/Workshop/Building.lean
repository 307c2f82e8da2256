import Dialogue.Proofs.Workshop.Shutting

/-! Building. A build runs a pass and compiles what the pass has left. Whether the pass succeeds or not, it has taken
the links that waited off the list for good: a build that comes after it resolves only what waits by then, and if
nothing does, it gives the story of the draft as it is. -/
namespace Dialogue

variable {m m' : Machine} {i : Nat} {root : NodeRef} {brief : Bool} {call : Run.Caller}

namespace Machine

def untraced (m : Machine) : Machine := { m with trace := #[] }

def passed (call : Run.Caller) (i : Nat) (m : Machine) : Machine :=
  { ((Run.pass call i).run m.untraced).2 with trace := m.trace }

def passAnswers (call : Run.Caller) (i : Nat) (m : Machine) : List Answer :=
  ((Run.pass call i).run m.untraced).2.trace.toList

def passResult (call : Run.Caller) (i : Nat) (m : Machine) : Except AuthoringError Nat :=
  ((Run.pass call i).run m.untraced).1

theorem Sound.untraced (sound : m.Sound) : m.untraced.Sound := sound.traced (by simp)

theorem passWithTraceParts (call : Run.Caller) (i : Nat) (m : Machine) : (Run.passWithTrace call i).run m =
    (.ok (m.passResult call i, m.passAnswers call i), m.passed call i) := rfl

theorem resolvePassed {count : Nat} (ok : m.passResult call i = .ok count) : (Run.resolve call i).run m =
    (.ok { answer := .passed count (m.passAnswers call i) }, m.passed call i) := by
  rw [Run.resolve, runBind, passWithTraceParts, ok]
  rfl

theorem resolveFailed {e : AuthoringError} (failed : m.passResult call i = .error e) : (Run.resolve call i).run m =
    (.error (.passFailed e (m.passAnswers call i)), m.passed call i) := by
  rw [Run.resolve, runBind, passWithTraceParts, failed]
  rfl

theorem passedSound (calls : call.Sound) (sound : m.Sound) (inside : i < m.workshop.drafts.size) :
    (m.passed call i).Sound ∧ m.Grows (m.passed call i) := by
  have ran : Passes m.untraced (Run.pass call i) fun _ _ => True := Passes.pass calls inside sound.untraced
  obtain ⟨sound', grows⟩ := ran.kept sound.untraced
  exact ⟨sound'.traced sound.trace, grows.drafts, grows.edits⟩

theorem passedOutside (calls : call.Sound) (sound : m.Sound) (inside : i < m.workshop.drafts.size) :
    ((m.passed call i).workshop.draftAt i).resolving = false := by
  obtain ⟨sound₁, inside₁, within⟩ := sound.untraced.taking inside
  have resolved := (Passable.advancing i).resolvable.resolveAll inside₁ sound₁
    (fun link _ => calls.follows _ link.script) within fun _ _ => trivial
  have inside₂ := Nat.lt_of_lt_of_le inside₁ (resolved.kept sound₁).2.drafts
  rw [passed, passParts]
  exact (congrArg (·.resolving) (Workshop.draftAtReleasing i _ i)).trans (by rw [if_pos ⟨rfl, inside₂⟩])

theorem passedNothing (call : Run.Caller) (inside : i < m.workshop.drafts.size)
    (none : (m.workshop.draftAt i).pending = []) (outside : (m.workshop.draftAt i).resolving = false) :
    m.passResult call i = .ok 0 ∧ m.passAnswers call i = [] ∧
    (m.passed call i).workshop.draftAt i = m.workshop.draftAt i := by
  have waiting : (m.untraced.workshop.draftAt i).pending = [] := none
  have empty : (Run.pass call i).run m.untraced = (.ok 0, (m.untraced.taking i).releasing i) := by
    rw [passParts, waiting]
    rfl
  rw [passResult, passAnswers, passed, empty]
  refine ⟨rfl, rfl, ?_⟩
  have inside₁ : i < (m.workshop.taking i).drafts.size := (m.workshop.evolvesTaking i).drafts ▸ inside
  show ((m.workshop.taking i).releasing i).draftAt i = _
  rw [Workshop.draftAtReleasing, if_pos ⟨rfl, inside₁⟩, Workshop.draftAtTaking, if_pos ⟨rfl, inside⟩, ← none, ← outside]

def owned (i : Nat) (root : NodeRef) : Run (Except AuthoringError Unit) :=
  tryCatch (do Run.author (root.ofDraft i); return .ok ()) fun
    | .authoring e => return .error e
    | other => throw other

theorem ownedForeign (foreign : root.draft ≠ i) : (owned i root).run m =
    (.ok (.error (.foreignBuilder ((m.workshop.draftAt root.draft).node root.key).id)), m) := by
  have refused : (root.ofDraft i).run m.workshop =
      (.error (.foreignBuilder ((m.workshop.draftAt root.draft).node root.key).id), m.workshop) := by
    rw [NodeRef.ofDraft, if_pos foreign]
    rfl
  have checked : (do Run.author (root.ofDraft i); return .ok () : Run (Except AuthoringError Unit)).run m =
      (.error (.authoring (.foreignBuilder ((m.workshop.draftAt root.draft).node root.key).id)), m) := by
    rw [runBind, runAuthor, refused]
    rfl
  rw [owned, runTryCatch, checked]
  rfl

theorem ownedOwn (own : root.draft = i) : (owned i root).run m = (.ok (.ok ()), m) := by
  have passes : (root.ofDraft i).run m.workshop = (.ok (), m.workshop) := by
    rw [NodeRef.ofDraft, if_neg (by simp [own])]
    rfl
  have checked : (do Run.author (root.ofDraft i); return .ok () : Run (Except AuthoringError Unit)).run m =
      (.ok (.ok ()), m) := by
    rw [runBind, runAuthor, passes]
    rfl
  rw [owned, runTryCatch, checked]

theorem buildUnfolded (call : Run.Caller) (i : Nat) (root : NodeRef) (brief : Bool) : Run.build call i root brief = (do
    match ← owned i root with
    | .error e => throw (.buildFailed (.authoring e) [])
    | .ok () =>
      match ← Run.passWithTrace call i with
      | (.ok _, trace) => Run.compile root brief trace
      | (.error e, trace) => throw (.buildFailed (.authoring e) trace)) := rfl

theorem buildForeign (foreign : root.draft ≠ i) : (Run.build call i root brief).run m = (.error (.buildFailed
    (.authoring (.foreignBuilder ((m.workshop.draftAt root.draft).node root.key).id)) []), m) := by
  rw [buildUnfolded, runBind, ownedForeign foreign]
  rfl

theorem buildFailed {e : AuthoringError} (own : root.draft = i) (failed : m.passResult call i = .error e) :
    (Run.build call i root brief).run m =
      (.error (.buildFailed (.authoring e) (m.passAnswers call i)), m.passed call i) := by
  rw [buildUnfolded, runBind, ownedOwn own]
  dsimp only
  rw [runBind, passWithTraceParts, failed]
  rfl

def noted (m : Machine) (notices : List Notice) : Machine :=
  { m with workshop.log := m.workshop.log ++ notices.toArray }

theorem Sound.noted (sound : m.Sound) (notices : List Notice) : (m.noted notices).Sound :=
  sound.evolve (i := 0) ⟨rfl, fun _ _ => rfl, .refl⟩

theorem compiledParts (root : NodeRef) (m : Machine) : (Run.compiled root).run m =
    (.ok ((m.workshop.draftAt root.draft).compile root.key).result,
      m.noted ((m.workshop.draftAt root.draft).compile root.key).notices) := rfl

theorem buildPassed {count : Nat} (brief : Bool) (calls : call.Sound) (sound : m.Sound) (here : root.Inside m.workshop)
    (own : root.draft = i) (ok : m.passResult call i = .ok count) : ∃ s notices,
      (((m.passed call i).workshop.draftAt i).compile root.key).result = .ok s ∧
      (Run.build call i root brief).run m =
        (.ok { answer := .built s brief (m.passAnswers call i), result := some (.story s) },
          (m.passed call i).noted notices) := by
  subst own
  obtain ⟨sound', grows⟩ := passedSound calls sound here.drafted
  obtain ⟨s, compiled, _⟩ := Draft.compileOk (sound'.drafts root.draft) (here.grow grows)
  have ran : (Run.build call root.draft root brief).run m =
      (Run.compile root brief (m.passAnswers call root.draft)).run (m.passed call root.draft) := by
    rw [buildUnfolded, runBind, ownedOwn rfl]
    dsimp only
    rw [runBind, passWithTraceParts, ok]
  refine ⟨s, (((m.passed call root.draft).workshop.draftAt root.draft).compile root.key).notices, compiled,
    ran.trans ?_⟩
  rw [Run.compile, runBind, compiledParts, compiled]
  rfl

theorem buildStill (brief : Bool) (calls : call.Sound) (sound : m.Sound) (here : root.Inside m.workshop)
    (own : root.draft = i) (none : (m.workshop.draftAt i).pending = []) (outside : (m.workshop.draftAt i).resolving = false) : ∃ s m',
      ((m.workshop.draftAt i).compile root.key).result = .ok s ∧ (Run.build call i root brief).run m =
        (.ok { answer := .built s brief [], result := some (.story s) }, m') ∧
      m'.workshop.draftAt i = m.workshop.draftAt i := by
  obtain ⟨ok, silent, same⟩ := passedNothing call (own ▸ here.drafted) none outside
  obtain ⟨s, notices, compiled, built⟩ := buildPassed brief calls sound here own ok
  refine ⟨s, (m.passed call i).noted notices, same ▸ compiled, ?_, same⟩
  rw [built, silent]

theorem passedDrains {meaning : Script → Resolver} (depth : Nat) (sound : m.Sound) (inside : i < m.workshop.drafts.size)
    (plain : m.PlainlyPending meaning i) :
    ((m.passed (callerBy meaning depth) i).workshop.draftAt i).pending = [] :=
  (passDrains depth sound.untraced inside plain).1

theorem buildAgain {meaning : Script → Resolver} {depth : Nat} {answer : Answer} (sound : m.Sound)
    (here : root.Inside m.workshop)
    (failed : (Run.build (callerBy meaning depth) i root brief).run m = (.error answer, m')) :
    (root.draft ≠ i → m' = m ∧
      answer = .buildFailed (.authoring (.foreignBuilder ((m.workshop.draftAt root.draft).node root.key).id)) [] ∧
      (Run.build (callerBy meaning depth) i root brief).run m' = (.error answer, m')) ∧
    (root.draft = i → (∃ e trace, answer = .buildFailed (.authoring e) trace) ∧
      (m.PlainlyPending meaning i → (m'.workshop.draftAt i).pending = []) ∧
      ((m'.workshop.draftAt i).pending = [] → ∃ s m'', ((m'.workshop.draftAt i).compile root.key).result = .ok s ∧
        (Run.build (callerBy meaning depth) i root brief).run m' =
          (.ok { answer := .built s brief [], result := some (.story s) }, m'') ∧
        m''.workshop.draftAt i = m'.workshop.draftAt i)) := by
  have calls := callerBySound meaning depth
  refine ⟨fun foreign => ?_, fun own => ?_⟩
  · have refused : (Run.build (callerBy meaning depth) i root brief).run m = _ := buildForeign foreign
    obtain ⟨same, rfl⟩ := Prod.mk.inj (failed.symm.trans refused)
    cases same
    exact ⟨rfl, rfl, refused⟩
  · have inside : i < m.workshop.drafts.size := own ▸ here.drafted
    obtain ⟨sound', grows⟩ := passedSound calls sound inside
    cases result : m.passResult (callerBy meaning depth) i with
    | ok count =>
      obtain ⟨s, notices, _, built⟩ := buildPassed brief calls sound here own result
      cases failed.symm.trans built
    | error e =>
      obtain ⟨same, rfl⟩ := Prod.mk.inj (failed.symm.trans (buildFailed own result))
      cases same
      refine ⟨⟨_, _, rfl⟩, passedDrains depth sound inside, fun none => ?_⟩
      exact buildStill brief calls sound' (here.grow grows) own none (passedOutside calls sound inside)

def crossing : List Step := [
  .mk none none (some "pier") (.newNamed "pier"),
  .mk (some "pier") none none (.linkTo (.deferred [.mk (some "it") none none (.get "island")]))]

def shore : Machine := afterBy .ofScript 1 {} crossing

def pier : NodeRef := ⟨0, 0⟩

def stranded : Machine := ((Run.build (callerBy .ofScript 1) 0 pier true).run shore).2

theorem shoreStrands : (Run.build (callerBy .ofScript 1) 0 pier true).run shore =
    (.error (.buildFailed (.authoring (.unknownName "island")) [.authoring (.unknownName "island")]), stranded) := rfl

theorem pierInside : pier.Inside shore.workshop := by
  have one : (shore.workshop.draftAt 0).nodes.size = 1 := rfl
  show 0 < (shore.workshop.draftAt 0).nodes.size
  rw [one]
  exact Nat.zero_lt_one

theorem shorePlain : shore.PlainlyPending .ofScript 0 := by
  have pending : (shore.workshop.draftAt 0).pending = [.successor 0 [.mk (some "it") none none (.get "island")]] := rfl
  intro link mem
  rw [pending] at mem
  cases List.mem_singleton.mp mem
  refine Resolver.ofScriptAll fun s mem => ?_
  cases List.mem_singleton.mp mem
  trivial

theorem shoreBuildsAgain : shore.Sound ∧ pier.Inside shore.workshop ∧ shore.PlainlyPending .ofScript 0 ∧
    (stranded.workshop.draftAt 0).pending = [] ∧ ∃ s m'', ((stranded.workshop.draftAt 0).compile 0).result = .ok s ∧
      (Run.build (callerBy .ofScript 1) 0 pier true).run stranded =
        (.ok { answer := .built s true [], result := some (.story s) }, m'') ∧
      m''.workshop.draftAt 0 = stranded.workshop.draftAt 0 := by
  have sound : shore.Sound := afterBySound .ofScript 1 {} crossing
  obtain ⟨_, drains, again⟩ := (buildAgain sound pierInside shoreStrands).2 rfl
  exact ⟨sound, pierInside, shorePlain, drains shorePlain, again (drains shorePlain)⟩

theorem failedBuildSucceeds : ¬ ∀ (depth : Nat) (config : Config) (program : List Step) (root : NodeRef) (brief : Bool)
    (answer : Answer) (m' : Machine), (Run.build (callerBy .ofScript depth) root.draft root brief).run
      (afterBy .ofScript depth config program) = (.error answer, m') →
    ∀ done m'', (Run.build (callerBy .ofScript depth) root.draft root brief).run m' ≠ (.ok done, m'') := by
  intro never
  have sound : shore.Sound := afterBySound .ofScript 1 {} crossing
  have calls := callerBySound .ofScript 1
  obtain ⟨sound', grows⟩ := passedSound calls sound pierInside.drafted
  have here : pier.Inside stranded.workshop := pierInside.grow grows
  obtain ⟨s, m'', _, built, _⟩ := buildStill (m := stranded) true calls sound' here rfl rfl rfl
  exact never 1 {} crossing pier true _ stranded shoreStrands _ m'' built

end Machine
end Dialogue
