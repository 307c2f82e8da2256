import Dialogue.Proofs.Workshop.Barring
import Dialogue.Proofs.Workshop.Building

/-! Closed drafts. While a pass runs whose resolvers begin none themselves, its draft is closed: nothing waits on it,
and whatever would come to wait is refused because of the pass. So nothing waits afterwards, and building once more
gives the same story. A pass inside a pass opens the draft where it ends. -/
namespace Dialogue

variable {m m' : Machine} {i : Nat} {call call' : Run.Caller}

namespace Machine

structure Closed (i : Nat) (m : Machine) : Prop where
  resolving : (m.workshop.draftAt i).resolving = true
  pending : (m.workshop.draftAt i).pending = []
  refuses : ∀ r : Request, r.Live m.workshop → r.draftIndex = i → ∀ v, (r.run.run (m.workshop.releasing i)).1 = .ok v →
    r.registers v.key ≠ [] → ∃ id, (r.run.run m.workshop).1 = .error (.nestedContinuation id)

theorem Shut.closed (sound : m.Sound) (shut : m.Shut i) : m.Closed i where
  resolving := shut.resolving
  pending := shut.pending
  refuses := fun r live own v would scripted => by
    subst own
    exact r.shutOut sound.drafts live shut.resolving would scripted

theorem resolveSame (same : (Run.pass call i).run m.untraced = (Run.pass call' i).run m.untraced) :
    (Run.resolve call i).run m = (Run.resolve call' i).run m := by
  rw [Run.resolve, Run.resolve, runBind, runBind, passWithTraceParts, passWithTraceParts, passResult, passAnswers,
    passed, same, passResult, passAnswers, passed]

theorem buildSame (same : (Run.pass call i).run m.untraced = (Run.pass call' i).run m.untraced) (root : NodeRef)
    (brief : Bool) : (Run.build call i root brief).run m = (Run.build call' i root brief).run m := by
  by_cases own : root.draft = i
  · rw [buildUnfolded, buildUnfolded, runBind, runBind, ownedOwn own]
    dsimp only
    rw [runBind, runBind, passWithTraceParts, passWithTraceParts, passResult, passAnswers, passed, same, passResult,
      passAnswers, passed]
  · rw [buildForeign own, buildForeign own]

theorem closedThroughPass {meaning : Script → Resolver} (depth : Nat) (sound : m.Sound)
    (inside : i < m.workshop.drafts.size) (plain : m.PlainlyPending meaning i) :
    (∀ wrong, (Run.resolve (guardedCaller (Closed i) wrong meaning depth) i).run m =
        (Run.resolve (callerBy meaning depth) i).run m ∧
      ∀ root brief, (Run.build (guardedCaller (Closed i) wrong meaning depth) i root brief).run m =
        (Run.build (callerBy meaning depth) i root brief).run m) ∧
    (((Run.resolve (callerBy meaning depth) i).run m).2.workshop.draftAt i).pending = [] ∧
    ∀ root brief done m', root.Inside m.workshop →
      (Run.build (callerBy meaning depth) i root brief).run m = (.ok done, m') →
      (m'.workshop.draftAt i).pending = [] ∧ ∃ s trace m'', done.answer = .built s brief trace ∧
        (Run.build (callerBy meaning depth) i root brief).run m' =
          (.ok { answer := .built s brief [], result := some (.story s) }, m'') := by
  have calls := callerBySound meaning depth
  have drained := passedDrains depth sound inside plain
  refine ⟨fun wrong => ?_, ?_, fun root brief done m' here built => ?_⟩
  · have same := passGuarded (fun _ sound shut => Shut.closed sound shut) wrong depth sound.untraced inside plain
    exact ⟨resolveSame same, buildSame same⟩
  · cases result : m.passResult (callerBy meaning depth) i with
    | ok count => exact resolvePassed result ▸ drained
    | error e => exact resolveFailed result ▸ drained
  · have own : root.draft = i := by
      by_contra foreign
      cases built.symm.trans (buildForeign foreign)
    cases result : m.passResult (callerBy meaning depth) i with
    | error e => cases built.symm.trans (buildFailed own result)
    | ok count =>
      obtain ⟨s, notices, compiled, built'⟩ := buildPassed brief calls sound here own result
      obtain ⟨same, rfl⟩ := Prod.mk.inj (built.symm.trans built')
      cases same
      obtain ⟨sound', grows⟩ := passedSound calls sound inside
      have there : root.Inside (m.passed (callerBy meaning depth) i).workshop := here.grow grows
      obtain ⟨s', m'', compiled', again, _⟩ := buildStill brief calls (sound'.noted notices) there own drained
        (passedOutside calls sound inside)
      cases compiled.symm.trans compiled'
      exact ⟨drained, s, _, m'', rfl, again⟩

def landing : List Step := [
  .mk none none (some "pier") (.newNamed "pier"),
  .mk (some "pier") none none (.linkTo (.deferred [])),
  .mk none none none (.newNamed "island")]

def ferryman : Script → Resolver := fun _ =>
  .next (.mk (some "it") none none (.linkTo (.deferred []))) fun _ =>
    .next (.mk (some "it") none none (.get "island")) fun _ => .give

def harbour : Machine := afterBy ferryman 1 {} landing

theorem harbourPlain : harbour.PlainlyPending ferryman 0 := fun _ _ =>
  .next trivial fun _ => .next trivial fun _ => .give

theorem harbourClosed : harbour.Sound ∧ 0 < harbour.workshop.drafts.size ∧ harbour.PlainlyPending ferryman 0 ∧
    pier.Inside harbour.workshop ∧ harbour.passResult (callerBy ferryman 1) 0 = .ok 1 ∧
    ∃ s trace m' m'', (Run.build (callerBy ferryman 1) 0 pier true).run harbour =
        (.ok { answer := .built s true trace, result := some (.story s) }, m') ∧
      (m'.workshop.draftAt 0).pending = [] ∧ (Run.build (callerBy ferryman 1) 0 pier true).run m' =
        (.ok { answer := .built s true [], result := some (.story s) }, m'') := by
  have sound : harbour.Sound := afterBySound ferryman 1 {} landing
  have calls := callerBySound ferryman 1
  have inside : 0 < harbour.workshop.drafts.size := by decide +kernel
  have here : pier.Inside harbour.workshop := by
    have two : (harbour.workshop.draftAt 0).nodes.size = 2 := rfl
    show 0 < (harbour.workshop.draftAt 0).nodes.size
    rw [two]
    exact Nat.zero_lt_two
  have resolved : harbour.passResult (callerBy ferryman 1) 0 = .ok 1 := by decide +kernel
  obtain ⟨s, notices, _, built⟩ := buildPassed true calls sound here rfl resolved
  obtain ⟨none, s', trace, m'', same, again⟩ :=
    (closedThroughPass 1 sound inside harbourPlain).2.2 pier true _ _ here built
  cases same
  exact ⟨sound, inside, harbourPlain, here, resolved, s, _, _, m'', built, none, again⟩

/- The script of the bell begins a pass of its own, and then it waits for a link. -/
def ringing : List Step := [
  .mk none none none (.newActionWith "Ring" [
    .mk none none none .resolve,
    .mk (some "it") none none (.linkTo (.deferred []))])]

theorem nestedPassOpens : ¬ ∀ (depth : Nat) (config : Config) (program : List Step) (i : Nat) (done : Done) (m' : Machine),
    (Run.resolve (callerBy .ofScript depth) i).run (afterBy .ofScript depth config program) = (.ok done, m') →
    (m'.workshop.draftAt i).pending = [] := by
  intro closed
  have resolved : (afterBy .ofScript 2 {} ringing).passResult (callerBy .ofScript 2) 0 = .ok 1 := by decide +kernel
  have waits : (((afterBy .ofScript 2 {} ringing).passed (callerBy .ofScript 2) 0).workshop.draftAt 0).pending.length =
      1 := by decide +kernel
  rw [closed 2 {} ringing 0 _ _ (resolvePassed resolved)] at waits
  cases waits

end Machine
end Dialogue
