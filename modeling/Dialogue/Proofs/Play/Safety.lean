import Dialogue.Proofs.Play.Runs
import Dialogue.Proofs.Story.Closed

/-! Play on a closed table is never stuck and never lost. `On` says what holds of a state that play has come to, with
the node it is on; it is kept by every move, and whoever keeps it shows exactly one way on. `Live` is what holds of
the node in between, when it has been left or entered and is not concluded yet. -/
namespace Dialogue.Play

structure Live (story : Story) (node : StoryNode) (s : State) : Prop where
  here : story.node? s.nodeId = some node
  next : ∀ id, s.nextId = some id → ∃ n, story.node? id = some n
  place : s.revealIndex < node.texts.length ∨ node.texts = [] ∧ s.revealIndex = 0
  free : s.awaitingChoice = false ∧ s.finished = false

structure On (story : Story) (node : StoryNode) (s : State) : Prop where
  here : story.node? s.nodeId = some node
  next : ∀ id, s.nextId = some id → ∃ n, story.node? id = some n
  place : s.revealIndex < node.texts.length ∨ node.texts = [] ∧ s.revealIndex = 0
  single : ¬ (s.awaitingChoice = true ∧ s.finished = true)
  offered : s.awaitingChoice = true → node.visibleActions s.context ≠ []
  shown : s.awaitingChoice = false → s.finished = false → node.texts ≠ []

variable {story : Story} {node : StoryNode} {s s' t : State} {target : NodeId} {entered : List NodeId}
  {event : Event} {e : PlayError}

theorem landedLive (closed : story.Closed) (found : story.node? target = some node) (s : State) :
    Live story node (landed node s) where
  here := by rw [← found, ← closed.idOf found]; rfl
  next := fun _ chosen => closed.successorFound found chosen
  place := by
    cases texts : node.texts with
    | nil => exact .inr ⟨rfl, rfl⟩
    | cons first rest => exact .inl (by simp [landed])
  free := ⟨rfl, rfl⟩

namespace Live

theorem on (live : Live story node s) (text : node.texts ≠ []) : On story node s where
  here := live.here
  next := live.next
  place := live.place
  single := fun both => by simp [live.free.1] at both
  offered := fun awaiting => by simp [live.free.1] at awaiting
  shown := fun _ _ => text

theorem concluded (live : Live story node s) (rest : Concluded node s s' none) : On story node s' := by
  cases rest with
  | awaits offered =>
    exact { here := live.here, next := live.next, place := live.place, offered := fun _ => offered
            single := fun both => by simp [live.free.2] at both
            shown := fun waits => by simp at waits }
  | ends quiet last =>
    exact { here := live.here, next := live.next, place := live.place
            single := fun both => by simp [live.free.1] at both
            offered := fun awaiting => by simp [live.free.1] at awaiting
            shown := fun _ goesOn => by simp at goesOn }

theorem left (live : Live story node s) {next : NodeId} (left : Concluded node s s' (some next)) :
    s' = s ∧ ∃ n, story.node? next = some n := by
  cases left with
  | leaves quiet chosen => exact ⟨rfl, live.next _ chosen⟩

end Live

theorem routedOn (closed : story.Closed) (routed : Routed story s target t entered) : ∃ node, On story node t := by
  induction routed with
  | @shown s _ node found text => exact ⟨node, (landedLive closed found s).on text⟩
  | @rested s _ _ node found _ rest => exact ⟨node, (landedLive closed found s).concluded rest⟩
  | crossed _ _ _ _ ih => exact ih

theorem settledOn (closed : story.Closed) (live : Live story node s) (settling : Settled story node s t entered) :
    ∃ node, On story node t := by
  cases settling with
  | rested rest => exact ⟨node, live.concluded rest⟩
  | routed _ onward => exact routedOn closed onward

namespace On

theorem live (on : On story node s) (free : s.awaitingChoice = false ∧ s.finished = false) : Live story node s :=
  ⟨on.here, on.next, on.place, free⟩

theorem takenLive (on : On story node s) (awaiting : s.awaitingChoice = true) (action : StoryAction) :
    Live story node (taken action s) where
  here := on.here
  next := on.next
  place := on.place
  free := ⟨rfl, by simpa [taken, awaiting] using on.single⟩

theorem moved (closed : story.Closed) (on : On story node s) {m : Moved} (moves : Moves story s event m) :
    ∃ node, On story node m.state := by
  cases moves with
  | stale => exact ⟨node, on⟩
  | segment free found more =>
    cases on.here.symm.trans found
    exact ⟨node, { on with place := .inl more }⟩
  | settled free found _ settling =>
    cases on.here.symm.trans found
    exact settledOn closed (on.live free.symm) settling
  | followed _ _ _ _ _ onward => exact routedOn closed onward
  | stayed awaiting found _ _ _ settling =>
    cases on.here.symm.trans found
    exact settledOn closed (on.takenLive awaiting _) settling

end On

theorem advanceFault (closed : story.Closed) {limit : Nat} {crossed : Crossed}
    (known : ∃ n, story.node? target = some n) (failed : (advance story limit crossed s target).result = .error e) :
    ∃ id, e = .routingLoop id := by
  induction limit generalizing crossed s target with
  | zero =>
    rw [advance] at failed
    rcases Told.bindError failed with missing | ⟨⟨node, s', next⟩, _, failed⟩
    · simp [(hopError missing).2] at known
    · cases next with
      | none => contradiction
      | some next => exact ⟨target, (Except.error.inj failed).symm⟩
  | succ limit ih =>
    rw [advance] at failed
    rcases Told.bindError failed with missing | ⟨⟨node, s', next⟩, hopped, failed⟩
    · simp [(hopError missing).2] at known
    · cases next with
      | none => contradiction
      | some next =>
        dsimp only at failed
        split at failed
        · exact ⟨target, (Except.error.inj failed).symm⟩
        · rcases Told.bindError failed with onward | ⟨_, _, pure⟩
          · obtain ⟨found, _, left⟩ := hopCrosses hopped
            exact ih ((landedLive closed found s).left left).2 onward
          · contradiction

theorem followFault (closed : story.Closed) (known : ∃ n, story.node? target = some n)
    (failed : (follow story s target).result = .error e) : ∃ id, e = .routingLoop id := by
  rcases Told.bindError failed with onward | ⟨_, _, pure⟩
  · exact advanceFault closed known onward
  · contradiction

theorem settleFault (closed : story.Closed) (live : Live story node s)
    (failed : (settle story node s).result = .error e) : ∃ id, e = .routingLoop id := by
  obtain ⟨s', next, concluded, how⟩ := concludeResult node s
  simp only [settle, Told.result_bind, concluded, Except.bind] at failed
  cases next with
  | none => contradiction
  | some next => exact followFault closed (live.left how).2 failed

theorem revealFault (closed : story.Closed) (on : On story node s) {ticket : Ticket}
    (failed : (reveal story s ticket).result = .error e) : ∃ id, e = .routingLoop id := by
  unfold reveal at failed
  split at failed
  · contradiction
  · rename_i alive
    have free : s.awaitingChoice = false ∧ s.finished = false := by
      simp only [Bool.or_eq_true, not_or, Bool.not_eq_true] at alive
      exact alive.1.symm
    rcases Told.bindError failed with missing | ⟨n, found, failed⟩
    · exact absurd (on.here.symm.trans (lookUpError missing)) (by simp)
    · cases on.here.symm.trans (lookUpOk found)
      split at failed
      · contradiction
      · exact settleFault closed (on.live free) failed

theorem chooseFault (closed : story.Closed) (on : On story node s) {id : ActionId}
    (failed : (choose story s id).result = .error e) :
    (∃ id, e = .routingLoop id) ∨ e = .unknownAction s.nodeId id ∨ e = .actionNotVisible s.nodeId id ∨
      e = .notAwaitingChoice s.nodeId := by
  unfold choose at failed
  split at failed
  · rename_i awaiting
    rcases Told.bindError failed with missing | ⟨n, found, failed⟩
    · exact absurd (on.here.symm.trans (lookUpError missing)) (by simp)
    · cases on.here.symm.trans (lookUpOk found)
      have named : node.id = s.nodeId := closed.idOf on.here
      dsimp only at failed
      split at failed
      · exact .inr (.inl (named ▸ (Except.error.inj failed).symm))
      · rename_i action chosen
        split at failed
        · rcases Told.bindError failed with told | ⟨_, _, failed⟩
          · contradiction
          · rcases Told.bindError failed with told | ⟨s', applied, failed⟩
            · contradiction
            · cases Except.ok.inj applied
              have live := on.takenLive awaiting action
              dsimp only at failed
              split at failed
              · rename_i next leads
                have target := closed.actionFound on.here (List.mem_of_find?_eq_some chosen) leads
                exact .inl (followFault closed target failed)
              · exact .inl (settleFault closed live failed)
        · exact .inr (.inr (.inl (named ▸ (Except.error.inj failed).symm)))
  · exact .inr (.inr (.inr (Except.error.inj failed).symm))

theorem stepKnown (closed : story.Closed) (on : On story node s) (id : NodeId) :
    (step story s event).result ≠ .error (.unknownNode id) := by
  intro failed
  have failed := stepError failed
  cases event with
  | revealed ticket =>
    obtain ⟨_, loop⟩ := revealFault closed on failed
    contradiction
  | select action =>
    rcases chooseFault closed on failed with ⟨_, loop⟩ | other | other | other <;> contradiction

theorem startFault (closed : story.Closed) {context : Context} (failed : (start story context).result = .error e) :
    ∃ id, e = .routingLoop id := by
  rcases Told.bindError failed with told | ⟨_, _, failed⟩
  · contradiction
  · rcases Told.bindError failed with onward | ⟨_, _, pure⟩
    · exact followFault closed closed.rootFound onward
    · contradiction

def Output.OneWayOn (out : Output) : Prop :=
  out.segment ≠ none ∧ out.actions = [] ∧ out.finished = false ∨
  out.segment = none ∧ out.actions ≠ [] ∧ out.finished = false ∨
  out.segment = none ∧ out.actions = [] ∧ out.finished = true

theorem On.offers (on : On story node s) (awaiting : s.awaitingChoice = true) : offers story s ≠ [] := by
  simpa [Play.offers, on.here] using on.offered awaiting

theorem On.describe (on : On story node s) (entered : List NodeId) (stale : Bool) :
    (describe story entered stale s).OneWayOn := by
  cases awaiting : s.awaitingChoice with
  | true =>
    have goesOn : s.finished = false := by simpa [awaiting] using on.single
    exact .inr (.inl ⟨by simp [Play.describe, awaiting], by simp [Play.describe, awaiting, on.offers awaiting],
      by simp [Play.describe, goesOn]⟩)
  | false =>
    cases finished : s.finished with
    | true => exact .inr (.inr ⟨by simp [Play.describe, finished], by simp [Play.describe, awaiting],
        by simp [Play.describe, finished]⟩)
    | false =>
      have text := on.shown awaiting finished
      have within : s.revealIndex < node.texts.length := by
        rcases on.place with within | ⟨none, _⟩
        · exact within
        · contradiction
      exact .inl ⟨by simp [Play.describe, awaiting, finished, liveSegment, on.here, within],
        by simp [Play.describe, awaiting], by simp [Play.describe, finished]⟩

theorem On.after (closed : story.Closed) (on : On story node s) (event : Event) :
    ∃ node, On story node (after story s event) := by
  rcases afterCases story s event with same | ⟨m, moves, same⟩
  · rw [same]
    exact ⟨node, on⟩
  · rw [same]
    exact on.moved closed moves

theorem On.finishedStays (on : On story node s) (finished : s.finished = true) (event : Event) :
    Play.after story s event = s := by
  rcases afterCases story s event with same | ⟨m, moves, same⟩
  · exact same
  · cases moves with
    | stale => exact same
    | segment free => simp [finished] at free
    | settled free => simp [finished] at free
    | followed awaiting => exact absurd ⟨awaiting, finished⟩ on.single
    | stayed awaiting => exact absurd ⟨awaiting, finished⟩ on.single

theorem reachedOn (closed : story.Closed) {context : Context} (reached : Reached story context s) :
    ∃ node, On story node s := by
  refine reachedKeeps (P := fun s => ∃ node, On story node s) ?_ ?_ reached
  · intro first out started
    obtain ⟨_, routed, _⟩ := startRouted started
    exact routedOn closed routed
  · intro s event ⟨node, on⟩
    exact on.after closed event

structure Kept (story : Story) (s : State) : Prop where
  key : story.nodes.contains s.nodeId = true
  nextKey : ∀ id, s.nextId = some id → story.nodes.contains id = true
  single : ¬ (s.awaitingChoice = true ∧ s.finished = true)
  offered : s.awaitingChoice = true → offers story s ≠ []
  place : ∀ n, story.node? s.nodeId = some n → s.revealIndex < n.texts.length ∨ n.texts = [] ∧ s.revealIndex = 0

theorem On.kept (on : On story node s) : Kept story s where
  key := Story.containsIff.mpr ⟨node, on.here⟩
  nextKey := fun id chosen => Story.containsIff.mpr (on.next id chosen)
  single := on.single
  offered := on.offers
  place := fun n found => by
    cases on.here.symm.trans found
    exact on.place

theorem neverStuck (valid : story.validate = .ok ()) (context : Context) :
    (∀ e, (start story context).result = .error e → ∃ id, e = .routingLoop id) ∧
    (∀ s out, (start story context).result = .ok (s, out) → out.OneWayOn) ∧
    ∀ s, Reached story context s →
      Kept story s ∧
      (s.finished = true → ∀ later, run story s later = s) ∧
      ∀ event, (∀ id, (step story s event).result ≠ .error (.unknownNode id)) ∧
        ∀ s' out, (step story s event).result = .ok (s', out) → out.OneWayOn := by
  have closed := Story.validateOk.mp valid
  refine ⟨fun e failed => startFault closed failed, ?_, ?_⟩
  · intro s out started
    obtain ⟨entered, routed, rfl⟩ := startRouted started
    obtain ⟨node, on⟩ := routedOn closed routed
    exact on.describe entered false
  · intro s reached
    obtain ⟨node, on⟩ := reachedOn closed reached
    refine ⟨on.kept, ?_, fun event => ⟨stepKnown closed on, ?_⟩⟩
    · intro finished later
      exact runKeeps (P := fun t => t = s) (fun t event same => same ▸ on.finishedStays finished event) rfl later
    · intro s' out ok
      obtain ⟨m, moves, _, rfl⟩ := stepMoves ok
      obtain ⟨node, on⟩ := on.moved closed moves
      exact on.describe m.entered m.stale

theorem ferryNeverStuck : ferry.validate = .ok () ∧ Reached ferry .empty ferryPaid ∧ Kept ferry ferryPaid ∧
    ∃ s out, (step ferry ferryPaid (.select "board")).result = .ok (s, out) ∧ out.OneWayOn := by
  have valid : ferry.validate = .ok () := rfl
  have safe := (neverStuck valid .empty).2.2 ferryPaid ferryPaidReached
  exact ⟨valid, ferryPaidReached, safe.1, _, _, rfl, (safe.2.2 (.select "board")).2 _ _ rfl⟩

end Dialogue.Play
