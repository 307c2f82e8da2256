import Dialogue.Proofs.Play.Asides
import Dialogue.Proofs.Play.Tickets

/-! How far a node is shown. A node that has just been entered shows its first segment, each ticket that comes back
shows one more, and the ticket of the last segment has the node concluded. So where play rests, on a choice or at its
end, the node is shown in full; and since nothing that leaves play on the node sets the count back, it stays so. -/
namespace Dialogue.Play

inductive Entered (story : Story) (context : Context) : State → Prop where
  | start {s : State} {out : Output} (ok : (start story context).result = .ok (s, out)) : Entered story context s
  | step {s t : State} {event : Event} {out : Output} (reached : Reached story context s)
      (ok : (step story s event).result = .ok (t, out)) (entered : out.entered ≠ []) : Entered story context t

def completed (story : Story) (s : State) : Nat → State
  | 0 => s
  | i + 1 => after story (completed story s i) (.revealed (completed story s i).ticket)

def completion (story : Story) (s : State) (i : Nat) : Except PlayError (State × Output) :=
  (step story (completed story s i) (.revealed (completed story s i).ticket)).result

def Resting (s : State) : Prop := s.awaitingChoice = true ∨ s.finished = true

def joined (texts : List Segment) : String := String.join (texts.map (·.text))

def wholeText (story : Story) (id : NodeId) : String := joined (((story.node? id).map (·.texts)).getD [])

structure Unfolds (story : Story) (node : StoryNode) (s : State) : Prop where
  first : s.revealIndex = 0
  onward : ∀ i, i + 1 < node.texts.length → completion story s i =
    .ok ({ s with revealIndex := i + 1 },
      { entered := [], text := joined (node.texts.take (i + 2)), segment := node.texts[i + 1]?, actions := []
        stale := false, finished := false })
  failed : ∀ i e, i + 1 = node.texts.length → completion story s i = .error e → ∃ id, e = .routingLoop id
  ends : ∀ i t out, i + 1 = node.texts.length → completion story s i = .ok (t, out) →
    out.stale = false ∧ (t.awaitingChoice = true ∨ t.finished = true ∨ out.entered ≠ [])

def ShownInFull (story : Story) (s : State) : Prop :=
  Resting s → ∀ node, story.node? s.nodeId = some node → node.texts.length ≤ s.revealIndex + 1

variable {story : Story} {context : Context} {node : StoryNode} {s s' t : State} {target : NodeId} {entered : List NodeId}
  {event : Event} {out : Output} {m : Moved}

theorem Settled.routedOf (settling : Settled story node s t entered) (some : entered ≠ []) :
    ∃ s' target, Routed story s' target t entered := by
  cases settling with
  | rested => contradiction
  | routed _ onward => exact ⟨_, _, onward⟩

theorem Moves.routedOf (moves : Moves story s event m) (some : m.entered ≠ []) :
    ∃ s' target, Routed story s' target m.state m.entered := by
  cases moves with
  | stale => contradiction
  | segment => contradiction
  | settled _ _ _ settling => exact settling.routedOf some
  | followed _ _ _ _ _ onward => exact ⟨_, _, onward⟩
  | stayed _ _ _ _ _ settling => exact settling.routedOf some

theorem Entered.routed (state : Entered story context s) : ∃ s' target entered, Routed story s' target s entered := by
  cases state with
  | start ok =>
    obtain ⟨_, routed, _⟩ := startRouted ok
    exact ⟨_, _, _, routed⟩
  | step _ ok some =>
    obtain ⟨m, moves, rfl, rfl⟩ := stepMoves ok
    obtain ⟨_, _, routed⟩ := moves.routedOf some
    exact ⟨_, _, _, routed⟩

theorem Concluded.stays {next : Option NodeId} (how : Concluded node s s' next) :
    s'.nodeId = s.nodeId ∧ s'.revealIndex = s.revealIndex := by
  cases how <;> exact ⟨rfl, rfl⟩

theorem Concluded.rests (how : Concluded node s s' none) : Resting s' := by
  cases how with
  | awaits => exact .inl rfl
  | ends => exact .inr rfl

theorem Routed.arrives (closed : story.Closed) (routed : Routed story s target t entered)
    (found : story.node? t.nodeId = some node) : (∃ s', t = landed node s') ∨ node.texts = [] ∧ Resting t := by
  induction routed with
  | @shown s _ n there text =>
    have same : n = node := Option.some.inj ((closed.idOf there ▸ there).symm.trans found)
    exact .inl ⟨s, same ▸ rfl⟩
  | @rested s s' _ n there routing rest =>
    rw [rest.stays.1] at found
    have same : n = node := Option.some.inj ((closed.idOf there ▸ there).symm.trans found)
    exact .inr ⟨same ▸ routing, rest.rests⟩
  | crossed _ _ _ _ ih => exact ih found

theorem describeFree (here : story.node? s.nodeId = some node) (free : s.finished = false ∧ s.awaitingChoice = false)
    (entered : List NodeId) (stale : Bool) : describe story entered stale s =
      { entered := entered, text := joined (node.texts.take (s.revealIndex + 1)), segment := node.texts[s.revealIndex]?
        actions := [], stale := stale, finished := false } := by
  simp [describe, free, revealedText, liveSegment, here, joined]

theorem stepShown (here : story.node? s.nodeId = some node) (free : s.finished = false ∧ s.awaitingChoice = false)
    (more : s.revealIndex + 1 < node.texts.length) : (step story s (.revealed s.ticket)).result =
      .ok ({ s with revealIndex := s.revealIndex + 1 },
        { entered := [], text := joined (node.texts.take (s.revealIndex + 2)), segment := node.texts[s.revealIndex + 1]?
          actions := [], stale := false, finished := false }) := by
  rw [stepOfMove, move, revealLive free here, if_pos more, Except.map, shown,
    describeFree (s := { s with revealIndex := s.revealIndex + 1 }) here free]

theorem stepLast (here : story.node? s.nodeId = some node) (free : s.finished = false ∧ s.awaitingChoice = false)
    (last : s.revealIndex + 1 = node.texts.length) :
    (step story s (.revealed s.ticket)).result = (settle story node s).result.map (shown story) := by
  rw [stepOfMove, move, revealLive free here, if_neg (by omega)]

theorem lastFault {e : PlayError} (closed : story.Closed) (live : Live story node s)
    (last : s.revealIndex + 1 = node.texts.length) (failed : (step story s (.revealed s.ticket)).result = .error e) :
    ∃ id, e = .routingLoop id := by
  rw [stepLast live.here live.free.symm last] at failed
  cases result : (settle story node s).result with
  | error other =>
    rw [result] at failed
    cases failed
    exact settleFault closed live result
  | ok m => simp [result, Except.map] at failed

theorem Routed.nonempty (routed : Routed story s target t entered) : entered ≠ [] := by
  cases routed <;> simp

theorem lastEnds (live : Live story node s) (last : s.revealIndex + 1 = node.texts.length)
    (ok : (step story s (.revealed s.ticket)).result = .ok (t, out)) :
    out.stale = false ∧ (t.awaitingChoice = true ∨ t.finished = true ∨ out.entered ≠ []) := by
  rw [stepLast live.here live.free.symm last] at ok
  cases result : (settle story node s).result with
  | error e => simp [result, Except.map] at ok
  | ok m =>
    obtain ⟨settling, fresh⟩ := settleSettled result
    cases m
    rw [result] at ok
    cases ok
    refine ⟨fresh, ?_⟩
    cases settling with
    | rested rest => exact or_assoc.mp (.inl rest.rests)
    | routed _ onward => exact .inr (.inr onward.nonempty)

theorem completedAt (here : story.node? s.nodeId = some node) (free : s.finished = false ∧ s.awaitingChoice = false)
    (first : s.revealIndex = 0) {i : Nat} (within : i < node.texts.length) :
    completed story s i = { s with revealIndex := i } := by
  induction i with
  | zero => rw [completed, ← first]
  | succ i ih =>
    rw [completed, ih (by omega), after, stepShown (s := { s with revealIndex := i }) here free within]

theorem Live.unfolds (closed : story.Closed) (live : Live story node s) (first : s.revealIndex = 0) :
    Unfolds story node s := by
  have there : ∀ i, i < node.texts.length → Live story node { s with revealIndex := i } :=
    fun _ within => { live with place := .inl within }
  have back : ∀ i, i < node.texts.length →
      completion story s i = (step story { s with revealIndex := i } (.revealed { s with revealIndex := i }.ticket)).result := by
    intro i within
    rw [completion, completedAt live.here live.free.symm first within]
  refine ⟨first, ?_, ?_, ?_⟩
  · intro i more
    rw [back i (by omega)]
    exact stepShown (s := { s with revealIndex := i }) live.here live.free.symm more
  · intro i e last failed
    rw [back i (by omega)] at failed
    exact lastFault closed (there i (by omega)) last failed
  · intro i t out last ok
    rw [back i (by omega)] at ok
    exact lastEnds (there i (by omega)) last ok

theorem Entered.unfolds (closed : story.Closed) (state : Entered story context s) (here : story.node? s.nodeId = some node)
    (text : node.texts ≠ []) : Unfolds story node s := by
  obtain ⟨_, _, _, routed⟩ := state.routed
  rcases routed.arrives closed here with ⟨s', rfl⟩ | ⟨routing, _⟩
  · exact (landedLive closed here s').unfolds closed rfl
  · contradiction

theorem routedInFull (closed : story.Closed) (routed : Routed story s target t entered) : ShownInFull story t := by
  intro rests node here
  rcases routed.arrives closed here with ⟨s', rfl⟩ | ⟨routing, _⟩
  · rcases rests with awaits | ends <;> contradiction
  · simp [routing]

theorem settledInFull (closed : story.Closed) (here : story.node? s.nodeId = some node)
    (last : node.texts.length ≤ s.revealIndex + 1) (settling : Settled story node s t entered) : ShownInFull story t := by
  cases settling with
  | rested rest =>
    intro _ n there
    rw [rest.stays.1, here] at there
    cases there
    rw [rest.stays.2]
    exact last
  | routed _ onward => exact routedInFull closed onward

theorem ShownInFull.moved (closed : story.Closed) (full : ShownInFull story s) (moves : Moves story s event m) :
    ShownInFull story m.state := by
  cases moves with
  | stale => exact full
  | segment free =>
    intro rests
    rcases rests with awaits | ends <;> simp_all
  | settled _ here last settling => exact settledInFull closed here last settling
  | followed _ _ _ _ _ onward => exact routedInFull closed onward
  | @stayed node action _ _ _ awaits here _ _ _ settling =>
    have last := full (.inl awaits) node here
    exact settledInFull (s := taken action s) closed here last settling

theorem ShownInFull.after (closed : story.Closed) (full : ShownInFull story s) (event : Event) :
    ShownInFull story (after story s event) := by
  rcases afterCases story s event with same | ⟨m, moves, same⟩
  · rw [same]
    exact full
  · rw [same]
    exact full.moved closed moves

theorem reachedInFull (closed : story.Closed) (reached : Reached story context s) : ShownInFull story s := by
  refine reachedKeeps (fun first out started => ?_) (fun s event full => full.after closed event) reached
  obtain ⟨_, routed, _⟩ := startRouted started
  exact routedInFull closed routed

theorem ShownInFull.text (full : ShownInFull story s) (rests : Resting s) : revealedText story s = wholeText story s.nodeId := by
  unfold revealedText wholeText
  cases here : story.node? s.nodeId with
  | none => rfl
  | some node => simp [joined, List.take_of_length_le (full rests node here)]

theorem Settled.stays (settling : Settled story node s t entered) (still : entered = []) :
    t.nodeId = s.nodeId ∧ Resting t := by
  cases settling with
  | rested rest => exact ⟨rest.stays.1, rest.rests⟩
  | routed _ onward => exact absurd still onward.nonempty

theorem Moves.stays (moves : Moves story s event m) (still : m.entered = []) (rests : Resting s) :
    m.state.nodeId = s.nodeId ∧ Resting m.state := by
  cases moves with
  | stale => exact ⟨rfl, rests⟩
  | segment free => rcases rests with awaits | ends <;> simp_all
  | settled _ _ _ settling => exact settling.stays still
  | followed _ _ _ _ _ onward => exact absurd still onward.nonempty
  | stayed _ _ _ _ _ settling => exact settling.stays still

theorem answersInFull (closed : story.Closed) {events : List Event} (full : ShownInFull story s) (rests : Resting s)
    (still : ∀ t out, .ok (t, out) ∈ answers story s events → out.entered = []) :
    ∀ t out, .ok (t, out) ∈ answers story s events → t.nodeId = s.nodeId ∧ Resting t ∧ out.text = wholeText story s.nodeId := by
  -- on the events: each of them fails, or is taken without leaving the node
  induction events generalizing s with
  | nil => simp [answers]
  | cons event events ih =>
    intro t out answered
    cases result : (step story s event).result with
    | error e =>
      have same : after story s event = s := by rw [after, result]
      rw [answers, result, same] at answered still
      exact ih full rests (fun t out among => still t out (.tail _ among)) t out (by simpa using answered)
    | ok r =>
      obtain ⟨next, shown⟩ := r
      have arrives : after story s event = next := by rw [after, result]
      rw [answers, result, arrives] at answered still
      obtain ⟨m, moves, rfl, rfl⟩ := stepMoves result
      have there := moves.stays (still _ _ (.head _)) rests
      have after := full.moved closed moves
      rcases List.mem_cons.mp answered with first | later
      · cases first
        refine ⟨there.1, there.2, ?_⟩
        rw [← there.1]
        exact after.text there.2
      · rw [← there.1]
        exact ih after there.2 (fun t out among => still t out (.tail _ among)) t out later

theorem segmentsUnfold (valid : story.validate = .ok ()) (context : Context) :
    (∀ s node, Entered story context s → story.node? s.nodeId = some node → node.texts ≠ [] → Unfolds story node s) ∧
    (∀ s out, (start story context).result = .ok (s, out) → Resting s → out.text = wholeText story s.nodeId) ∧
    (∀ s event t out, Reached story context s → (step story s event).result = .ok (t, out) → Resting t →
      out.text = wholeText story t.nodeId) ∧
    ∀ s events, Reached story context s → Resting s →
      (∀ t out, .ok (t, out) ∈ answers story s events → out.entered = []) →
      ∀ t out, .ok (t, out) ∈ answers story s events →
        t.nodeId = s.nodeId ∧ Resting t ∧ out.text = wholeText story s.nodeId := by
  have closed := Story.validateOk.mp valid
  refine ⟨?_, ?_, ?_, ?_⟩
  · intro s node state here text
    exact state.unfolds closed here text
  · intro s out started rests
    obtain ⟨_, routed, rfl⟩ := startRouted started
    exact (routedInFull closed routed).text rests
  · intro s event t out reached ok rests
    obtain ⟨m, moves, rfl, rfl⟩ := stepMoves ok
    exact ((reachedInFull closed reached).moved closed moves).text rests
  · intro s events reached rests still
    exact answersInFull closed (reachedInFull closed reached) rests still

def pierNode : StoryNode where
  id := "pier"
  texts := [⟨"Mist. ", 300, 500⟩, ⟨"Gulls.", 300, 500⟩]
  nextId := none
  rules := []
  effects := []
  actions := [⟨"wait", "Wait", none, [], none⟩]

def pier : Story where
  rootId := "pier"
  nodes := .ofList [("pier", pierNode)]

def pierSeen : State := ⟨"pier", .empty, false, 0, none, 1, false⟩

def pierTold : State := { pierSeen with awaitingChoice := true, revealIndex := 1 }

theorem pierUnfolds : pier.validate = .ok () ∧ Entered pier .empty pierSeen ∧ Unfolds pier pierNode pierSeen ∧
    Reached pier .empty pierTold ∧ Resting pierTold ∧
    (∃ t out, (step pier pierTold (.select "wait")).result = .ok (t, out) ∧ out.text = "Mist. Gulls.") ∧
    ∀ t out, .ok (t, out) ∈ answers pier pierTold [.revealed ⟨"pier", 1, 1⟩, .select "leave", .select "wait"] →
      t.nodeId = "pier" ∧ Resting t ∧ out.text = "Mist. Gulls." := by
  have valid : pier.validate = .ok () := rfl
  have first : Entered pier .empty pierSeen := .start rfl
  have reached : Reached pier .empty pierTold := ⟨_, _, [.revealed ⟨"pier", 0, 1⟩, .revealed ⟨"pier", 1, 1⟩], rfl, rfl⟩
  have unfold := segmentsUnfold valid .empty
  refine ⟨valid, first, unfold.1 pierSeen pierNode first rfl (by simp [pierNode]), reached, .inl rfl, ?_, ?_⟩
  · exact ⟨_, _, rfl, unfold.2.2.1 pierTold (.select "wait") _ _ reached rfl (.inl rfl)⟩
  · refine unfold.2.2.2 pierTold _ reached (.inl rfl) fun t out among => ?_
    rcases among with _ | ⟨_, _ | ⟨_, _ | ⟨_, none⟩⟩⟩
    · rfl
    · rfl
    · nomatch none

end Dialogue.Play
