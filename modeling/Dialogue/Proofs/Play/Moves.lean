import Dialogue.Play.Step

/-! What a move does, said once as relations that leave the notices out. A node is entered (`landed`), concluded once
it is shown in full (`Concluded`), and routing enters one node after the other until one of them stops it (`Routed`).
Every property of play is read off `Moves`, which has one case for each way a move can go. -/
namespace Dialogue.Play

def landed (node : StoryNode) (s : State) : State :=
  let context := Effect.applyAll node.effects s.context
  { nodeId := node.id
    context := context
    awaitingChoice := false
    revealIndex := 0
    nextId := node.successor context
    visit := s.visit + 1
    finished := false }

inductive Concluded (node : StoryNode) (s : State) : State → Option NodeId → Prop where
  | awaits (offered : node.visibleActions s.context ≠ []) : Concluded node s { s with awaitingChoice := true } none
  | ends (quiet : node.visibleActions s.context = []) (last : s.nextId = none) :
      Concluded node s { s with finished := true } none
  | leaves {next : NodeId} (quiet : node.visibleActions s.context = []) (chosen : s.nextId = some next) :
      Concluded node s s (some next)

inductive Routed (story : Story) : State → NodeId → State → List NodeId → Prop where
  | shown {s : State} {target : NodeId} {node : StoryNode} (found : story.node? target = some node)
      (text : node.texts ≠ []) : Routed story s target (landed node s) [node.id]
  | rested {s s' : State} {target : NodeId} {node : StoryNode} (found : story.node? target = some node)
      (routing : node.texts = []) (rest : Concluded node (landed node s) s' none) :
      Routed story s target s' [node.id]
  | crossed {s s' t : State} {target next : NodeId} {node : StoryNode} {entered : List NodeId}
      (found : story.node? target = some node) (routing : node.texts = [])
      (left : Concluded node (landed node s) s' (some next)) (onward : Routed story s' next t entered) :
      Routed story s target t (node.id :: entered)

inductive Settled (story : Story) (node : StoryNode) (s : State) : State → List NodeId → Prop where
  | rested {s' : State} (rest : Concluded node s s' none) : Settled story node s s' []
  | routed {s' t : State} {next : NodeId} {entered : List NodeId} (left : Concluded node s s' (some next))
      (onward : Routed story s' next t entered) : Settled story node s t entered

def taken (action : StoryAction) (s : State) : State :=
  { s with context := Effect.applyAll action.effects s.context, awaitingChoice := false }

inductive Moves (story : Story) (s : State) : Event → Moved → Prop where
  | stale {ticket : Ticket} (dead : s.finished = true ∨ s.awaitingChoice = true ∨ ticket ≠ s.ticket) :
      Moves story s (.revealed ticket) ⟨s, [], true⟩
  | segment {node : StoryNode} (live : s.finished = false ∧ s.awaitingChoice = false)
      (found : story.node? s.nodeId = some node) (more : s.revealIndex + 1 < node.texts.length) :
      Moves story s (.revealed s.ticket) ⟨{ s with revealIndex := s.revealIndex + 1 }, [], false⟩
  | settled {node : StoryNode} {t : State} {entered : List NodeId}
      (live : s.finished = false ∧ s.awaitingChoice = false) (found : story.node? s.nodeId = some node)
      (last : node.texts.length ≤ s.revealIndex + 1) (settling : Settled story node s t entered) :
      Moves story s (.revealed s.ticket) ⟨t, entered, false⟩
  | followed {node : StoryNode} {action : StoryAction} {next : NodeId} {id : ActionId} {t : State}
      {entered : List NodeId} (awaiting : s.awaitingChoice = true) (found : story.node? s.nodeId = some node)
      (chosen : node.action? id = some action) (visible : action.visible s.context = true)
      (leads : action.nextId = some next) (onward : Routed story (taken action s) next t entered) :
      Moves story s (.select id) ⟨t, entered, false⟩
  | stayed {node : StoryNode} {action : StoryAction} {id : ActionId} {t : State} {entered : List NodeId}
      (awaiting : s.awaitingChoice = true) (found : story.node? s.nodeId = some node)
      (chosen : node.action? id = some action) (visible : action.visible s.context = true)
      (leads : action.nextId = none) (settling : Settled story node (taken action s) t entered) :
      Moves story s (.select id) ⟨t, entered, false⟩

variable {story : Story} {s s' t : State} {node : StoryNode} {target next : NodeId} {entered : List NodeId}
  {limit : Nat} {crossed : Crossed} {e : PlayError}

theorem lookUpResult {id : NodeId} : (lookUp story id).result =
    match story.node? id with
    | some node => .ok node
    | none => .error (.unknownNode id) := by
  unfold lookUp
  cases story.node? id <;> rfl

theorem lookUpOk {id : NodeId} (ok : (lookUp story id).result = .ok node) : story.node? id = some node := by
  rw [lookUpResult] at ok
  split at ok
  · rename_i found
    exact found.trans (congrArg some (Except.ok.inj ok))
  · contradiction

theorem lookUpError {id : NodeId} (failed : (lookUp story id).result = .error e) : story.node? id = none := by
  rw [lookUpResult] at failed
  split at failed
  · contradiction
  · assumption

theorem enterResult : (enter story s target).result =
    match story.node? target with
    | some node => .ok (node, landed node s)
    | none => .error (.unknownNode target) := by
  simp only [enter, applyEffects, Told.result_bind, lookUpResult]
  cases story.node? target <;> rfl

theorem concludeResult (node : StoryNode) (s : State) :
    ∃ s' next, (conclude node s).result = .ok (s', next) ∧ Concluded node s s' next := by
  unfold conclude
  split
  · rename_i quiet
    have quiet : node.visibleActions s.context = [] := by simpa using quiet
    cases chosen : s.nextId with
    | some next => exact ⟨_, _, rfl, .leaves quiet chosen⟩
    | none => exact ⟨{ s with finished := true }, none, by simp [chosen, Except.bind], .ends quiet chosen⟩
  · rename_i offered
    exact ⟨_, _, rfl, .awaits (by simpa using offered)⟩

theorem hopError (failed : (hop story s target).result = .error e) :
    e = .unknownNode target ∧ story.node? target = none := by
  simp only [hop, Told.result_bind, enterResult] at failed
  cases found : story.node? target with
  | none =>
    rw [found] at failed
    exact ⟨(Except.error.inj failed).symm, rfl⟩
  | some node =>
    obtain ⟨s', next, result, _⟩ := concludeResult node (landed node s)
    simp only [found, Except.bind] at failed
    split at failed <;> simp [result, Except.bind] at failed

theorem hopFound {next : Option NodeId} (hopped : (hop story s target).result = .ok (node, s', next)) :
    story.node? target = some node ∧
      (node.texts ≠ [] ∧ s' = landed node s ∧ next = none ∨
        node.texts = [] ∧ Concluded node (landed node s) s' next) := by
  simp only [hop, Told.result_bind, enterResult] at hopped
  cases found : story.node? target with
  | none => simp [found, Except.bind] at hopped
  | some other =>
    obtain ⟨t, after, result, concluded⟩ := concludeResult other (landed other s)
    by_cases routing : other.texts = []
    · simp only [found, Except.bind, StoryNode.isRouting, routing, List.isEmpty_nil, if_true, Told.result_bind, result,
        Told.result_pure, Except.ok.injEq, Prod.mk.injEq] at hopped
      obtain ⟨rfl, rfl, rfl⟩ := hopped
      exact ⟨rfl, .inr ⟨routing, concluded⟩⟩
    · simp only [found, Except.bind, StoryNode.isRouting, List.isEmpty_iff, routing, if_false, Told.result_pure,
        Except.ok.injEq, Prod.mk.injEq] at hopped
      obtain ⟨rfl, rfl, rfl⟩ := hopped
      exact ⟨rfl, .inl ⟨routing, rfl, rfl⟩⟩

theorem hopStops (hopped : (hop story s target).result = .ok (node, s', none)) :
    Routed story s target s' [node.id] := by
  obtain ⟨found, ⟨text, rfl, _⟩ | ⟨routing, rest⟩⟩ := hopFound hopped
  · exact .shown found text
  · exact .rested found routing rest

theorem hopCrosses (hopped : (hop story s target).result = .ok (node, s', some next)) :
    story.node? target = some node ∧ node.texts = [] ∧ Concluded node (landed node s) s' (some next) := by
  obtain ⟨found, ⟨_, _, none⟩ | ⟨routing, left⟩⟩ := hopFound hopped
  · contradiction
  · exact ⟨found, routing, left⟩

theorem advanceRouted {route : Route} (ok : (advance story limit crossed s target).result = .ok route) :
    Routed story s target route.state route.entered := by
  induction limit generalizing crossed s target route with
  | zero =>
    rw [advance] at ok
    obtain ⟨⟨node, s', next⟩, hopped, ok⟩ := Told.bindOk ok
    cases next with
    | none =>
      cases Except.ok.inj ok
      exact hopStops hopped
    | some next => contradiction
  | succ limit ih =>
    rw [advance] at ok
    obtain ⟨⟨node, s', next⟩, hopped, ok⟩ := Told.bindOk ok
    cases next with
    | none =>
      cases Except.ok.inj ok
      exact hopStops hopped
    | some next =>
      obtain ⟨found, routing, left⟩ := hopCrosses hopped
      dsimp only at ok
      split at ok
      · contradiction
      · obtain ⟨route, result, ok⟩ := Told.bindOk ok
        cases Except.ok.inj ok
        exact .crossed found routing left (ih result)

theorem followRouted {m : Moved} (ok : (follow story s target).result = .ok m) :
    Routed story s target m.state m.entered ∧ m.stale = false := by
  obtain ⟨route, result, ok⟩ := Told.bindOk ok
  cases Except.ok.inj ok
  exact ⟨advanceRouted result, rfl⟩

theorem settleSettled {m : Moved} (ok : (settle story node s).result = .ok m) :
    Settled story node s m.state m.entered ∧ m.stale = false := by
  obtain ⟨s', next, concluded, how⟩ := concludeResult node s
  simp only [settle, Told.result_bind, concluded, Except.bind] at ok
  cases next with
  | none =>
    cases Except.ok.inj ok
    exact ⟨.rested how, rfl⟩
  | some next => exact (followRouted ok).imp (.routed how) id

theorem revealMoves {ticket : Ticket} {m : Moved} (ok : (reveal story s ticket).result = .ok m) :
    Moves story s (.revealed ticket) m := by
  unfold reveal at ok
  split at ok
  · rename_i dead
    cases Except.ok.inj ok
    exact .stale (by simpa [or_assoc] using dead)
  · rename_i live
    simp only [Bool.or_eq_true, decide_eq_true_eq, not_or, Bool.not_eq_true, ne_eq, Classical.not_not] at live
    obtain ⟨live, rfl⟩ := live
    obtain ⟨node, found, ok⟩ := Told.bindOk ok
    have found := lookUpOk found
    split at ok
    · rename_i more
      cases Except.ok.inj ok
      exact .segment live found more
    · rename_i last
      obtain ⟨settling, fresh⟩ := settleSettled ok
      cases m
      cases fresh
      exact .settled live found (by omega) settling

theorem chooseMoves {id : ActionId} {m : Moved} (ok : (choose story s id).result = .ok m) :
    Moves story s (.select id) m := by
  unfold choose at ok
  split at ok
  · rename_i awaiting
    obtain ⟨node, found, ok⟩ := Told.bindOk ok
    have found := lookUpOk found
    dsimp only at ok
    split at ok
    · contradiction
    · rename_i action chosen
      split at ok
      · rename_i visible
        obtain ⟨_, _, ok⟩ := Told.bindOk ok
        obtain ⟨s', applied, ok⟩ := Told.bindOk ok
        cases Except.ok.inj applied
        cases m
        dsimp only at ok
        split at ok
        · rename_i next leads
          obtain ⟨onward, fresh⟩ := followRouted ok
          cases fresh
          exact .followed awaiting found chosen visible leads onward
        · rename_i leads
          obtain ⟨settling, fresh⟩ := settleSettled ok
          cases fresh
          exact .stayed awaiting found chosen visible leads settling
      · contradiction
  · contradiction

theorem moveMoves {event : Event} {m : Moved} (ok : (move story s event).result = .ok m) : Moves story s event m := by
  cases event with
  | revealed ticket => exact revealMoves ok
  | select id => exact chooseMoves ok

end Dialogue.Play
