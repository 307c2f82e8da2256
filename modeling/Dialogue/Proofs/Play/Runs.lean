import Dialogue.Proofs.Play.Moves

/-! Runs: a play that is started once and then takes events one after the other. An event whose step fails leaves the
state as it was. -/
namespace Dialogue.Play

def after (story : Story) (s : State) (event : Event) : State :=
  match (step story s event).result with
  | .ok (next, _) => next
  | .error _ => s

def run (story : Story) (s : State) (events : List Event) : State := events.foldl (after story) s

def Reached (story : Story) (context : Context) (s : State) : Prop :=
  ∃ first out events, (start story context).result = .ok (first, out) ∧ run story first events = s

variable {story : Story} {context : Context} {s s' : State} {event : Event} {out : Output}

theorem startRouted (ok : (start story context).result = .ok (s, out)) : ∃ entered,
    Routed story (.start story.rootId context) story.rootId s entered ∧ out = describe story entered false s := by
  obtain ⟨_, _, ok⟩ := Told.bindOk ok
  obtain ⟨m, result, ok⟩ := Told.bindOk ok
  obtain ⟨routed, fresh⟩ := followRouted result
  cases m
  cases fresh
  cases Except.ok.inj ok
  exact ⟨_, routed, rfl⟩

theorem stepMoves (ok : (step story s event).result = .ok (s', out)) :
    ∃ m, Moves story s event m ∧ m.state = s' ∧ out = describe story m.entered m.stale m.state := by
  obtain ⟨m, result, ok⟩ := Told.bindOk ok
  cases Except.ok.inj ok
  exact ⟨m, moveMoves result, rfl, rfl⟩

theorem stepError {e : PlayError} (failed : (step story s event).result = .error e) :
    (move story s event).result = .error e := by
  rcases Told.bindError failed with moved | ⟨m, _, pure⟩
  · exact moved
  · contradiction

theorem afterCases (story : Story) (s : State) (event : Event) :
    after story s event = s ∨ ∃ m, Moves story s event m ∧ after story s event = m.state := by
  unfold after
  split
  · rename_i next out ok
    obtain ⟨m, moves, same, _⟩ := stepMoves ok
    exact .inr ⟨m, moves, same.symm⟩
  · exact .inl rfl

theorem runKeeps {P : State → Prop} (kept : ∀ s event, P s → P (after story s event)) (holds : P s)
    (events : List Event) : P (run story s events) := by
  induction events generalizing s with
  | nil => exact holds
  | cons event rest ih => exact ih (kept s event holds)

theorem reachedKeeps {P : State → Prop} (begun : ∀ first out, (start story context).result = .ok (first, out) → P first)
    (kept : ∀ s event, P s → P (after story s event)) (reached : Reached story context s) : P s := by
  obtain ⟨first, out, events, started, rfl⟩ := reached
  exact runKeeps kept (begun first out started) events

/- A story to try statements on: a quay where one may pay before boarding, and a deck without text that lets those who
have paid through and sends the others back. -/

def ferry : Story where
  rootId := "quay"
  nodes := .ofList [
    ("quay", { id := "quay", texts := [⟨"Fog.", 200, 500⟩], nextId := none, rules := [], effects := []
               actions := [⟨"pay", "Pay", none, [.setting "paid" (.bool true)], none⟩,
                 ⟨"board", "Board", none, [], some "deck"⟩] }),
    ("deck", { id := "deck", texts := [], nextId := some "quay", actions := []
               rules := [⟨⟨"paid", ⟨.equals, .bool true⟩⟩, "bow"⟩], effects := [.setting "aboard" (.bool true)] }),
    ("bow", { id := "bow", texts := [⟨"Open water.", 550, 500⟩], nextId := none, rules := [], effects := []
              actions := [] })]

def ferryPaid : State := ⟨"quay", .ofList [("paid", .bool true)], true, 0, none, 1, false⟩

theorem ferryPaidReached : Reached ferry .empty ferryPaid :=
  ⟨_, _, [.revealed ⟨"quay", 0, 1⟩, .select "leap", .revealed ⟨"quay", 0, 1⟩, .select "pay"], rfl, rfl⟩

end Dialogue.Play
