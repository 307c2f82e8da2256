import Dialogue.Proofs.Play.Runs

/-! A ticket counts once. One that has been taken for the live one stays spent: its visit is over, or play has gone
past its segment, or nothing is left to show. In the last case the state still has that ticket, which is why tickets
alone do not tell. -/
namespace Dialogue.Play

def Behind (s : State) (ticket : Ticket) : Prop :=
  ticket.visit < s.visit ∨ ticket.visit = s.visit ∧ ticket.segment ≤ s.revealIndex

inductive Spent (s : State) (ticket : Ticket) : Prop where
  | visit (passed : ticket.visit < s.visit)
  | segment (same : ticket.visit = s.visit) (past : ticket.segment < s.revealIndex)
  | last (behind : Behind s ticket) (rests : s.awaitingChoice = true ∨ s.finished = true)

def Accepts (story : Story) (s : State) (ticket : Ticket) : Prop :=
  ∃ next out, (step story s (.revealed ticket)).result = .ok (next, out) ∧ out.stale = false

/- What arrives in a play: its own events, and tickets that come back once more. -/
inductive Signal where
  | own (event : Event)
  | again (ticket : Ticket)
  deriving DecidableEq, Repr

namespace Signal

def event : Signal → Event
  | .own event => event
  | .again ticket => .revealed ticket

def own? : Signal → Option Event
  | .own event => some event
  | .again _ => none

end Signal

def ownEvents (signals : List Signal) : List Event := signals.filterMap Signal.own?

def answers (story : Story) : State → List Event → List (Except PlayError (State × Output))
  | _, [] => []
  | s, event :: events => (step story s event).result :: answers story (after story s event) events

def ownAnswers (story : Story) : State → List Signal → List (Except PlayError (State × Output))
  | _, [] => []
  | s, .own event :: signals => (step story s event).result :: ownAnswers story (after story s event) signals
  | s, .again ticket :: signals => ownAnswers story (after story s (.revealed ticket)) signals

def AcceptedIn (story : Story) (s : State) (events : List Event) (ticket : Ticket) : Prop :=
  ∃ earlier rest, events = earlier ++ .revealed ticket :: rest ∧ Accepts story (run story s earlier) ticket

def ComeBack (story : Story) (s : State) (signals : List Signal) : Prop :=
  ∀ before ticket later, signals = before ++ .again ticket :: later →
    AcceptedIn story s (ownEvents before) ticket

variable {story : Story} {node : StoryNode} {s s' t : State} {ticket : Ticket} {target : NodeId}
  {entered : List NodeId} {event : Event} {m : Moved}

theorem Spent.behind (spent : Spent s ticket) : Behind s ticket := by
  cases spent with
  | visit passed => exact .inl passed
  | segment same past => exact .inr ⟨same, Nat.le_of_lt past⟩
  | last behind => exact behind

theorem Behind.visit (behind : Behind s ticket) : ticket.visit ≤ s.visit := by
  rcases behind with passed | ⟨same, _⟩
  · exact Nat.le_of_lt passed
  · exact Nat.le_of_eq same

theorem ownBehind (s : State) : Behind s s.ticket := .inr ⟨rfl, Nat.le_refl _⟩

theorem routedVisit (routed : Routed story s target t entered) : s.visit < t.visit := by
  induction routed with
  | shown => exact Nat.lt_succ_self _
  | rested _ _ rest => cases rest <;> exact Nat.lt_succ_self _
  | crossed _ _ left _ ih =>
    cases left with
    | leaves => exact Nat.lt_trans (Nat.lt_succ_self _) ih

theorem Behind.routed (behind : Behind s ticket) (routed : Routed story s target t entered) : Spent t ticket :=
  .visit (Nat.lt_of_le_of_lt behind.visit (routedVisit routed))

theorem Behind.settled (behind : Behind s ticket) (settling : Settled story node s t entered) : Spent t ticket := by
  cases settling with
  | rested rest =>
    cases rest with
    | awaits => exact .last behind (.inl rfl)
    | ends => exact .last behind (.inr rfl)
  | routed left onward =>
    cases left with
    | leaves => exact behind.routed onward

theorem Spent.moved (spent : Spent s ticket) (moves : Moves story s event m) : Spent m.state ticket := by
  cases moves with
  | stale => exact spent
  | segment live =>
    cases spent with
    | visit passed => exact .visit passed
    | segment same past => exact .segment same (Nat.lt_succ_of_lt past)
    | last _ rests => simp [live] at rests
  | settled _ _ _ settling => exact spent.behind.settled settling
  | @followed _ action _ _ _ _ _ _ _ _ _ onward =>
    have behind : Behind (taken action s) ticket := spent.behind
    exact behind.routed onward
  | @stayed _ action _ _ _ _ _ _ _ _ settling =>
    have behind : Behind (taken action s) ticket := spent.behind
    exact behind.settled settling

theorem Spent.after (spent : Spent s ticket) (event : Event) : Spent (after story s event) ticket := by
  rcases afterCases story s event with same | ⟨m, moves, same⟩
  · rw [same]
    exact spent
  · rw [same]
    exact spent.moved moves

theorem acceptedSpent (moves : Moves story s (.revealed ticket) m) (fresh : m.stale = false) : Spent m.state ticket := by
  cases moves with
  | stale => simp at fresh
  | segment => exact .segment rfl (Nat.lt_succ_self _)
  | settled _ _ _ settling => exact (ownBehind s).settled settling

theorem Spent.dead (spent : Spent s ticket) :
    s.finished = true ∨ s.awaitingChoice = true ∨ ticket ≠ s.ticket := by
  cases spent with
  | visit passed =>
    refine .inr (.inr fun same => ?_)
    have visit : ticket.visit = s.visit := congrArg Ticket.visit same
    omega
  | segment _ past =>
    refine .inr (.inr fun same => ?_)
    have segment : ticket.segment = s.revealIndex := congrArg Ticket.segment same
    omega
  | last _ rests =>
    rcases rests with awaiting | finished
    · exact .inr (.inl awaiting)
    · exact .inl finished

theorem Spent.step (spent : Spent s ticket) :
    (step story s (.revealed ticket)).result = .ok (s, describe story [] true s) := by
  have dead := spent.dead
  have stale : (reveal story s ticket).result = .ok ⟨s, [], true⟩ := by
    unfold reveal
    rw [if_pos (by simpa [or_assoc] using dead)]
    rfl
  simp [Play.step, move, stale, Except.bind, shown]

theorem Spent.afterSame (spent : Spent s ticket) : Play.after story s (.revealed ticket) = s := by
  simp [Play.after, spent.step]

theorem Accepts.spent (accepts : Accepts story s ticket) : Spent (after story s (.revealed ticket)) ticket := by
  obtain ⟨next, out, ok, fresh⟩ := accepts
  obtain ⟨m, moves, same, rfl⟩ := stepMoves ok
  have arrives : after story s (.revealed ticket) = m.state := by simp [after, ok, same]
  rw [arrives]
  exact acceptedSpent moves fresh

theorem AcceptedIn.cons {events : List Event} (accepted : AcceptedIn story s (event :: events) ticket) :
    Spent (after story s event) ticket ∨ AcceptedIn story (after story s event) events ticket := by
  obtain ⟨earlier, rest, split, accepts⟩ := accepted
  cases earlier with
  | nil =>
    obtain ⟨rfl, _⟩ := List.cons.inj split
    exact .inl accepts.spent
  | cons first earlier =>
    obtain ⟨rfl, tail⟩ := List.cons.inj split
    exact .inr ⟨earlier, rest, tail, accepts⟩

theorem comeBackUnseen {signals : List Signal}
    (comeBack : ∀ before ticket later, signals = before ++ .again ticket :: later →
      Spent s ticket ∨ AcceptedIn story s (ownEvents before) ticket) :
    ownAnswers story s signals = answers story s (ownEvents signals) ∧
      run story s (signals.map Signal.event) = run story s (ownEvents signals) := by
  -- on the signals: what comes back was spent before them or is accepted among them
  induction signals generalizing s with
  | nil => exact ⟨rfl, rfl⟩
  | cons signal signals ih =>
    cases signal with
    | own event =>
      have rest := @ih (after story s event) ?_
      · exact ⟨congrArg (_ :: ·) rest.1, rest.2⟩
      · intro before ticket later split
        rcases comeBack (.own event :: before) ticket later (congrArg _ split) with spent | accepted
        · exact .inl (spent.after event)
        · exact accepted.cons
    | again ticket =>
      have spent : Spent s ticket := by
        rcases comeBack [] ticket signals rfl with spent | ⟨earlier, rest, split, _⟩
        · exact spent
        · simp [ownEvents] at split
      have rest := @ih s fun before other later split =>
        comeBack (.again ticket :: before) other later (congrArg _ split)
      have same : after story s (.revealed ticket) = s := spent.afterSame
      constructor
      · show ownAnswers story (after story s (.revealed ticket)) signals = _
        rw [same]
        exact rest.1
      · show run story (after story s (.revealed ticket)) (signals.map Signal.event) = _
        rw [same]
        exact rest.2

theorem ticketCountsOnce (story : Story) (s : State) :
    (∀ ticket next out later, (step story s (.revealed ticket)).result = .ok (next, out) → out.stale = false →
      ∃ again, (step story (run story next later) (.revealed ticket)).result = .ok (run story next later, again) ∧
        again.stale = true ∧ again.entered = []) ∧
    ∀ signals, ComeBack story s signals →
      ownAnswers story s signals = answers story s (ownEvents signals) ∧
        run story s (signals.map Signal.event) = run story s (ownEvents signals) := by
  constructor
  · intro ticket next out later ok fresh
    have arrives : after story s (.revealed ticket) = next := by simp [after, ok]
    have accepts : Accepts story s ticket := ⟨next, out, ok, fresh⟩
    have spent : Spent next ticket := arrives ▸ accepts.spent
    have stays : Spent (run story next later) ticket :=
      runKeeps (P := fun t => Spent t ticket) (fun _ event kept => kept.after event) spent later
    exact ⟨_, stays.step, rfl, rfl⟩
  · intro signals comeBack
    exact comeBackUnseen fun before ticket later split => .inr (comeBack before ticket later split)

theorem ferryTicketCountsOnce :
    let quay : State := ⟨"quay", .empty, false, 0, none, 1, false⟩
    let ticket : Ticket := ⟨"quay", 0, 1⟩
    let signals : List Signal := [.own (.revealed ticket), .own (.select "pay"), .again ticket, .own (.select "board")]
    (run ferry quay [.revealed ticket, .select "pay"]).ticket = ticket ∧ Accepts ferry quay ticket ∧
      (∃ again, (step ferry ferryPaid (.revealed ticket)).result = .ok (ferryPaid, again) ∧ again.stale = true ∧
        again.entered = []) ∧
      ComeBack ferry quay signals ∧
      ownAnswers ferry quay signals =
        answers ferry quay [.revealed ticket, .select "pay", .select "board"] := by
  intro quay ticket signals
  have accepts : Accepts ferry quay ticket := ⟨_, _, rfl, rfl⟩
  have comeBack : ComeBack ferry quay signals := by
    intro before other later split
    match before with
    | [] | [_] | [_, _, _] => simp [signals] at split
    | _ :: _ :: _ :: _ :: _ => simp [signals] at split
    | [first, second] =>
      simp only [signals, List.cons_append, List.nil_append, List.cons.injEq, Signal.again.injEq] at split
      obtain ⟨rfl, rfl, rfl, _⟩ := split
      exact ⟨[], [.select "pay"], rfl, accepts⟩
  have once := ticketCountsOnce ferry quay
  exact ⟨rfl, accepts, once.1 ticket _ _ [.select "pay"] rfl rfl, comeBack, (once.2 signals comeBack).1⟩

end Dialogue.Play
