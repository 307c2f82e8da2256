import Dialogue.Play.Step
import Dialogue.Story.Saved

/-! Sessions. A session keeps a story, the state of its play and what was shown last, and passes on those notices that
its filter lets through. A move that fails leaves the session as it is. -/
namespace Dialogue.Play

structure Session where
  story : Story
  state : State
  output : Output
  filter : NoticeFilter
  deriving DecidableEq, Repr

namespace Session

def begin (story : Story) (context : Context) (filter : NoticeFilter) : Logged Session :=
  let told := (start story context).under filter
  ⟨told.log, told.result.map fun r => ⟨story, r.1, r.2, filter⟩⟩

def apply (s : Session) (event : Event) : Logged Session :=
  let told := (step s.story s.state event).under s.filter
  ⟨told.log, told.result.map fun r => { s with state := r.1, output := r.2 }⟩

def ticket (s : Session) : Ticket := s.state.ticket

def complete (s : Session) : Logged Session := s.apply (.revealed s.ticket)

def select (s : Session) (id : ActionId) : Logged Session := s.apply (.select id)

def snapshot (s : Session) : Snapshot := .capture s.story s.state

def pickEvent (s : Session) (pick : Nat) : Event :=
  match s.output.actions[pick % s.output.actions.length]? with
  | some offer => .select offer.id
  | none => .revealed s.ticket

def walk (s : Session) : List Nat → Session × List Notice × List (Except PlayError Output)
  | [] => (s, [], [])
  | pick :: picks =>
    if s.state.finished then (s, [], [])
    else
      let told := s.apply (s.pickEvent pick)
      match told.result with
      | .error e =>
        let (last, log, rest) := walk s picks
        (last, told.log ++ log, .error e :: rest)
      | .ok next =>
        let (last, log, rest) := walk next picks
        (last, told.log ++ log, .ok next.output :: rest)

end Session
end Dialogue.Play
