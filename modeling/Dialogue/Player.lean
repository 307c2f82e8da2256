import Dialogue.Play.Session
import Dialogue.Text.Blank
import Dialogue.Text.Terminal

/-! The player in a terminal. Every line of input ends the reveal of the segment on screen, which then stands there in
full, or answers a choice; so the player is a function of the lines. It stops with the input, with the word that
quits, or with the story, and every line is read at most once. -/
namespace Dialogue

structure RunResult where
  stdout : String := ""
  stderr : String := ""
  code : Nat := 0
  deriving DecidableEq, Repr

namespace Player
open Play

def welcome : String :=
  "=== tsuzuri Story Player ===\n\nControls:\n  Enter: skip the text being typed\n  1-9:   select choice\n" ++
  "  q:     quit\n\n"

def quitWord : String := "q"

def number? (input : String) : Option Nat :=
  let digits :=
    match input.toList with
    | '+' :: rest => rest
    | cs => cs
  if digits.isEmpty ∨ !digits.all Char.isDigit then none else some (Decimal.valueOf digits)

def picked? (offers : List Offer) (input : String) : Option Offer :=
  match number? input with
  | some (n + 1) => offers[n]?
  | _ => none

def offerLines (first : Nat) : List Offer → String
  | [] => ""
  | o :: rest => s!"{first}. {o.label}\n" ++ offerLines (first + 1) rest

def menu (offers : List Offer) : String := "\n--- Choice ---\n" ++ offerLines 1 offers ++ "Select: "

def position (s : Session) : String :=
  let seen := s.snapshot
  let next := seen.nextId.getD "-"
  let context := seen.context.toJson.toLine
  s!"[debug] node={seen.nodeId} segment={seen.revealIndex + 1}/{seen.segments} next={next} context={context}\n"

def leastLevel (debug : Bool) : Level := if debug then .debug else .warn

def noticeLine (time : String) (n : Notice) : String :=
  let level := String.ofList (n.level.label.toList.rightpad 5 ' ')
  let message := "\n    ".intercalate (n.message.splitToList (· == '\n'))
  Text.Terminal.strip s!"[{time} {level} {n.target}] {message}\n"

def noticeText (debug : Bool) (time : String) (told : List Notice) : String :=
  String.join ((told.filter fun n => (leastLevel debug).rank ≤ n.level.rank).map (noticeLine time))

inductive Outcome where
  | goOn (text : String) (told : List Notice) (s : Session)
  | quit (text : String)
  | failed (text : String) (told : List Notice) (e : PlayError)

def answerChoice (s : Session) (input : String) : Outcome :=
  if input = quitWord then .quit "Goodbye!\n"
  else
    match picked? s.output.actions input with
    | none => .goOn s!"Invalid choice. Enter 1-{s.output.actions.length}.\n" [] s
    | some offer =>
      let move := s.select offer.id
      match move.result with
      | .ok next => .goOn "\n" move.log next
      | .error e => .failed "\n" move.log e

def endReveal (s : Session) (input : String) : Outcome :=
  if input = quitWord then .quit "\nGoodbye!\n"
  else
    let move := s.complete
    match move.result with
    | .ok next => .goOn (if next.output.entered.isEmpty then "" else "\n\n") move.log next
    | .error e => .failed "" move.log e

/- What a session shows before it asks for a line. Without either a segment or a choice there is nothing to ask
for. -/
inductive Screen where
  | ended
  | choice (text : String)
  | segment (text : String)
  | nothing

def screen (s : Session) : Screen :=
  if s.state.finished then .ended
  else if s.output.actions.isEmpty then
    match s.output.segment with
    | some segment => .segment segment.text
    | none => .nothing
  else .choice (menu s.output.actions)

def take (s : Session) (line : String) : Outcome :=
  if s.output.actions.isEmpty then endReveal s line else answerChoice s line

def theEnd : String := "\n== THE END ==\n"

def errorText (message : String) : String := s!"Error: {message}\n"

def nothingToShow (s : Session) : String :=
  errorText s!"story stopped at '{s.state.nodeId}' with nothing to show"

def shown (out err : String) (rest : RunResult) : RunResult :=
  { rest with stdout := out ++ rest.stdout, stderr := err ++ rest.stderr }

structure Course where
  rounds : List Session
  result : RunResult

def continued (debug : Bool) (time : String) (rest : Session → Course) : Outcome → Course
  | .goOn text told s =>
    let later := rest s
    ⟨later.rounds, shown text (noticeText debug time told) later.result⟩
  | .quit text => ⟨[], { stdout := text }⟩
  | .failed text told e =>
    ⟨[], { stdout := text, stderr := noticeText debug time told ++ errorText e.message, code := 1 }⟩

def run (debug : Bool) (time : String) : List String → Session → Course
  | lines, s =>
    let err := if debug then position s else ""
    match screen s, lines with
    | .ended, _ => ⟨[s], { stdout := theEnd, stderr := err }⟩
    | .nothing, _ => ⟨[s], { stderr := err ++ nothingToShow s, code := 1 }⟩
    | .choice text, [] | .segment text, [] => ⟨[s], { stdout := text, stderr := err }⟩
    | .choice text, line :: lines | .segment text, line :: lines =>
      let later := continued debug time (run debug time lines) (take s line)
      ⟨s :: later.rounds, shown text err later.result⟩

def linesOf (input : String) : List String :=
  let parts := input.splitToList (· == '\n')
  let parts := if parts.getLast? = some "" then parts.dropLast else parts
  parts.map Text.trim

def begin (story : Story) (debug : Bool) : Logged Session :=
  Session.begin story .empty (if debug then .verbose else .quiet)

def course (story : Story) (debug : Bool) (time input : String) : Course :=
  let first := begin story debug
  let err := noticeText debug time first.log
  match first.result with
  | .error e => ⟨[], { stderr := err ++ errorText e.message, code := 1 }⟩
  | .ok s =>
    let later := run debug time (linesOf input) s
    ⟨later.rounds, shown welcome err later.result⟩

def play (story : Story) (debug : Bool) (time input : String) : RunResult := (course story debug time input).result

end Player
end Dialogue
