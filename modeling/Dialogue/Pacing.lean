import Dialogue.Text.Blank

/-! Paced text. Authored text is a list of fragments: literals, directives and ready-made segments. The directives
that stand directly before a literal give its pace, each one adding to those before it. A literal without anything to
see is dropped, and its directives with it. -/
namespace Dialogue

structure Segment where
  text : String
  duration : Nat
  timeout : Nat
  deriving DecidableEq, Repr, Inhabited

def timeLimit : Nat := Nat.pow 2 64 - 1

namespace Segment

def msPerChar (s : Segment) : Nat :=
  if s.text.length = 0 then 0 else s.duration / s.text.length

end Segment

structure PacingDefaults where
  msPerChar : Nat := 50
  timeoutMs : Nat := 500
  writeDurationMs : Nat := 1000
  deriving DecidableEq, Repr, Inhabited

structure Pace where
  msPerChar : Option Nat := none
  duration : Option Nat := none
  timeout : Option Nat := none
  deriving DecidableEq, Repr, Inhabited

namespace Pace

def none : Pace := {}

def wait (p : Pace) (ms : Nat) : Pace := { p with timeout := some ms }

def ms (p : Pace) (ms : Nat) : Pace := { p with msPerChar := some ms, duration := Option.none }

def spread (p : Pace) (ms : Nat) : Pace := { p with duration := some ms, msPerChar := Option.none }

def merge (p later : Pace) : Pace :=
  let p := match later.msPerChar with | some n => p.ms n | Option.none => p
  let p := match later.duration with | some n => p.spread n | Option.none => p
  match later.timeout with | some n => p.wait n | Option.none => p

def segment (p : Pace) (defaults : PacingDefaults) (text : String) : Segment where
  text := text
  duration := p.duration.getD (min (p.msPerChar.getD defaults.msPerChar * text.length) timeLimit)
  timeout := p.timeout.getD defaults.timeoutMs

end Pace

inductive Fragment where
  | literal (text : String)
  | directive (pace : Pace)
  | segment (s : Segment)
  deriving DecidableEq, Repr, Inhabited

inductive LostDirective where
  | beforeSegment
  | atEnd
  deriving DecidableEq, Repr

namespace PacingDefaults

def segmentsAfter (defaults : PacingDefaults) : Option Pace → List Fragment → List Segment
  | _, [] => []
  | pending, .directive pace :: rest =>
    segmentsAfter defaults (some (match pending with | some p => p.merge pace | none => pace)) rest
  | pending, .literal text :: rest =>
    if Text.allBlank text then segmentsAfter defaults none rest
    else (pending.getD Pace.none).segment defaults text :: segmentsAfter defaults none rest
  | _, .segment s :: rest => s :: segmentsAfter defaults none rest

def segments (defaults : PacingDefaults) (fragments : List Fragment) : List Segment :=
  defaults.segmentsAfter none fragments

def say (defaults : PacingDefaults) (text : String) : Segment := Pace.none.segment defaults text

def write (defaults : PacingDefaults) (text : String) : Segment :=
  (Pace.none.spread defaults.writeDurationMs).segment defaults text

end PacingDefaults

namespace Fragment

def lostAfter : Bool → List Fragment → List LostDirective
  | pending, [] => if pending then [.atEnd] else []
  | _, .directive _ :: rest => lostAfter true rest
  | _, .literal _ :: rest => lostAfter false rest
  | pending, .segment _ :: rest =>
    if pending then .beforeSegment :: lostAfter false rest else lostAfter false rest

def lost (fragments : List Fragment) : List LostDirective := lostAfter false fragments

end Fragment

inductive FreezePolicy where
  | cloneOnWrite
  | strict
  deriving DecidableEq, Repr, Inhabited

structure Config where
  freezePolicy : FreezePolicy := .cloneOnWrite
  text : PacingDefaults := {}
  deriving DecidableEq, Repr, Inhabited

end Dialogue
