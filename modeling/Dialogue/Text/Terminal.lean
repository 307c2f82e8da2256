/-! Text without the control sequences of a terminal. Inside a sequence that carries no text, tabs, line breaks, form
feeds and carriage returns interrupt: they are shown with all that follows them, up to the next control character, and
there the sequence goes on. -/
namespace Dialogue.Text.Terminal

inductive Mode where
  | plain
  | escape
  | escapeMiddle
  | controlStart
  | controlParameters
  | controlMiddle
  | controlIgnored
  | deviceStart
  | deviceParameters
  | deviceMiddle
  | deviceIgnored
  | deviceText
  | command
  | message
  deriving DecidableEq, Repr, Inhabited

def isBreak (n : Nat) : Bool := n = 9 || n = 10 || n = 12 || n = 13

def isControl (n : Nat) : Bool := n < 0x20 || n = 0x7F

def isMiddle (n : Nat) : Bool := 0x20 ≤ n && n ≤ 0x2F

def isParameter (n : Nat) : Bool := 0x30 ≤ n && n ≤ 0x3F

def isPrivate (n : Nat) : Bool := 0x3C ≤ n && n ≤ 0x3F

def isFinal (n : Nat) : Bool := 0x40 ≤ n && n ≤ 0x7E

def holdsTerminator (c : Char) : Bool := (String.singleton c).toUTF8.toList.contains 0x9C

def Mode.next (mode : Mode) (c : Char) : Mode :=
  let n := c.toNat
  if n = 0x18 ∨ n = 0x1A then .plain
  else if n = 0x1B then .escape
  else
    match mode with
    | .plain => .plain
    | .escape =>
      if isMiddle n then .escapeMiddle
      else if c = '[' then .controlStart
      else if c = ']' then .command
      else if c = 'P' then .deviceStart
      else if c = 'X' ∨ c = '^' ∨ c = '_' then .message
      else if isParameter n || isFinal n then .plain
      else .escape
    | .escapeMiddle => if isParameter n || isFinal n then .plain else .escapeMiddle
    | .controlStart =>
      if isMiddle n then .controlMiddle
      else if isParameter n then .controlParameters
      else if isFinal n then .plain
      else .controlStart
    | .controlParameters =>
      if isMiddle n then .controlMiddle
      else if isPrivate n then .controlIgnored
      else if isFinal n then .plain
      else .controlParameters
    | .controlMiddle =>
      if isParameter n then .controlIgnored else if isFinal n then .plain else .controlMiddle
    | .controlIgnored => if isFinal n then .plain else .controlIgnored
    | .deviceStart =>
      if isMiddle n then .deviceMiddle
      else if isParameter n then .deviceParameters
      else if isFinal n then .deviceText
      else .deviceStart
    | .deviceParameters =>
      if isMiddle n then .deviceMiddle
      else if isPrivate n then .deviceIgnored
      else if isFinal n then .deviceText
      else .deviceParameters
    | .deviceMiddle =>
      if isParameter n then .deviceIgnored else if isFinal n then .deviceText else .deviceMiddle
    | .deviceIgnored => if holdsTerminator c then .plain else .deviceIgnored
    | .deviceText => if holdsTerminator c then .plain else .deviceText
    | .message => if holdsTerminator c then .plain else .message
    | .command => if n = 7 then .plain else .command

def Mode.yields : Mode → Bool
  | .plain | .escape | .escapeMiddle => true
  | .controlStart | .controlParameters | .controlMiddle | .controlIgnored => true
  | _ => false

structure Position where
  mode : Mode := .plain
  showing : Bool := true
  deriving DecidableEq, Repr, Inhabited

def Position.shows (p : Position) (c : Char) : Bool :=
  let n := c.toNat
  if isBreak n then p.showing || p.mode.yields
  else if isControl n then false
  else p.showing || p.mode = .plain

def Position.step (p : Position) (c : Char) : Position :=
  if p.shows c then ⟨if c.toNat < 0x80 then p.mode else .plain, true⟩ else ⟨p.mode.next c, false⟩

def shown (p : Position) : List Char → List Char
  | [] => []
  | c :: rest => if p.shows c then c :: shown (p.step c) rest else shown (p.step c) rest

def strip (text : String) : String := String.ofList (shown {} text.toList)

end Dialogue.Text.Terminal
