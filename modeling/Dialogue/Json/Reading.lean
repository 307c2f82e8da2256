import Dialogue.Json.Basic
import Dialogue.Decimal.Scaled

/-! Text as a tree in which every fault stays where it stands. Who reads a value and who only skips it do not see the
same faults: a number out of range or half of a surrogate pair matters to a reader alone. A tree is therefore made
once, without knowing its readers, and `Decoder` decides from it which fault comes first. -/
namespace Dialogue.Json

inductive Fault where
  | mismatched
  | malformed
  | truncated
  deriving DecidableEq, Repr, Inhabited

/- A fault where the members of an object go on: as a reader of members meets it, and as one meets it who
takes the object for a choice and expects its end. -/
structure MemberFault where
  fault : Fault
  asChoice : Fault
  deriving DecidableEq, Repr

inductive Reading where
  | null
  | bool (b : Bool)
  | number (n : Except Fault Number)
  | string (s : Except Fault String)
  | array (items : List Reading) (stop : Option Fault)
  | object (members : List (Except Fault String × Reading)) (stop : Option MemberFault)
  /- No value: the fault that a reader meets, the one that stops who skips, and the one for who reads a choice. -/
  | broken (fault skipped asChoice : Fault)
  deriving Inhabited

namespace Reading

def isSpace (c : Char) : Bool := c = ' ' || c = '\n' || c = '\t' || c = '\r'

def skipSpace (cs : List Char) : List Char := cs.dropWhile isSpace

inductive Piece where
  | char (c : Char)
  | unit (n : Nat)
  deriving DecidableEq, Repr

def hexValue? (c : Char) : Option Nat :=
  if '0' ≤ c ∧ c ≤ '9' then some (c.toNat - '0'.toNat)
  else if 'a' ≤ c ∧ c ≤ 'f' then some (c.toNat - 'a'.toNat + 10)
  else if 'A' ≤ c ∧ c ≤ 'F' then some (c.toNat - 'A'.toNat + 10)
  else none

def fourHex : List Char → Except Fault (Nat × List Char)
  | a :: b :: c :: d :: rest =>
    match hexValue? a, hexValue? b, hexValue? c, hexValue? d with
    | some a, some b, some c, some d => .ok (((a * 16 + b) * 16 + c) * 16 + d, rest)
    | _, _, _, _ => .error .malformed
  | short => if 4 ≤ (short.map Char.utf8Size).foldl (· + ·) 0 then .error .malformed else .error .truncated

def simpleEscape? (c : Char) : Option Char :=
  if c = '"' ∨ c = '\\' ∨ c = '/' then some c
  else if c = 'b' then some (Char.ofNat 8)
  else if c = 'f' then some (Char.ofNat 12)
  else if c = 'n' then some '\n'
  else if c = 'r' then some '\r'
  else if c = 't' then some '\t'
  else none

def pieces : Nat → List Char → List Piece × Except Fault (List Char)
  | 0, _ => ([], .error .truncated)
  | _ + 1, [] => ([], .error .truncated)
  | fuel + 1, c :: rest =>
    if c = '"' then ([], .ok rest)
    else if c = '\\' then
      match rest with
      | [] => ([], .error .truncated)
      | 'u' :: rest =>
        match fourHex rest with
        | .error fault => ([], .error fault)
        | .ok (n, rest) =>
          let (more, stop) := pieces fuel rest
          (.unit n :: more, stop)
      | e :: rest =>
        match simpleEscape? e with
        | none => ([], .error .malformed)
        | some c =>
          let (more, stop) := pieces fuel rest
          (.char c :: more, stop)
    else if c.toNat < 32 then ([], .error .malformed)
    else
      let (more, stop) := pieces fuel rest
      (.char c :: more, stop)

def isLeading (n : Nat) : Bool := 0xD800 ≤ n && n ≤ 0xDBFF

def isTrailing (n : Nat) : Bool := 0xDC00 ≤ n && n ≤ 0xDFFF

def text (stop : Option Fault) : List Piece → Except Fault (List Char)
  | [] =>
    match stop with
    | none => .ok []
    | some fault => .error fault
  | .char c :: more => (text stop more).map (c :: ·)
  | .unit n :: more =>
    if isTrailing n then .error .malformed
    else if isLeading n then
      match more with
      | .unit m :: more =>
        if isTrailing m then
          (text stop more).map (Char.ofNat (0x10000 + (n - 0xD800) * 0x400 + (m - 0xDC00)) :: ·)
        else .error .malformed
      | .char _ :: _ => .error .malformed
      | [] => .error (stop.getD .malformed)
    else (text stop more).map (Char.ofNat n :: ·)

def readString (fuel : Nat) (cs : List Char) : Except Fault String × Except Fault (List Char) :=
  let (found, stop) := pieces fuel cs
  let fault :=
    match stop with
    | .ok _ => none
    | .error fault => some fault
  ((text fault found).map String.ofList, stop)

def readPower (cs : List Char) : Except Fault (Int × List Char) :=
  let (negative, rest) := Numeral.readSign cs
  match Decimal.leadingDigits rest with
  | ([], []) => .error .truncated
  | ([], _) => .error .malformed
  | (digits, rest) =>
    .ok (if negative then -(Decimal.valueOf digits : Int) else Decimal.valueOf digits, rest)

structure NumberTail where
  fraction : List Char
  power : Int
  plain : Bool
  rest : List Char

def readTail (cs : List Char) : Except Fault NumberTail :=
  match cs with
  | '.' :: rest =>
    match Decimal.leadingDigits rest with
    | ([], []) => .error .truncated
    | ([], _) => .error .malformed
    | (digits, c :: rest) =>
      if c = 'e' ∨ c = 'E' then (readPower rest).map fun p => ⟨digits, p.1, false, p.2⟩
      else .ok ⟨digits, 0, false, c :: rest⟩
    | (digits, []) => .ok ⟨digits, 0, false, []⟩
  | c :: rest =>
    if c = 'e' ∨ c = 'E' then (readPower rest).map fun p => ⟨[], p.1, false, p.2⟩
    else .ok ⟨[], 0, true, c :: rest⟩
  | [] => .ok ⟨[], 0, true, []⟩

def integerOf (negative : Bool) (n : Nat) : Option Int :=
  if negative then if n ≠ 0 ∧ n ≤ Nat.pow 2 63 then some (-(n : Int)) else none
  else if n < Nat.pow 2 64 then some n else none

def doubleOf (negative : Bool) (d : Decimal) : Except Fault Number :=
  match d.scaled? with
  | some x => .ok (.double (if negative then -x else x))
  | none => .error .malformed

def numberOf (negative : Bool) (whole : List Char) (tail : NumberTail) : Except Fault Number :=
  let d := Decimal.leading whole tail.fraction tail.power
  if tail.plain ∧ d.exponent = 0 then
    match integerOf negative d.digits with
    | some n => .ok (.integer n)
    | none => doubleOf negative d
  else doubleOf negative d

def cut (fault skipped : Fault) : Reading := .broken fault skipped .malformed

def readNumber (negative : Bool) (cs : List Char) : Reading × Option (List Char) :=
  match Decimal.leadingDigits cs with
  | ([], []) => (cut .truncated .malformed, none)
  | ([], _) => (cut .malformed .malformed, none)
  | ('0' :: _ :: _, _) => (cut .malformed .malformed, none)
  | (whole, rest) =>
    match readTail rest with
    | .error fault => (cut fault .malformed, none)
    | .ok tail => (.number (numberOf negative whole tail), some tail.rest)

def readWord (value : Reading) : List Char → List Char → Reading × Option (List Char)
  | [], rest => (value, some rest)
  | _ :: _, [] => (cut .truncated .truncated, none)
  | w :: word, c :: rest =>
    if w = c then readWord value word rest else (cut .malformed .malformed, none)

def mismatch : Reading → Fault
  | .number (.error fault) => fault
  | .string (.error fault) => fault
  | .broken fault _ _ => fault
  | _ => .mismatched

def missing (fault : Fault) : Reading := .broken fault fault fault

mutual

/- A value, and the text behind it unless a fault ends it. No character uses up more than two units of the
fuel: one for the value and one for the item or member that it begins. -/
def value : Nat → List Char → Reading × Option (List Char)
  | 0, _ => (missing .malformed, none)
  | fuel + 1, cs =>
    match skipSpace cs with
    | [] => (missing .truncated, none)
    | c :: rest =>
      if c = 'n' then readWord .null ['u', 'l', 'l'] rest
      else if c = 't' then readWord (.bool true) ['r', 'u', 'e'] rest
      else if c = 'f' then readWord (.bool false) ['a', 'l', 's', 'e'] rest
      else if c = '"' then
        match readString fuel rest with
        | (s, .ok rest) => (.string s, some rest)
        | (s, .error skipped) =>
          match s with
          | .error fault => (.broken fault skipped fault, none)
          | .ok _ => (missing skipped, none)
      else if c = '-' then readNumber true rest
      else if c.isDigit then readNumber false (c :: rest)
      else if c = '[' then
        match skipSpace rest with
        | [] => (.array [] (some .truncated), none)
        | ']' :: rest => (.array [] none, some rest)
        | rest =>
          let ((found, stop), rest) := items fuel rest
          (.array found stop, rest)
      else if c = '{' then
        match skipSpace rest with
        | [] => (.object [] (some ⟨.truncated, .truncated⟩), none)
        | '}' :: rest => (.object [] none, some rest)
        | '"' :: rest =>
          let ((found, stop), rest) := members fuel rest
          (.object found stop, rest)
        | _ => (.object [] (some ⟨.malformed, .malformed⟩), none)
      else (missing .malformed, none)

def items : Nat → List Char → (List Reading × Option Fault) × Option (List Char)
  | 0, _ => (([], some .malformed), none)
  | fuel + 1, cs =>
    match value fuel cs with
    | (item, none) => (([item], none), none)
    | (item, some rest) =>
      match skipSpace rest with
      | [] => (([item], some .truncated), none)
      | ']' :: rest => (([item], none), some rest)
      | ',' :: rest =>
        let ((more, stop), rest) := items fuel rest
        ((item :: more, stop), rest)
      | _ => (([item], some .malformed), none)

def members : Nat → List Char →
    (List (Except Fault String × Reading) × Option MemberFault) × Option (List Char)
  | 0, _ => (([], some ⟨.malformed, .malformed⟩), none)
  | fuel + 1, cs =>
    match readString fuel cs with
    | (key, .error skipped) => (([(key, missing skipped)], none), none)
    | (key, .ok rest) =>
      match skipSpace rest with
      | [] => (([(key, missing .truncated)], none), none)
      | ':' :: rest =>
        match value fuel rest with
        | (found, none) => (([(key, found)], none), none)
        | (found, some rest) =>
          match skipSpace rest with
          | [] => (([(key, found)], some ⟨.truncated, .truncated⟩), none)
          | '}' :: rest => (([(key, found)], none), some rest)
          | ',' :: rest =>
            match skipSpace rest with
            | [] => (([(key, found)], some ⟨.truncated, .malformed⟩), none)
            | '"' :: rest =>
              let ((more, stop), rest) := members fuel rest
              (((key, found) :: more, stop), rest)
            | _ => (([(key, found)], some ⟨.malformed, .malformed⟩), none)
          | _ => (([(key, found)], some ⟨.malformed, .malformed⟩), none)
      | _ => (([(key, missing .malformed)], none), none)

end

mutual

def skip : Reading → Except Fault Unit
  | .array items stop =>
    match skipItems items with
    | .error fault => .error fault
    | .ok () =>
      match stop with
      | some fault => .error fault
      | none => .ok ()
  | .object members stop =>
    match skipMembers members with
    | .error fault => .error fault
    | .ok () =>
      match stop with
      | some stop => .error stop.fault
      | none => .ok ()
  | .broken _ skipped _ => .error skipped
  | .null | .bool _ | .number _ | .string _ => .ok ()

def skipItems : List Reading → Except Fault Unit
  | [] => .ok ()
  | item :: items =>
    match skip item with
    | .error fault => .error fault
    | .ok () => skipItems items

def skipMembers : List (Except Fault String × Reading) → Except Fault Unit
  | [] => .ok ()
  | (_, value) :: members =>
    match skip value with
    | .error fault => .error fault
    | .ok () => skipMembers members

end

mutual

def ofJson : Json → Reading
  | .null => .null
  | .bool b => .bool b
  | .number n => .number (.ok n)
  | .string s => .string (.ok s)
  | .array items => .array (ofItems items) none
  | .object members => .object (ofMembers members) none

def ofItems : List Json → List Reading
  | [] => []
  | item :: items => ofJson item :: ofItems items

def ofMembers : List (String × Json) → List (Except Fault String × Reading)
  | [] => []
  | (key, value) :: members => (.ok key, ofJson value) :: ofMembers members

end

def ofText (text : String) : Reading × Option (List Char) :=
  let cs := text.toList
  value (2 * cs.length + 2) cs

end Reading
end Dialogue.Json
