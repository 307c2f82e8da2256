import Dialogue.Json.Basic
import Dialogue.Decimal.Shortest

/-! The two texts of a value: on one line without any blank, and with every item and member on a line of its own, two
spaces deeper than what holds it. Empty arrays and objects stay on their line in both. -/
namespace Dialogue.Json

def layout : Double.Layout := ⟨-5, 16⟩

def hexDigit (n : Nat) : Char := (Nat.digitChar n)

def escaped (c : Char) : List Char :=
  if c = '"' then ['\\', '"']
  else if c = '\\' then ['\\', '\\']
  else if c.toNat = 8 then ['\\', 'b']
  else if c = '\t' then ['\\', 't']
  else if c = '\n' then ['\\', 'n']
  else if c.toNat = 12 then ['\\', 'f']
  else if c = '\r' then ['\\', 'r']
  else if c.toNat < 32 then ['\\', 'u', '0', '0', hexDigit (c.toNat / 16), hexDigit (c.toNat % 16)]
  else [c]

def quoted (s : String) : List Char := '"' :: (s.toList.flatMap escaped ++ ['"'])

def integerText : Int → List Char
  | .ofNat n => Nat.toDigits 10 n
  | .negSucc n => '-' :: Nat.toDigits 10 (n + 1)

def numberText : Number → List Char
  | .integer n => integerText n
  | .double x => if x.isFinite then layout.render x else "null".toList

mutual

def compact : Json → List Char
  | .null => "null".toList
  | .bool true => "true".toList
  | .bool false => "false".toList
  | .number n => numberText n
  | .string s => quoted s
  | .array [] => ['[', ']']
  | .array (item :: items) => '[' :: (compact item ++ compactItems items)
  | .object [] => ['{', '}']
  | .object ((key, value) :: members) =>
    '{' :: (quoted key ++ ':' :: (compact value ++ compactMembers members))

def compactItems : List Json → List Char
  | [] => [']']
  | item :: items => ',' :: (compact item ++ compactItems items)

def compactMembers : List (String × Json) → List Char
  | [] => ['}']
  | (key, value) :: members => ',' :: (quoted key ++ ':' :: (compact value ++ compactMembers members))

end

def newline (level : Nat) : List Char := '\n' :: List.replicate (2 * level) ' '

mutual

def indented (level : Nat) : Json → List Char
  | .null => "null".toList
  | .bool true => "true".toList
  | .bool false => "false".toList
  | .number n => numberText n
  | .string s => quoted s
  | .array [] => ['[', ']']
  | .array (item :: items) =>
    '[' :: (newline (level + 1) ++ (indented (level + 1) item ++ indentedItems level items))
  | .object [] => ['{', '}']
  | .object ((key, value) :: members) =>
    '{' :: (newline (level + 1) ++
      (quoted key ++ ':' :: ' ' :: (indented (level + 1) value ++ indentedMembers level members)))

def indentedItems (level : Nat) : List Json → List Char
  | [] => newline level ++ [']']
  | item :: items =>
    ',' :: (newline (level + 1) ++ (indented (level + 1) item ++ indentedItems level items))

def indentedMembers (level : Nat) : List (String × Json) → List Char
  | [] => newline level ++ ['}']
  | (key, value) :: members =>
    ',' :: (newline (level + 1) ++
      (quoted key ++ ':' :: ' ' :: (indented (level + 1) value ++ indentedMembers level members)))

end

def toLine (j : Json) : String := String.ofList j.compact

def toLines (j : Json) : String := String.ofList (j.indented 0)

end Dialogue.Json
