import Dialogue.Json.Printer
import Dialogue.Text.Visible

/-! Values for a log: each with the name of its kind, and strings with every character escaped that could not be told
by sight. -/
namespace Dialogue.Json

def shown (c : Char) : List Char :=
  if c = '"' then ['\\', '"']
  else if c = '\\' then ['\\', '\\']
  else if c = '\n' then ['\\', 'n']
  else if c = '\r' then ['\\', 'r']
  else if c = '\t' then ['\\', 't']
  else if c.toNat = 0 then ['\\', '0']
  else if Text.isUnseen c then ['\\', 'u', '\x7b'] ++ Nat.toDigits 16 c.toNat ++ ['\x7d']
  else [c]

def shownText (s : String) : List Char := '"' :: (s.toList.flatMap shown ++ ['"'])

def wrapped (kind : String) (inner : List Char) : List Char := kind.toList ++ '(' :: (inner ++ [')'])

mutual

def dump : Json → List Char
  | .null => "Null".toList
  | .bool b => wrapped "Bool" (if b then "true".toList else "false".toList)
  | .number n => wrapped "Number" (numberText n)
  | .string s => wrapped "String" (shownText s)
  | .array items => "Array [".toList ++ (dumpItems items ++ [']'])
  | .object members => "Object \x7b".toList ++ (dumpMembers members ++ ['\x7d'])

def dumpItems : List Json → List Char
  | [] => []
  | [item] => dump item
  | item :: items => dump item ++ ',' :: ' ' :: dumpItems items

def dumpMembers : List (String × Json) → List Char
  | [] => []
  | [(key, value)] => shownText key ++ ':' :: ' ' :: dump value
  | (key, value) :: members => shownText key ++ ':' :: ' ' :: (dump value ++ ',' :: ' ' :: dumpMembers members)

end

end Dialogue.Json

namespace Dialogue

def Context.dump (c : Context) : String :=
  String.ofList ('\x7b' :: (Json.dumpMembers c.entries ++ ['\x7d']))

end Dialogue
