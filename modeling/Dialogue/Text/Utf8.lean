/-! Bytes as text. Bytes that are not UTF-8 are refused with the place of the first fault: the length of the longest
valid part before it, and either how many bytes the fault takes or that the bytes end in the middle of a character. -/
namespace Dialogue.Text

structure Utf8Fault where
  index : Nat
  length : Option Nat
  deriving DecidableEq, Repr

def Utf8Fault.message (f : Utf8Fault) : String :=
  match f.length with
  | some n => s!"invalid utf-8 sequence of {n} bytes from index {f.index}"
  | none => s!"incomplete utf-8 byte sequence from index {f.index}"

def continues (b : UInt8) : Bool := 0x80 ≤ b && b ≤ 0xBF

def secondFits (first second : UInt8) : Bool :=
  if first = 0xE0 then 0xA0 ≤ second && second ≤ 0xBF
  else if first = 0xED then 0x80 ≤ second && second ≤ 0x9F
  else if first = 0xF0 then 0x90 ≤ second && second ≤ 0xBF
  else if first = 0xF4 then 0x80 ≤ second && second ≤ 0x8F
  else continues second

def tailFault : List (UInt8 → Bool) → List UInt8 → Nat → Option (Option Nat) × List UInt8
  | [], rest, _ => (none, rest)
  | _ :: _, [], _ => (some none, [])
  | fits :: more, b :: rest, taken =>
    if fits b then tailFault more rest (taken + 1) else (some (some taken), rest)

def tailTests (first : UInt8) : Option (List (UInt8 → Bool)) :=
  if first < 0x80 then some []
  else if 0xC2 ≤ first && first ≤ 0xDF then some [continues]
  else if 0xE0 ≤ first && first ≤ 0xEF then some [secondFits first, continues]
  else if 0xF0 ≤ first && first ≤ 0xF4 then some [secondFits first, continues, continues]
  else none

def utf8Fault : Nat → Nat → List UInt8 → Utf8Fault
  | 0, index, _ => ⟨index, none⟩
  | _ + 1, index, [] => ⟨index, none⟩
  | fuel + 1, index, first :: rest =>
    match tailTests first with
    | none => ⟨index, some 1⟩
    | some tests =>
      match tailFault tests rest 1 with
      | (some length, _) => ⟨index, length⟩
      | (none, rest) => utf8Fault fuel (index + 1 + tests.length) rest

def decodeUtf8 (bytes : ByteArray) : Except Utf8Fault String :=
  match String.fromUTF8? bytes with
  | some text => .ok text
  | none => .error (utf8Fault bytes.size 0 bytes.toList)

theorem decodeEncoded (text : String) : decodeUtf8 text.toUTF8 = .ok text := by
  have valid : String.fromUTF8? text.toUTF8 = some text := by
    unfold String.fromUTF8?
    split
    · rfl
    · rename_i h
      exact absurd text.isValidUTF8 (by simpa using h)
  simp only [decodeUtf8, valid]

end Dialogue.Text
