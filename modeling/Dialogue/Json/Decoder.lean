import Dialogue.Json.Reading

/-! Typed readers of a text. A reader takes the number of arrays and objects that may still be opened inside one
another, and answers with the first fault, in the order of the text, of those that matter to it. -/
namespace Dialogue.Json

def Decoder (α : Type) : Type := Nat → Reading → Except Fault α

def depthLimit : Nat := 127

namespace Decoder
open Reading
variable {α β σ τ : Type}

def map (f : α → β) (d : Decoder α) : Decoder β := fun depth r => (d depth r).map f

def enter : Nat → Except Fault Nat
  | 0 => .error .malformed
  | depth + 1 => .ok depth

def stopped : Option Fault → Except Fault Unit
  | none => .ok ()
  | some fault => .error fault

def string : Decoder String
  | _, .string s => s
  | _, r => .error r.mismatch

def bool : Decoder Bool
  | _, .bool b => .ok b
  | _, r => .error r.mismatch

def natural : Decoder Nat
  | _, .number (.ok (.integer (.ofNat n))) => if n < Nat.pow 2 64 then .ok n else .error .mismatched
  | _, r => .error r.mismatch

def option (d : Decoder α) : Decoder (Option α)
  | _, .null => .ok none
  | depth, r => (d depth r).map some

def listItems (d : Decoder α) (depth : Nat) (stop : Option Fault) : List Reading → Except Fault (List α)
  | [] => (stopped stop).map fun _ => []
  | item :: items =>
    match d depth item with
    | .error fault => .error fault
    | .ok a => (listItems d depth stop items).map (a :: ·)

def list (d : Decoder α) : Decoder (List α)
  | depth, .array items stop => do listItems d (← enter depth) stop items
  | _, r => .error r.mismatch

def tableMembers (d : Decoder α) (depth : Nat) (stop : Option MemberFault) (t : Table α) :
    List (Except Fault String × Reading) → Except Fault (Table α)
  | [] => (stopped (stop.map (·.fault))).map fun _ => t
  | (key, value) :: members =>
    match key with
    | .error fault => .error fault
    | .ok key =>
      match d depth value with
      | .error fault => .error fault
      | .ok a => tableMembers d depth stop (t.insert key a) members

/- An object as a table. Of several members with one name the last one stays. -/
def table (d : Decoder α) : Decoder (Table α)
  | depth, .object members stop => do tableMembers d (← enter depth) stop .empty members
  | _, r => .error r.mismatch

def choice (read : String → Option α) : Decoder α
  | _, .string s =>
    match s with
    | .error fault => .error fault
    | .ok word =>
      match read word with
      | some a => .ok a
      | none => .error .mismatched
  | depth, .object members stop => do
    let _ ← enter depth
    match members with
    | [] =>
      match stop with
      | none => .error .malformed
      | some stop => .error stop.asChoice
    | (key, value) :: more =>
      match read (← key) with
      | none => .error .mismatched
      | some a =>
        match value, more, stop with
        | .null, [], none => .ok a
        | .null, [], some stop => .error stop.asChoice
        | .null, _ :: _, _ => .error .malformed
        | other, _, _ => .error other.mismatch
  | _, .broken _ _ asChoice => .error asChoice
  | _, _ => .error .malformed

mutual

def value : Nat → Reading → Except Fault Json
  | _, .null => .ok .null
  | _, .bool b => .ok (.bool b)
  | _, .number n => n.map .number
  | _, .string s => s.map .string
  | depth, .array items stop =>
    match depth with
    | 0 => .error .malformed
    | depth + 1 => (valueItems depth stop items).map .array
  | depth, .object members stop =>
    match depth with
    | 0 => .error .malformed
    | depth + 1 => (valueMembers depth (stop.map (·.fault)) [] members).map .object
  | _, .broken fault _ _ => .error fault

def valueItems (depth : Nat) (stop : Option Fault) : List Reading → Except Fault (List Json)
  | [] => (stopped stop).map fun _ => []
  | item :: items =>
    match value depth item with
    | .error fault => .error fault
    | .ok a => (valueItems depth stop items).map (a :: ·)

def valueMembers (depth : Nat) (stop : Option Fault) (done : List (String × Json)) :
    List (Except Fault String × Reading) → Except Fault (List (String × Json))
  | [] => (stopped stop).map fun _ => done
  | (key, r) :: members =>
    match key with
    | .error fault => .error fault
    | .ok key =>
      match value depth r with
      | .error fault => .error fault
      | .ok a => valueMembers depth stop (insertEntry key a done) members

end

def anyValue : Decoder Json := value

end Decoder

/-
Records. A record is an object with known fields, in any order, in which unknown members are skipped, or
an array of the fields in order. While it is read each field has a slot, empty until the field is met.
-/

structure Record (σ α : Type) where
  blank : σ
  field : String → Nat → Reading → σ → Option (Except Fault σ)
  finish : σ → Except Fault α
  inOrder : Nat → Option Fault → List Reading → Except Fault (α × List Reading)

namespace Record
open Reading Decoder
variable {α β σ τ : Type}

structure Absent (α : Type) where
  inObject : Option α
  inArray : Option α

def required : Absent α := ⟨none, none⟩

def orElse (a : α) : Absent α := ⟨some a, some a⟩

def optional : Absent (Option α) := ⟨some none, none⟩

def given : Option α → Except Fault α
  | some a => .ok a
  | none => .error .mismatched

def one (name : String) (d : Decoder α) (absent : Absent α) : Record (Option α) α where
  blank := none
  field key depth r slot :=
    if key = name then
      some <|
        match slot with
        | some _ => .error .mismatched
        | none => (d depth r).map some
    else none
  finish slot := given (slot <|> absent.inObject)
  inOrder depth stop
    | [] =>
      match stop with
      | some fault => .error fault
      | none => (given absent.inArray).map fun a => (a, [])
    | item :: items => (d depth item).map fun a => (a, items)

def both (a : Record σ α) (b : Record τ β) : Record (σ × τ) (α × β) where
  blank := (a.blank, b.blank)
  field key depth r slots :=
    match a.field key depth r slots.1 with
    | some found => some (found.map fun s => (s, slots.2))
    | none => (b.field key depth r slots.2).map fun found => found.map fun s => (slots.1, s)
  finish slots := do return (← a.finish slots.1, ← b.finish slots.2)
  inOrder depth stop items := do
    let (x, items) ← a.inOrder depth stop items
    let (y, items) ← b.inOrder depth stop items
    return ((x, y), items)

def mapTo (f : α → β) (a : Record σ α) : Record σ β where
  blank := a.blank
  field := a.field
  finish slots := (a.finish slots).map f
  inOrder depth stop items := (a.inOrder depth stop items).map fun p => (f p.1, p.2)

def readMembers (record : Record σ α) (depth : Nat) (stop : Option MemberFault) (slots : σ) :
    List (Except Fault String × Reading) → Except Fault α
  | [] =>
    match stop with
    | some stop => .error stop.fault
    | none => record.finish slots
  | (key, r) :: members =>
    match key with
    | .error fault => .error fault
    | .ok key =>
      match record.field key depth r slots with
      | some (.ok slots) => readMembers record depth stop slots members
      | some (.error fault) => .error fault
      | none =>
        match r.skip with
        | .error fault => .error fault
        | .ok () => readMembers record depth stop slots members

def readItems (record : Record σ α) (depth : Nat) (stop : Option Fault) (items : List Reading) : Except Fault α := do
  let (a, rest) ← record.inOrder depth stop items
  match rest with
  | [] => (stopped stop).map fun _ => a
  | _ :: _ => .error .malformed

def decoder (record : Record σ α) : Decoder α
  | depth, .object members stop => do record.readMembers (← enter depth) stop record.blank members
  | depth, .array items stop => do record.readItems (← enter depth) stop items
  | _, r => .error r.mismatch

end Record

namespace Decoder

def fromText {α : Type} (d : Decoder α) (text : String) : Except Fault α :=
  match Reading.ofText text with
  | (r, rest) =>
    match d depthLimit r with
    | .error fault => .error fault
    | .ok a =>
      match rest.map Reading.skipSpace with
      | some [] => .ok a
      | _ => .error .malformed

def fromJson {α : Type} (d : Decoder α) (j : Json) : Except Fault α :=
  (d depthLimit (Reading.ofJson j)).mapError fun _ => .mismatched

end Decoder
end Dialogue.Json
