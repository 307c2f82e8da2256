import Dialogue.Story.Basic
import Dialogue.Json.Decoder

/-! Stories as JSON, in both directions. What is written has its fields in a fixed order, leaves out an absent
successor or predicate and an empty side of a predicate, and always has the lists. What is read may also leave out an
empty list, name an operator by any of its tokens, and come in any order. -/
namespace Dialogue
open Json (Decoder ofNat ofTable)
open Json.Record (required orElse optional one both mapTo)

namespace EffectOp

def token : EffectOp → String
  | .set => "set"
  | .add => "add"

def ofToken? (token : String) : Option EffectOp :=
  if token = "set" then some .set else if token = "add" then some .add else none

end EffectOp

def memberOf {α : Type} (name : String) (render : α → Json) : Option α → List (String × Json)
  | none => []
  | some a => [(name, render a)]

def tableMember {α : Type} (name : String) (render : α → Json) (t : Table α) : List (String × Json) :=
  if t.isEmpty then [] else [(name, ofTable render t)]

def Operator.decoder : Decoder Operator := .choice Operator.ofToken?

namespace Segment

def toJson (s : Segment) : Json :=
  .object [("text", .string s.text), ("duration", ofNat s.duration), ("timeout", ofNat s.timeout)]

def record := mapTo (fun (t, d, p) => (⟨t, d, p⟩ : Segment)) <|
  both (one "text" Decoder.string required) <|
  both (one "duration" Decoder.natural required) (one "timeout" Decoder.natural required)

def decoder : Decoder Segment := record.decoder

end Segment

namespace Check

def toJson (c : Check) : Json := .object [("op", .string c.op.token), ("value", c.value)]

def record := mapTo (fun (op, v) => (⟨op, v⟩ : Check)) <|
  both (one "op" Operator.decoder required) (one "value" Decoder.anyValue required)

def decoder : Decoder Check := record.decoder

end Check

namespace Predicate

def toJson (p : Predicate) : Json :=
  .object (tableMember "and" Check.toJson p.requirements ++ tableMember "or" Check.toJson p.alternatives)

def record := mapTo (fun (r, a) => (⟨r, a⟩ : Predicate)) <|
  both (one "and" Check.decoder.table (orElse .empty)) (one "or" Check.decoder.table (orElse .empty))

def decoder : Decoder Predicate := record.decoder

end Predicate

namespace BranchRule

def toJson (r : BranchRule) : Json :=
  .object [("key", .string r.condition.key), ("op", .string r.condition.check.op.token),
    ("value", r.condition.check.value), ("target_id", .string r.targetId)]

def record := mapTo (fun (key, op, v, target) => (⟨⟨key, ⟨op, v⟩⟩, target⟩ : BranchRule)) <|
  both (one "key" Decoder.string required) <|
  both (one "op" Operator.decoder required) <|
  both (one "value" Decoder.anyValue required) (one "target_id" Decoder.string required)

def decoder : Decoder BranchRule := record.decoder

end BranchRule

namespace Effect

def toJson (e : Effect) : Json :=
  .object [("key", .string e.key), ("op", .string e.op.token), ("value", e.value)]

def record := mapTo (fun (key, op, v) => (⟨key, op, v⟩ : Effect)) <|
  both (one "key" Decoder.string required) <|
  both (one "op" (.choice EffectOp.ofToken?) required) (one "value" Decoder.anyValue required)

def decoder : Decoder Effect := record.decoder

end Effect

namespace StoryAction

def toJson (a : StoryAction) : Json :=
  .object ([("id", .string a.id), ("type", .string "button"), ("label", .string a.label)] ++
    memberOf "predicate" Predicate.toJson a.predicate ++
    [("effects", .array (a.effects.map Effect.toJson))] ++
    memberOf "next_id" .string a.nextId)

def ofType? (word : String) : Option Unit := if word = "button" then some () else none

def record :=
  mapTo (fun (id, (), label, p, es, next) => (⟨id, label, p, es, next⟩ : StoryAction)) <|
  both (one "id" Decoder.string required) <|
  both (one "type" (.choice ofType?) required) <|
  both (one "label" Decoder.string required) <|
  both (one "predicate" Predicate.decoder.option (orElse none)) <|
  both (one "effects" Effect.decoder.list (orElse [])) (one "next_id" Decoder.string.option (orElse none))

def decoder : Decoder StoryAction := record.decoder

end StoryAction

namespace StoryNode

def toJson (n : StoryNode) : Json :=
  .object ([("id", .string n.id), ("texts", .array (n.texts.map Segment.toJson))] ++
    memberOf "next_id" .string n.nextId ++
    [("rules", .array (n.rules.map BranchRule.toJson)), ("effects", .array (n.effects.map Effect.toJson)),
      ("actions", .array (n.actions.map StoryAction.toJson))])

def record :=
  mapTo (fun (id, ts, next, rs, es, as) => (⟨id, ts, next, rs, es, as⟩ : StoryNode)) <|
  both (one "id" Decoder.string required) <|
  both (one "texts" Segment.decoder.list required) <|
  both (one "next_id" Decoder.string.option (orElse none)) <|
  both (one "rules" BranchRule.decoder.list (orElse [])) <|
  both (one "effects" Effect.decoder.list (orElse [])) (one "actions" StoryAction.decoder.list (orElse []))

def decoder : Decoder StoryNode := record.decoder

end StoryNode

namespace Story

def toJson (s : Story) : Json :=
  .object [("root_id", .string s.rootId), ("nodes", ofTable StoryNode.toJson s.nodes)]

def record := mapTo (fun (root, nodes) => (⟨root, nodes⟩ : Story)) <|
  both (one "root_id" Decoder.string required) (one "nodes" StoryNode.decoder.table required)

def decoder : Decoder Story := record.decoder

end Story

namespace FreezePolicy

def token : FreezePolicy → String
  | .cloneOnWrite => "clone_on_write"
  | .strict => "strict"

def ofToken? (token : String) : Option FreezePolicy :=
  if token = "clone_on_write" then some .cloneOnWrite
  else if token = "strict" then some .strict
  else none

end FreezePolicy

namespace PacingDefaults

def toJson (d : PacingDefaults) : Json :=
  .object [("ms_per_char", ofNat d.msPerChar), ("timeout_ms", ofNat d.timeoutMs),
    ("write_duration_ms", ofNat d.writeDurationMs)]

def record :=
  let plain : PacingDefaults := {}
  mapTo (fun (pace, timeout, write) => (⟨pace, timeout, write⟩ : PacingDefaults)) <|
  both (one "ms_per_char" Decoder.natural (orElse plain.msPerChar)) <|
  both (one "timeout_ms" Decoder.natural (orElse plain.timeoutMs))
    (one "write_duration_ms" Decoder.natural (orElse plain.writeDurationMs))

def decoder : Decoder PacingDefaults := record.decoder

end PacingDefaults

namespace Config

def toJson (c : Config) : Json :=
  .object [("freeze_policy", .string c.freezePolicy.token), ("text", c.text.toJson)]

def record := mapTo (fun (policy, text) => (⟨policy, text⟩ : Config)) <|
  both (one "freeze_policy" (.choice FreezePolicy.ofToken?) (orElse .cloneOnWrite))
    (one "text" PacingDefaults.decoder (orElse {}))

def decoder : Decoder Config := record.decoder

end Config
end Dialogue
