import Dialogue.Play.Step
import Dialogue.Story.Format

/-! States, events, outputs and filters as JSON. A state, an event and a filter are also read. -/
namespace Dialogue.Play
open Json (Decoder ofNat ofOption)
open Json.Record (required optional one both mapTo)

namespace Ticket

def toJson (t : Ticket) : Json :=
  .object [("node_id", .string t.nodeId), ("segment", ofNat t.segment), ("visit", ofNat t.visit)]

def record := mapTo (fun (node, segment, visit) => (⟨node, segment, visit⟩ : Ticket)) <|
  both (one "node_id" Decoder.string required) <|
  both (one "segment" Decoder.natural required) (one "visit" Decoder.natural required)

def decoder : Decoder Ticket := record.decoder

end Ticket

namespace State

def toJson (s : State) : Json :=
  .object [("node_id", .string s.nodeId), ("context", s.context.toJson),
    ("awaiting_choice", .bool s.awaitingChoice), ("reveal_index", ofNat s.revealIndex),
    ("next_id", ofOption .string s.nextId), ("visit", ofNat s.visit), ("finished", .bool s.finished)]

def record :=
  mapTo (fun (node, context, awaiting, index, next, visit, finished) =>
    (⟨node, context, awaiting, index, next, visit, finished⟩ : State)) <|
  both (one "node_id" Decoder.string required) <|
  both (one "context" Decoder.anyValue.table required) <|
  both (one "awaiting_choice" Decoder.bool required) <|
  both (one "reveal_index" Decoder.natural required) <|
  both (one "next_id" Decoder.string.option optional) <|
  both (one "visit" Decoder.natural required) (one "finished" Decoder.bool required)

def decoder : Decoder State := record.decoder

end State

namespace Event

def choiceRecord := one "action_id" Decoder.string required

def decoder : Decoder Event
  | depth + 1, .object [(.ok name, r)] none =>
    if name = "Revealed" then (Ticket.decoder depth r).map .revealed
    else if name = "Select" then
      match r with
      | .object _ _ => (choiceRecord.decoder depth r).map .select
      | _ => .error .mismatched
    else .error .mismatched
  | _, _ => .error .mismatched

end Event

namespace Output

def offerJson (o : Offer) : Json := .object [("id", .string o.id), ("label", .string o.label)]

def toJson (o : Output) : Json :=
  .object [("entered", .array (o.entered.map .string)), ("text", .string o.text),
    ("segment", ofOption Segment.toJson o.segment), ("actions", .array (o.actions.map offerJson)),
    ("stale", .bool o.stale), ("finished", .bool o.finished)]

end Output

namespace Snapshot

def toJson (s : Snapshot) : Json :=
  .object [("node_id", .string s.nodeId), ("reveal_index", ofNat s.revealIndex),
    ("segments", ofNat s.segments), ("context", s.context.toJson),
    ("awaiting_choice", .bool s.awaitingChoice), ("visible_actions", .array (s.visibleActions.map .string)),
    ("next_id", ofOption .string s.nextId)]

end Snapshot
end Dialogue.Play

namespace Dialogue
open Json (Decoder)
open Json.Record (required one both mapTo)

namespace NoticeFilter

def ofLevel? (word : String) : Option Level := Level.all.find? (·.name = word)

def ofCategory? (word : String) : Option Category := Category.all.find? (·.name = word)

def record := mapTo (fun (enabled, level, categories) => (⟨enabled, level, categories⟩ : NoticeFilter)) <|
  both (one "enabled" Decoder.bool required) <|
  both (one "level" (.choice ofLevel?) required) (one "categories" (Decoder.choice ofCategory?).list required)

def decoder : Decoder NoticeFilter := record.decoder

end NoticeFilter
end Dialogue
