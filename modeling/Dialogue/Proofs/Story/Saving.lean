import Dialogue.Proofs.Json.Codecs
import Dialogue.Proofs.Json.Rereading
import Dialogue.Story.Saved

/-! Saving and loading are inverse. Each record of a story has a codec, put together from those of its fields; that of
the story says that its tree is taken back. A loaded story can be saved again, since what a codec reads it also
writes, no deeper than it was read. -/
namespace Dialogue
open Json (ofTable)
open Json.Decoder (Codec choice stringCodec naturalCodec choiceCodec valueCodec)
open Json.Record (Field Writes requiredField listField orElse)

section Fields
variable {α : Type} {d : Json.Decoder α} {render : α → Json} {held : α → Prop} {least : Nat}

theorem optionBack {depth : Nat} {j : Json} (some : j ≠ .null) :
    d.option depth (Json.Reading.ofJson j) = (d depth (Json.Reading.ofJson j)).map Option.some := by
  cases j with
  | null => exact absurd rfl some
  | _ => rfl

theorem optionalField (codec : Codec d render held least) (name : String) (some : ∀ a, render a ≠ .null) :
    Field name d.option (orElse none) (memberOf name render) (fun o => ∀ a, o = Option.some a → held a) least where
  back {o depth} good deep := by
    cases o with
    | none => exact .inl ⟨rfl, rfl⟩
    | some a =>
      have read := codec.back (good a rfl) (deep _ List.mem_cons_self)
      exact .inr ⟨_, rfl, by rw [optionBack (some a), read]; rfl⟩
  fits {o} good := by
    cases o with
    | none => exact List.forall_mem_nil _
    | some a => exact List.forall_mem_singleton.mpr (codec.fits (good a rfl))
  named {o} := by
    cases o with
    | none => exact List.forall_mem_nil _
    | some a => exact List.forall_mem_singleton.mpr rfl
  taken {depth r o} enough fits read := by
    cases o with
    | none => simp [memberOf]
    | some a =>
      have inner : d depth r = .ok a := by
        unfold Json.Decoder.option at read
        split at read
        · cases Except.ok.inj read
        · cases inner : d depth r with
          | error fault => simp [inner, Except.map] at read
          | ok b => simpa [inner, Except.map] using read
      obtain ⟨good, deep⟩ := codec.held enough fits inner
      exact ⟨fun b same => Option.some.inj same ▸ good, List.forall_mem_singleton.mpr deep⟩
  missing {o} known := by
    have absent : none = o := by simpa [orElse] using known
    subst absent
    simp [memberOf]

theorem forallTableMember {name : String} {t : Table α} {P : String × Json → Prop} (one : P (name, ofTable render t)) :
    ∀ m ∈ tableMember name render t, P m := by
  unfold tableMember
  split
  · exact List.forall_mem_nil _
  · exact List.forall_mem_singleton.mpr one

theorem tableField (codec : Codec d render held least) (name : String) :
    Field name d.table (orElse .empty) (tableMember name render) (fun t => ∀ e ∈ t.entries, held e.2) (least + 1) where
  back {t depth} good deep := by
    obtain ⟨entries, ascends⟩ := t
    cases entries with
    | nil => exact .inl ⟨rfl, rfl⟩
    | cons e entries => exact .inr ⟨_, rfl, codec.table.back good (deep _ List.mem_cons_self)⟩
  fits good := forallTableMember (codec.table.fits good)
  named := forallTableMember rfl
  taken enough fits read := (codec.table.held enough fits read).imp id forallTableMember
  missing {t} known := by
    have absent : .empty = t := by simpa [orElse] using known
    subst absent
    exact ⟨List.forall_mem_nil _, List.forall_mem_nil _⟩

end Fields

namespace Segment

def Held (s : Segment) : Prop := s.duration < Nat.pow 2 64 ∧ s.timeout < Nat.pow 2 64

theorem codec : Codec decoder toJson Held 1 := by
  have text := (requiredField stringCodec "text").writes
  have duration := (requiredField naturalCodec "duration").writes
  have timeout := (requiredField naturalCodec "timeout").writes
  have writes := text.both (duration.both timeout (by decide)) (by decide)
  have all : Writes record _ _ _ _ := writes.mapTo (fun s => (s.text, s.duration, s.timeout))
    (fun _ => rfl) (fun _ => rfl)
  exact all.codec.congr (fun _ => rfl) fun s => by simp [Held]

end Segment

namespace Check

def Held (c : Check) : Prop := c.value.Held

theorem codec : Codec decoder toJson Held 1 := by
  have op := (requiredField (choiceCodec Operator.ofTokenToken) "op").writes
  have value := (requiredField valueCodec "value").writes
  have writes := op.both value (by decide)
  have all : Writes record _ _ _ _ := writes.mapTo (fun c => (c.op, c.value))
    (fun _ => rfl) (fun _ => rfl)
  exact all.codec.congr (fun _ => rfl) fun s => by simp [Held]

end Check

namespace Predicate

structure Held (p : Predicate) : Prop where
  requirements : ∀ e ∈ p.requirements.entries, e.2.Held
  alternatives : ∀ e ∈ p.alternatives.entries, e.2.Held

theorem codec : Codec decoder toJson Held 3 := by
  have requirements := (tableField Check.codec "and").writes
  have alternatives := (tableField Check.codec "or").writes
  have writes := requirements.both alternatives (by decide)
  have all : Writes record _ _ _ _ := writes.mapTo (fun p => (p.requirements, p.alternatives))
    (fun _ => rfl) (fun _ => rfl)
  exact all.codec.congr (fun _ => rfl) fun p => ⟨fun held => ⟨held.1, held.2⟩, fun held => ⟨held.1, held.2⟩⟩

end Predicate

namespace BranchRule

def Held (r : BranchRule) : Prop := r.condition.check.Held

theorem codec : Codec decoder toJson Held 1 := by
  have key := (requiredField stringCodec "key").writes
  have op := (requiredField (choiceCodec Operator.ofTokenToken) "op").writes
  have value := (requiredField valueCodec "value").writes
  have target := (requiredField stringCodec "target_id").writes
  have writes := key.both (op.both (value.both target (by decide)) (by decide)) (by decide)
  have all : Writes record _ _ _ _ := writes.mapTo (fun r =>
    (r.condition.key, r.condition.check.op, r.condition.check.value, r.targetId)) (fun _ => rfl) (fun _ => rfl)
  exact all.codec.congr (fun _ => rfl) fun r => by simp [Held, Check.Held]

end BranchRule

namespace Effect

def Held (e : Effect) : Prop := e.value.Held

theorem opOfToken (op : EffectOp) : EffectOp.ofToken? op.token = some op := by
  cases op <;> decide

theorem codec : Codec decoder toJson Held 1 := by
  have key := (requiredField stringCodec "key").writes
  have op := (requiredField (choiceCodec opOfToken) "op").writes
  have value := (requiredField valueCodec "value").writes
  have writes := key.both (op.both value (by decide)) (by decide)
  have all : Writes record _ _ _ _ := writes.mapTo (fun e => (e.key, e.op, e.value))
    (fun _ => rfl) (fun _ => rfl)
  exact all.codec.congr (fun _ => rfl) fun e => by simp [Held]

end Effect

namespace StoryAction

structure Held (a : StoryAction) : Prop where
  predicate : ∀ p, a.predicate = some p → p.Held
  effects : ∀ e ∈ a.effects, e.Held

theorem codec : Codec decoder toJson Held 4 := by
  have button : Codec (choice ofType?) (fun _ => .string "button") (fun _ => True) 0 := choiceCodec fun _ => rfl
  have id := (requiredField stringCodec "id").writes
  have kind := (requiredField button "type").writes
  have label := (requiredField stringCodec "label").writes
  have predicate := (optionalField Predicate.codec "predicate" fun _ => by simp [Predicate.toJson]).writes
  have effects := (listField Effect.codec "effects").writes
  have next := (optionalField stringCodec "next_id" fun _ => by simp).writes
  have writes := id.both (kind.both (label.both (predicate.both (effects.both next (by decide)) (by decide))
    (by decide)) (by decide)) (by decide)
  have all : Writes record _ _ _ _ := writes.mapTo (fun a => (a.id, (), a.label, a.predicate, a.effects, a.nextId))
    (fun _ => rfl) (fun _ => rfl)
  refine all.codec.congr (fun a => ?_) fun a => ?_
  · simp [toJson]
  · constructor
    · intro held
      exact ⟨trivial, trivial, trivial, held.predicate, held.effects, fun _ _ => trivial⟩
    · rintro ⟨-, -, -, predicate, effects, -⟩
      exact ⟨predicate, effects⟩

end StoryAction

namespace StoryNode

structure Held (n : StoryNode) : Prop where
  texts : ∀ t ∈ n.texts, t.Held
  rules : ∀ r ∈ n.rules, r.Held
  effects : ∀ e ∈ n.effects, e.Held
  actions : ∀ a ∈ n.actions, a.Held

theorem codec : Codec decoder toJson Held 6 := by
  have id := (requiredField stringCodec "id").writes
  have texts := (requiredField Segment.codec.list "texts").writes
  have next := (optionalField stringCodec "next_id" fun _ => by simp).writes
  have rules := (listField BranchRule.codec "rules").writes
  have effects := (listField Effect.codec "effects").writes
  have actions := (listField StoryAction.codec "actions").writes
  have writes := id.both (texts.both (next.both (rules.both (effects.both actions (by decide)) (by decide))
    (by decide)) (by decide)) (by decide)
  have all : Writes record _ _ _ _ := writes.mapTo (fun n => (n.id, n.texts, n.nextId, n.rules, n.effects, n.actions))
    (fun _ => rfl) (fun _ => rfl)
  refine all.codec.congr (fun n => ?_) fun n => ?_
  · simp [toJson]
  · constructor
    · intro held
      exact ⟨trivial, held.texts, fun _ _ => trivial, held.rules, held.effects, held.actions⟩
    · rintro ⟨-, texts, -, rules, effects, actions⟩
      exact ⟨texts, rules, effects, actions⟩

end StoryNode

namespace Story

def Held (s : Story) : Prop := ∀ e ∈ s.nodes.entries, e.2.Held

theorem codec : Codec decoder toJson Held 8 := by
  have root := (requiredField stringCodec "root_id").writes
  have nodes := (requiredField StoryNode.codec.table "nodes").writes
  have writes := root.both nodes (by decide)
  have all : Writes record _ _ _ _ := writes.mapTo (fun s => (s.rootId, s.nodes))
    (fun _ => rfl) (fun _ => rfl)
  exact all.codec.congr (fun _ => rfl) fun s => by simp [Held]

/- The token that is printed for a double is read as that double. -/
def Rereads (s : Story) : Prop := ∀ x ∈ s.toJson.doubles, (Number.double x).Rereads

instance (s : Story) : Decidable s.Rereads := inferInstanceAs (Decidable (∀ x ∈ _, _))

theorem loadOk {bytes : ByteArray} {s : Story} : load bytes = .ok s ↔
    ∃ text, Text.decodeUtf8 bytes = .ok text ∧ decoder.fromText text = .ok s ∧ s.validate = .ok () := by
  constructor
  · intro ok
    cases decoded : Text.decodeUtf8 bytes with
    | error fault => simp [load, decoded, Except.mapError, bind, Except.bind] at ok
    | ok text =>
      cases found : decoder.fromText text with
      | error fault => simp [load, decoded, Story.read, found, Except.mapError, bind, Except.bind] at ok
      | ok other =>
        cases valid : other.validate with
        | error fault => simp [load, decoded, Story.read, found, valid, Except.mapError, bind, Except.bind] at ok
        | ok =>
          simp only [load, decoded, Story.read, found, valid, Except.mapError, bind, Except.bind, pure, Except.pure,
            Except.ok.injEq] at ok
          subst ok
          exact ⟨text, rfl, found, valid⟩
  · rintro ⟨text, decoded, found, valid⟩
    simp only [load, decoded, Story.read, found, valid, Except.mapError, bind, Except.bind, pure, Except.pure]

theorem loadAs {s back : Story} (valid : back.validate = .ok ())
    (stops : (Json.Reading.value (2 * (Json.indented 0 s.toJson).length + 2) (Json.indented 0 s.toJson)).2 = some [])
    (read : decoder Json.depthLimit
      (Json.Reading.value (2 * (Json.indented 0 s.toJson).length + 2) (Json.indented 0 s.toJson)).1 = .ok back) :
    load s.save = .ok back := by
  have whole : Json.Reading.ofText s.saved =
      ((Json.Reading.value (2 * (Json.indented 0 s.toJson).length + 2) (Json.indented 0 s.toJson)).1, some []) := by
    rw [← stops, Json.Reading.ofText, saved, Json.toLines, String.toList_ofList]
  have taken : decoder.fromText s.saved = .ok back := Json.fromTextOk.mpr ⟨_, [], whole, read, rfl⟩
  exact loadOk.mpr ⟨s.saved, Text.decodeEncoded _, taken, valid⟩

theorem loadSaved {s : Story} (valid : s.validate = .ok ()) (held : s.Held) (deep : s.toJson.nesting ≤ Json.depthLimit)
    (rereads : s.Rereads) : load s.save = .ok s := by
  have numbers : s.toJson.Numbers Number.Rereads :=
    (codec.fits held).andDoubles (fun _ => Json.integerRereads) rereads
  obtain ⟨rest, read, blank⟩ := Json.linesRead numbers
  have back : decoder Json.depthLimit (Json.Reading.ofJson s.toJson) = .ok s := codec.back held deep
  have text : decoder.fromText s.saved = .ok s := Json.fromTextOk.mpr ⟨_, rest, read, back, blank⟩
  exact loadOk.mpr ⟨s.saved, Text.decodeEncoded s.saved, text, valid⟩

theorem loadedTaken {bytes : ByteArray} {s : Story} (loaded : load bytes = .ok s) :
    s.validate = .ok () ∧ s.Held ∧ s.toJson.nesting ≤ Json.depthLimit := by
  obtain ⟨text, _, found, valid⟩ := loadOk.mp loaded
  obtain ⟨r, rest, read, taken, _⟩ := Json.fromTextOk.mp found
  have fits : r.Fits := by
    have all := Json.Reading.textFits text
    rwa [read] at all
  exact ⟨valid, codec.held (by decide) fits taken⟩

theorem savingLoads :
    (∀ s : Story, s.validate = .ok () → s.Held → s.toJson.nesting ≤ Json.depthLimit → s.Rereads →
      ∃ back, load s.save = .ok back ∧ back = s ∧ back.digest = s.digest) ∧
    ∀ (bytes : ByteArray) (s : Story), load bytes = .ok s →
      s.validate = .ok () ∧ s.Held ∧ s.toJson.nesting ≤ Json.depthLimit ∧
      (s.Rereads → ∃ back, load s.save = .ok back ∧ back = s ∧ back.save = s.save) := by
  constructor
  · intro s valid held deep rereads
    exact ⟨s, loadSaved valid held deep rereads, rfl, rfl⟩
  · intro bytes s loaded
    obtain ⟨valid, held, deep⟩ := loadedTaken loaded
    exact ⟨valid, held, deep, fun rereads => ⟨s, loadSaved valid held deep rereads, rfl, rfl⟩⟩

end Story

def fordText : Json :=
  .object [("color", .string "blue"), ("nodes", .object [("ford", .array [.string "ford",
    .array [.array [.string "Ebb ≈ 🌊", Json.ofNat 200, Json.ofNat 500]], .null, .array [], .array [],
    .array [.array [.string "wade", .object [("button", .null)], .string "Wade",
      .object [("and", .object [("depth", .array [.string "<", .number (.double 0.5)])])]]]])]),
    ("root_id", .string "ford")]

def ford : Story where
  rootId := "ford"
  nodes := .ofList [
    ("ford", { id := "ford", texts := [⟨"Ebb ≈ 🌊", 200, 500⟩], nextId := none, rules := [], effects := []
               actions := [⟨"wade", "Wade", some ⟨.ofList [("depth", ⟨.lessThan, .number (.double 0.5)⟩)], .empty⟩, [],
                 none⟩] })]

theorem fordSavingLoads : Story.load fordText.toLine.toUTF8 = .ok ford ∧ ford.Rereads ∧
    (∃ back, Story.load ford.save = .ok back ∧ back = ford ∧ back.digest = ford.digest) ∧
    ∃ back, Story.load ford.save = .ok back ∧ back = ford ∧ back.save = ford.save := by
  have stops : (Json.Reading.value (2 * fordText.compact.length + 2) fordText.compact).2 = some [] := by decide +kernel
  have read : Json.Reading.ofText fordText.toLine =
      ((Json.Reading.value (2 * fordText.compact.length + 2) fordText.compact).1, some []) := by
    rw [← stops, Json.Reading.ofText, Json.toLine, String.toList_ofList]
  have taken : Story.decoder.fromText fordText.toLine = .ok ford :=
    Json.fromTextOk.mpr ⟨_, [], read, by decide +kernel, rfl⟩
  have loaded : Story.load fordText.toLine.toUTF8 = .ok ford :=
    Story.loadOk.mpr ⟨fordText.toLine, Text.decodeEncoded _, taken, rfl⟩
  have rereads : ford.Rereads := by decide +kernel
  obtain ⟨valid, held, deep, again⟩ := Story.savingLoads.2 _ ford loaded
  exact ⟨loaded, rereads, Story.savingLoads.1 ford valid held deep rereads, again rereads⟩

end Dialogue
