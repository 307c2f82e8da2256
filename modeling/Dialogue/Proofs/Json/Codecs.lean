import Dialogue.Proofs.Json.Fitting

/-! Readers that take back what is written. A codec is a reader with the writer of its values: what is written is read
as the value it was written from, and what is read can be written, no deeper than it may be read. -/
namespace Dialogue

theorem insertEntryLast {α : Type} {key : String} {value : α} {l : List (String × α)} (last : ∀ e ∈ l, e.1 < key) :
    insertEntry key value l = l ++ [(key, value)] := by
  induction l with
  | nil => rfl
  | cons e l ih =>
    have before : e.1 < key := last e List.mem_cons_self
    have after : ¬ key < e.1 := fun less => String.lt_irrefl _ (String.lt_trans before less)
    have other : key ≠ e.1 := fun same => String.lt_irrefl _ (same ▸ before)
    simp only [insertEntry, after, other, if_false, ih fun e mem => last e (List.mem_cons_of_mem _ mem),
      List.cons_append]

namespace Json

structure Held (j : Json) : Prop where
  ascends : j.Ascends
  fits : j.Numbers Number.Fits

namespace Decoder
open Reading
variable {α β : Type} {depth : Nat}

/- Values that nest no deeper than they may be read are taken back, and what is read from a depth of `least` on can
be written within the depth. -/
structure Codec (d : Decoder α) (render : α → Json) (held : α → Prop) (least : Nat) : Prop where
  back : ∀ {a depth}, held a → (render a).nesting ≤ depth → d depth (ofJson (render a)) = .ok a
  fits : ∀ {a}, held a → (render a).Numbers Number.Fits
  held : ∀ {depth r a}, least ≤ depth → r.Fits → d depth r = .ok a → held a ∧ (render a).nesting ≤ depth

variable {d : Decoder α} {render : α → Json} {held : α → Prop} {least : Nat}

theorem Codec.congr {written : α → Json} {fine : α → Prop} (codec : Codec d render held least)
    (same : ∀ a, written a = render a) (iff : ∀ a, fine a ↔ held a) : Codec d written fine least where
  back good deep := by
    rw [same] at deep ⊢
    exact codec.back ((iff _).mp good) deep
  fits good := by
    rw [same]
    exact codec.fits ((iff _).mp good)
  held enough fits read := by
    obtain ⟨good, deep⟩ := codec.held enough fits read
    exact ⟨(iff _).mpr good, by rwa [same]⟩

theorem stringCodec : Codec string .string (fun _ => True) 0 where
  back _ _ := rfl
  fits _ := .string _
  held _ _ _ := ⟨trivial, Nat.zero_le _⟩

theorem naturalCodec : Codec natural ofNat (· < Nat.pow 2 64) 0 where
  back {n depth} small _ := if_pos small
  fits {n} small := by
    have range : (Number.integer n).Fits := by
      simp only [Number.Fits]
      omega
    exact .number range
  held {depth r n} _ _ read := by
    unfold natural at read
    split at read
    · split at read
      · rename_i small
        cases Except.ok.inj read
        exact ⟨small, Nat.zero_le _⟩
      · contradiction
    · contradiction

theorem choiceCodec {read : String → Option α} {token : α → String} (known : ∀ a, read (token a) = some a) :
    Codec (choice read) (fun a => .string (token a)) (fun _ => True) 0 where
  back {a depth} _ _ := by simp [choice, ofJson, known]
  fits _ := .string _
  held _ _ _ := ⟨trivial, Nat.zero_le _⟩

theorem stoppedOk {α : Type} {stop : Option Fault} {a b : α} (read : (stopped stop).map (fun _ => a) = .ok b) : a = b := by
  cases stop with
  | none => exact Except.ok.inj read
  | some fault => contradiction

theorem listItemsBack {as : List α} (each : ∀ a ∈ as, d depth (ofJson (render a)) = .ok a) :
    listItems d depth none (ofItems (as.map render)) = .ok as := by
  induction as with
  | nil => rfl
  | cons a as ih =>
    have rest := ih fun other mem => each other (List.mem_cons_of_mem _ mem)
    simp only [List.map_cons, ofItems, listItems, each a List.mem_cons_self, rest]
    rfl

theorem listItemsTaken {P : α → Prop} {items : List Reading} {stop : Option Fault} {found : List α}
    (each : ∀ item ∈ items, ∀ a, d depth item = .ok a → P a) (read : listItems d depth stop items = .ok found) :
    ∀ a ∈ found, P a := by
  induction items generalizing found with
  | nil =>
    cases stoppedOk read
    simp
  | cons item items ih =>
    unfold listItems at read
    cases here : d depth item with
    | error fault => simp [here] at read
    | ok a =>
      cases later : listItems d depth stop items with
      | error fault => simp [here, later, Except.map] at read
      | ok more =>
        simp only [here, later, Except.map, Except.ok.injEq] at read
        subst read
        have rest := ih (fun other mem => each other (List.mem_cons_of_mem _ mem)) later
        exact List.forall_mem_cons.mpr ⟨each item List.mem_cons_self a here, rest⟩

theorem Codec.list (codec : Codec d render held least) :
    Codec d.list (fun as => .array (as.map render)) (fun as => ∀ a ∈ as, held a) (least + 1) where
  back {as depth} good deep := by
    cases depth with
    | zero => simp [nesting] at deep
    | succ depth =>
      rw [arrayNesting, List.forall_mem_map] at deep
      exact listItemsBack fun a mem => codec.back (good a mem) (deep a mem)
  fits good := .array (List.forall_mem_map.mpr fun a mem => codec.fits (good a mem))
  held {depth r as} enough fits read := by
    obtain ⟨depth, rfl⟩ : ∃ more, depth = more + 1 := ⟨depth - 1, by omega⟩
    cases fits with
    | array inside =>
      have each := listItemsTaken (fun item mem a => codec.held (by omega) (inside item mem)) read
      refine ⟨fun a mem => (each a mem).1, ?_⟩
      rw [arrayNesting, List.forall_mem_map]
      exact fun a mem => (each a mem).2
    | _ => simp [Decoder.list] at read

theorem tableMembersBack {t : Table α} {entries : List (String × α)}
    (each : ∀ e ∈ entries, d depth (ofJson (render e.2)) = .ok e.2)
    (inOrder : (t.entries ++ entries).Pairwise fun a b => a.1 < b.1) :
    tableMembers d depth none t (ofMembers (entries.map fun e => (e.1, render e.2))) =
      .ok ⟨t.entries ++ entries, inOrder⟩ := by
  induction entries generalizing t with
  | nil =>
    simp only [List.append_nil]
    rfl
  | cons e entries ih =>
    obtain ⟨key, a⟩ := e
    have last : ∀ e ∈ t.entries, e.1 < key := fun e mem =>
      (List.pairwise_append.mp inOrder).2.2 e mem (key, a) List.mem_cons_self
    have here : d depth (ofJson (render a)) = .ok a := each (key, a) List.mem_cons_self
    have grown : (t.insert key a).entries = t.entries ++ [(key, a)] := insertEntryLast last
    have moved : t.entries ++ (key, a) :: entries = (t.insert key a).entries ++ entries := by simp [grown]
    simp only [List.map_cons, ofMembers, tableMembers, here]
    simp only [moved] at inOrder ⊢
    exact ih (fun other mem => each other (List.mem_cons_of_mem _ mem)) inOrder

theorem tableMembersTaken {P : α → Prop} {members : List (Except Fault String × Reading)} {stop : Option MemberFault}
    {t found : Table α} (each : ∀ m ∈ members, ∀ a, d depth m.2 = .ok a → P a) (before : ∀ e ∈ t.entries, P e.2)
    (read : tableMembers d depth stop t members = .ok found) : ∀ e ∈ found.entries, P e.2 := by
  induction members generalizing t with
  | nil =>
    cases stoppedOk read
    exact before
  | cons m members ih =>
    obtain ⟨key, r⟩ := m
    unfold tableMembers at read
    cases key with
    | error fault => contradiction
    | ok key =>
      cases here : d depth r with
      | error fault => simp [here] at read
      | ok a =>
        simp only [here] at read
        refine ih (fun other mem => each other (List.mem_cons_of_mem _ mem)) ?_ read
        intro e mem
        rcases memInsertEntry mem with rfl | old
        · exact each (.ok key, r) List.mem_cons_self a here
        · exact before e old

theorem Codec.table (codec : Codec d render held least) :
    Codec d.table (ofTable render) (fun t => ∀ e ∈ t.entries, held e.2) (least + 1) where
  back {t depth} good deep := by
    cases depth with
    | zero => simp [ofTable, nesting] at deep
    | succ depth =>
      rw [ofTable, objectNesting, List.forall_mem_map] at deep
      have inOrder : ((Table.empty : Table α).entries ++ t.entries).Pairwise fun a b => a.1 < b.1 := t.ascends
      exact tableMembersBack (fun e mem => codec.back (good e mem) (deep e mem)) inOrder
  fits good := .object (List.forall_mem_map.mpr fun e mem => codec.fits (good e mem))
  held {depth r t} enough fits read := by
    obtain ⟨depth, rfl⟩ : ∃ more, depth = more + 1 := ⟨depth - 1, by omega⟩
    cases fits with
    | object inside =>
      have each := tableMembersTaken (fun m mem a => codec.held (by omega) (inside m mem)) (by simp [Table.empty]) read
      refine ⟨fun e mem => (each e mem).1, ?_⟩
      rw [ofTable, objectNesting, List.forall_mem_map]
      exact fun e mem => (each e mem).2
    | _ => simp [Decoder.table] at read

theorem valueItemsList {items : List Reading} {stop : Option Fault} :
    valueItems depth stop items = listItems value depth stop items := by
  induction items with
  | nil => rfl
  | cons item items ih => cases here : value depth item <;> simp only [valueItems, listItems, here, ih]

theorem valueMembersTable {members : List (Except Fault String × Reading)} {stop : Option MemberFault} {t : Table Json} :
    valueMembers depth (stop.map (·.fault)) t.entries members =
      (tableMembers value depth stop t members).map (·.entries) := by
  induction members generalizing t with
  | nil =>
    cases stop with
    | none => rfl
    | some fault => rfl
  | cons m members ih =>
    obtain ⟨key, r⟩ := m
    cases key with
    | error fault => simp [valueMembers, tableMembers, Except.map]
    | ok key =>
      cases here : value depth r with
      | error fault => simp [valueMembers, tableMembers, here, Except.map]
      | ok j =>
        simp only [valueMembers, tableMembers, here]
        exact ih (t := t.insert key j)

theorem objectValue (stop : Option MemberFault) (members : List (Except Fault String × Reading)) :
    value (depth + 1) (.object members stop) =
      ((tableMembers value depth stop .empty members).map (·.entries)).map .object :=
  congrArg (Except.map Json.object) (valueMembersTable (t := .empty))

theorem arrayValue (stop : Option Fault) (items : List Reading) :
    value (depth + 1) (.array items stop) = (listItems value depth stop items).map .array :=
  congrArg (Except.map Json.array) valueItemsList

theorem valueBack {j : Json} (ascends : j.Ascends) (deep : j.nesting ≤ depth) : value depth (ofJson j) = .ok j := by
  induction ascends generalizing depth with
  | null => rfl
  | bool b => rfl
  | number n => rfl
  | string s => rfl
  | @array items _ ih =>
    cases depth with
    | zero => simp [nesting] at deep
    | succ depth =>
      have back : listItems value depth none (ofItems (items.map fun j => j)) = .ok items :=
        listItemsBack fun item mem => ih item mem (arrayNesting.mp deep item mem)
      rw [List.map_id'] at back
      rw [ofJson, arrayValue, back]
      rfl
  | @object members inOrder _ ih =>
    cases depth with
    | zero => simp [nesting] at deep
    | succ depth =>
      have each : ∀ m ∈ members, value depth (ofJson (id m.2)) = .ok m.2 :=
        fun m mem => ih m mem (objectNesting.mp deep m mem)
      have back := tableMembersBack (t := .empty) each inOrder
      simp only [id_eq, List.map_id'] at back
      rw [ofJson, objectValue, back]
      rfl

structure Taken (depth : Nat) (j : Json) : Prop where
  held : j.Held
  deep : j.nesting ≤ depth

theorem valueTaken {r : Reading} {j : Json} (fits : r.Fits) (read : value depth r = .ok j) : Taken depth j := by
  induction fits generalizing depth j with
  | null =>
    cases Except.ok.inj read
    exact ⟨⟨.null, .null⟩, Nat.zero_le _⟩
  | bool b =>
    cases Except.ok.inj read
    exact ⟨⟨.bool b, .bool b⟩, Nat.zero_le _⟩
  | @number n here =>
    cases n with
    | error fault => contradiction
    | ok n =>
      cases Except.ok.inj read
      exact ⟨⟨.number n, .number (here n rfl)⟩, Nat.zero_le _⟩
  | string s =>
    cases s with
    | error fault => contradiction
    | ok s =>
      cases Except.ok.inj read
      exact ⟨⟨.string s, .string s⟩, Nat.zero_le _⟩
  | @array items stop _ ih =>
    cases depth with
    | zero => simp [value] at read
    | succ depth =>
      rw [arrayValue] at read
      cases inside : listItems value depth stop items with
      | error fault => simp [inside, Except.map] at read
      | ok found =>
        simp only [inside, Except.map, Except.ok.injEq] at read
        subst read
        have each := listItemsTaken (fun item mem j => ih item mem) inside
        exact ⟨⟨.array fun j mem => (each j mem).held.ascends, .array fun j mem => (each j mem).held.fits⟩,
          arrayNesting.mpr fun j mem => (each j mem).deep⟩
  | @object members stop _ ih =>
    cases depth with
    | zero => simp [value] at read
    | succ depth =>
      rw [objectValue] at read
      cases inside : tableMembers value depth stop .empty members with
      | error fault => simp [inside, Except.map] at read
      | ok found =>
        simp only [inside, Except.map, Except.ok.injEq] at read
        subst read
        have each := tableMembersTaken (fun m mem j => ih m mem) (List.forall_mem_nil _) inside
        exact ⟨⟨.object found.ascends fun m mem => (each m mem).held.ascends,
          .object fun m mem => (each m mem).held.fits⟩, objectNesting.mpr fun m mem => (each m mem).deep⟩
  | broken => simp [value] at read

theorem valueCodec : Codec anyValue (fun j => j) Json.Held 0 where
  back good deep := valueBack good.ascends deep
  fits good := good.fits
  held _ fits read := ⟨(valueTaken fits read).held, (valueTaken fits read).deep⟩

end Decoder

namespace Record
open Reading Decoder
variable {α β σ τ : Type} {record : Record σ α} {depth : Nat}

inductive Fills (record : Record σ α) (depth : Nat) : σ → List (String × Json) → σ → Prop where
  | done (slots : σ) : Fills record depth slots [] slots
  | take {slots next last : σ} {key : String} {j : Json} {members : List (String × Json)}
      (here : record.field key depth (ofJson j) slots = some (.ok next)) (rest : Fills record depth next members last) :
      Fills record depth slots ((key, j) :: members) last

theorem Fills.read {slots last : σ} {members : List (String × Json)} (fills : Fills record depth slots members last) :
    record.readMembers depth none slots (ofMembers members) = record.finish last := by
  induction fills with
  | done => rfl
  | take here _ ih => simp only [ofMembers, readMembers, here, ih]

theorem Fills.append {slots next last : σ} {members more : List (String × Json)}
    (first : Fills record depth slots members next) (later : Fills record depth next more last) :
    Fills record depth slots (members ++ more) last := by
  induction first with
  | done => exact later
  | take here _ ih => exact .take here (ih later)

structure Invariant (record : Record σ α) (depth : Nat) (slots : σ → Prop) (P : α → Prop) : Prop where
  blank : slots record.blank
  field : ∀ {key r s t}, r.Fits → slots s → record.field key depth r s = some (.ok t) → slots t
  finish : ∀ {s a}, slots s → record.finish s = .ok a → P a
  inOrder : ∀ {stop items a rest}, (∀ item ∈ items, item.Fits) → record.inOrder depth stop items = .ok (a, rest) →
    P a ∧ ∀ item ∈ rest, item.Fits

theorem Invariant.readMembers {slots : σ → Prop} {P : α → Prop} (kept : Invariant record depth slots P) {s : σ} {a : α}
    {members : List (Except Fault String × Reading)} {stop : Option MemberFault} (inside : ∀ m ∈ members, m.2.Fits)
    (good : slots s) (read : record.readMembers depth stop s members = .ok a) : P a := by
  induction members generalizing s with
  | nil =>
    cases stop with
    | some stop => contradiction
    | none => exact kept.finish good read
  | cons m members ih =>
    have rest : ∀ m ∈ members, m.2.Fits := fun m mem => inside m (List.mem_cons_of_mem _ mem)
    obtain ⟨key, r⟩ := m
    unfold Record.readMembers at read
    split at read
    · contradiction
    · split at read
      · rename_i here
        exact ih rest (kept.field (inside _ List.mem_cons_self) good here) read
      · contradiction
      · split at read
        · contradiction
        · exact ih rest good read

theorem Invariant.read {slots : σ → Prop} {P : α → Prop} (kept : Invariant record depth slots P) {r : Reading} {a : α}
    (fits : r.Fits) (read : record.decoder (depth + 1) r = .ok a) : P a := by
  cases fits with
  | object inside => exact kept.readMembers inside kept.blank read
  | @array items stop inside =>
    cases front : record.inOrder depth stop items with
    | error fault => simp [Record.decoder, Decoder.enter, readItems, front, bind, Except.bind] at read
    | ok found =>
      obtain ⟨b, rest⟩ := found
      have good : P b := (kept.inOrder inside front).1
      simp only [Record.decoder, Decoder.enter, readItems, front, bind, Except.bind] at read
      cases rest with
      | nil =>
        cases stoppedOk read
        exact good
      | cons item rest => contradiction
  | _ => simp [Record.decoder] at read

structure Writes (record : Record σ α) (names : List String) (members : α → List (String × Json)) (held : α → Prop)
    (least : Nat) : Prop where
  named : ∀ {a m}, m ∈ members a → m.1 ∈ names
  unknown : ∀ {key depth r s}, key ∉ names → record.field key depth r s = none
  back : ∀ {a depth}, held a → (∀ m ∈ members a, m.2.nesting ≤ depth) →
    ∃ slots, Fills record depth record.blank (members a) slots ∧ record.finish slots = .ok a
  fits : ∀ {a}, held a → ∀ m ∈ members a, m.2.Numbers Number.Fits
  kept : ∀ {depth}, least ≤ depth →
    ∃ slots, Invariant record depth slots fun a => held a ∧ ∀ m ∈ members a, m.2.nesting ≤ depth

variable {names others : List String} {members : α → List (String × Json)} {more : β → List (String × Json)}
  {held : α → Prop} {also : β → Prop} {least lower : Nat}

theorem Writes.codec (writes : Writes record names members held least) :
    Codec record.decoder (fun a => .object (members a)) held (least + 1) where
  back {a depth} good deep := by
    cases depth with
    | zero => simp [nesting] at deep
    | succ depth =>
      obtain ⟨slots, fills, finished⟩ := writes.back good (objectNesting.mp deep)
      exact fills.read.trans finished
  fits good := .object (writes.fits good)
  held {depth r a} enough fits read := by
    obtain ⟨depth, rfl⟩ : ∃ more, depth = more + 1 := ⟨depth - 1, by omega⟩
    obtain ⟨slots, kept⟩ := writes.kept (show least ≤ depth by omega)
    obtain ⟨good, deep⟩ := kept.read fits read
    exact ⟨good, objectNesting.mpr deep⟩

theorem Fills.left {a : Record σ α} {b : Record τ β} {slots last : σ} {written : List (String × Json)}
    (fills : Fills a depth slots written last) (kept : τ) :
    Fills (both a b) depth (slots, kept) written (last, kept) := by
  induction fills with
  | done => exact .done _
  | take here _ ih => exact .take (by simp [both, here, Except.map]) ih

theorem Fills.right {a : Record σ α} {b : Record τ β} {slots last : τ} {written : List (String × Json)}
    (fills : Fills b depth slots written last) (kept : σ)
    (apart : ∀ m ∈ written, ∀ r, a.field m.1 depth r kept = none) :
    Fills (both a b) depth (kept, slots) written (kept, last) := by
  induction fills with
  | done => exact .done _
  | take here _ ih =>
    have other := apart _ List.mem_cons_self
    exact .take (by simp [both, here, other, Except.map]) (ih fun m mem => apart m (List.mem_cons_of_mem _ mem))

theorem Invariant.both {a : Record σ α} {b : Record τ β} {left : σ → Prop} {right : τ → Prop} {P : α → Prop}
    {Q : β → Prop} (one : Invariant a depth left P) (other : Invariant b depth right Q) :
    Invariant (both a b) depth (fun s => left s.1 ∧ right s.2) fun p => P p.1 ∧ Q p.2 where
  blank := ⟨one.blank, other.blank⟩
  field {key r s t} fits good taken := by
    simp only [Record.both] at taken
    split at taken
    · rename_i found here
      cases found with
      | error fault => simp [Except.map] at taken
      | ok found =>
        simp only [Except.map, Option.some.injEq, Except.ok.injEq] at taken
        subst taken
        exact ⟨one.field fits good.1 here, good.2⟩
    · obtain ⟨found, here, taken⟩ := Option.map_eq_some_iff.mp taken
      cases found with
      | error fault => simp [Except.map] at taken
      | ok found =>
        simp only [Except.map, Except.ok.injEq] at taken
        subst taken
        exact ⟨good.1, other.field fits good.2 here⟩
  finish {s p} good finished := by
    cases first : a.finish s.1 with
    | error fault => simp [Record.both, first, bind, Except.bind] at finished
    | ok x =>
      cases second : b.finish s.2 with
      | error fault => simp [Record.both, first, second, bind, Except.bind] at finished
      | ok y =>
        simp only [Record.both, first, second, bind, Except.bind, pure, Except.pure, Except.ok.injEq] at finished
        subst finished
        exact ⟨one.finish good.1 first, other.finish good.2 second⟩
  inOrder {stop items p rest} inside read := by
    cases first : a.inOrder depth stop items with
    | error fault => simp [Record.both, first, bind, Except.bind] at read
    | ok found =>
      obtain ⟨x, middle⟩ := found
      obtain ⟨goodLeft, inside⟩ := one.inOrder inside first
      cases second : b.inOrder depth stop middle with
      | error fault => simp [Record.both, first, second, bind, Except.bind] at read
      | ok found =>
        obtain ⟨y, rest⟩ := found
        obtain ⟨goodRight, inside⟩ := other.inOrder inside second
        simp only [Record.both, first, second, bind, Except.bind, pure, Except.pure, Except.ok.injEq,
          Prod.mk.injEq] at read
        obtain ⟨rfl, rfl⟩ := read
        exact ⟨⟨goodLeft, goodRight⟩, inside⟩

theorem Invariant.weaken {slots : σ → Prop} {P Q : α → Prop} (kept : Invariant record depth slots P)
    (weaker : ∀ a, P a → Q a) : Invariant record depth slots Q where
  blank := kept.blank
  field := kept.field
  finish good finished := weaker _ (kept.finish good finished)
  inOrder inside read := (kept.inOrder inside read).imp (weaker _) id

theorem Writes.both {a : Record σ α} {b : Record τ β} (one : Writes a names members held least)
    (other : Writes b others more also lower) (apart : ∀ name ∈ others, name ∉ names) :
    Writes (both a b) (names ++ others) (fun p => members p.1 ++ more p.2) (fun p => held p.1 ∧ also p.2)
      (max least lower) where
  named {p m} mem := by
    rcases List.mem_append.mp mem with left | right
    · exact List.mem_append_left _ (one.named left)
    · exact List.mem_append_right _ (other.named right)
  unknown {key depth r s} absent := by
    rw [List.mem_append, not_or] at absent
    simp [Record.both, one.unknown absent.1, other.unknown absent.2]
  back {p depth} good deep := by
    obtain ⟨left, right⟩ := List.forall_mem_append.mp deep
    obtain ⟨s, fillLeft, first⟩ := one.back good.1 left
    obtain ⟨t, fillRight, second⟩ := other.back good.2 right
    refine ⟨(s, t), (fillLeft.left _).append (fillRight.right s ?_), ?_⟩
    · exact fun m mem r => one.unknown (apart _ (other.named mem))
    · simp [Record.both, first, second, bind, Except.bind, pure, Except.pure]
  fits good := List.forall_mem_append.mpr ⟨one.fits good.1, other.fits good.2⟩
  kept {depth} enough := by
    obtain ⟨left, keptLeft⟩ := one.kept (show least ≤ depth by omega)
    obtain ⟨right, keptRight⟩ := other.kept (show lower ≤ depth by omega)
    exact ⟨_, (keptLeft.both keptRight).weaken fun p good =>
      ⟨⟨good.1.1, good.2.1⟩, List.forall_mem_append.mpr ⟨good.1.2, good.2.2⟩⟩⟩

theorem Fills.mapTo {slots last : σ} {written : List (String × Json)} (fills : Fills record depth slots written last)
    (f : α → β) : Fills (mapTo f record) depth slots written last := by
  induction fills with
  | done => exact .done _
  | take here _ ih => exact .take here ih

theorem Invariant.mapTo {slots : σ → Prop} {P : α → Prop} {Q : β → Prop} (kept : Invariant record depth slots P)
    {f : α → β} (taken : ∀ a, P a → Q (f a)) : Invariant (mapTo f record) depth slots Q where
  blank := kept.blank
  field := kept.field
  finish {s b} good finished := by
    cases first : record.finish s with
    | error fault => simp [Record.mapTo, first, Except.map] at finished
    | ok a =>
      simp only [Record.mapTo, first, Except.map, Except.ok.injEq] at finished
      subst finished
      exact taken a (kept.finish good first)
  inOrder {stop items b rest} inside read := by
    cases first : record.inOrder depth stop items with
    | error fault => simp [Record.mapTo, first, Except.map] at read
    | ok found =>
      obtain ⟨a, after⟩ := found
      simp only [Record.mapTo, first, Except.map, Except.ok.injEq, Prod.mk.injEq] at read
      obtain ⟨rfl, rfl⟩ := read
      exact (kept.inOrder inside first).imp (taken a) id

theorem Writes.mapTo (writes : Writes record names members held least) {f : α → β} (g : β → α)
    (there : ∀ b, f (g b) = b) (back : ∀ a, g (f a) = a) :
    Writes (mapTo f record) names (fun b => members (g b)) (fun b => held (g b)) least where
  named := writes.named
  unknown := writes.unknown
  back {b depth} good deep := by
    obtain ⟨slots, fills, finished⟩ := writes.back good deep
    exact ⟨slots, fills.mapTo f, by simp [Record.mapTo, finished, Except.map, there]⟩
  fits := writes.fits
  kept enough := by
    obtain ⟨slots, kept⟩ := writes.kept enough
    exact ⟨slots, kept.mapTo fun a good => by simpa only [back] using good⟩

structure Field (name : String) (d : Decoder α) (absent : Absent α) (members : α → List (String × Json))
    (held : α → Prop) (least : Nat) : Prop where
  back : ∀ {a depth}, held a → (∀ m ∈ members a, m.2.nesting ≤ depth) →
    members a = [] ∧ absent.inObject = some a ∨ ∃ j, members a = [(name, j)] ∧ d depth (ofJson j) = .ok a
  fits : ∀ {a}, held a → ∀ m ∈ members a, m.2.Numbers Number.Fits
  named : ∀ {a}, ∀ m ∈ members a, m.1 = name
  taken : ∀ {depth r a}, least ≤ depth → r.Fits → d depth r = .ok a → held a ∧ ∀ m ∈ members a, m.2.nesting ≤ depth
  missing : ∀ {a}, absent.inObject = some a ∨ absent.inArray = some a →
    held a ∧ ∀ m ∈ members a, m.2.nesting ≤ least

theorem givenOk {o : Option α} {a : α} (read : given o = .ok a) : o = some a := by
  cases o with
  | none => contradiction
  | some b =>
    cases Except.ok.inj read
    rfl

variable {name : String} {d : Decoder α} {absent : Absent α} {render : α → Json}

theorem Field.invariant (field : Field name d absent members held least) (enough : least ≤ depth) :
    Invariant (one name d absent) depth (fun slot => ∀ a, slot = some a → held a ∧ ∀ m ∈ members a, m.2.nesting ≤ depth)
      fun a => held a ∧ ∀ m ∈ members a, m.2.nesting ≤ depth where
  blank := by simp [one]
  field {key r slot t} fits _ taken := by
    simp only [one] at taken
    split at taken
    · cases slot with
      | some b => simp at taken
      | none =>
        cases read : d depth r with
        | error fault => simp [read, Except.map] at taken
        | ok b =>
          simp only [read, Except.map, Option.some.injEq, Except.ok.injEq] at taken
          subst taken
          intro a same
          cases same
          exact field.taken enough fits read
    · contradiction
  finish {slot a} good finished := by
    have found : (slot <|> absent.inObject) = some a := givenOk finished
    cases slot with
    | some b => exact good a (by simpa using found)
    | none =>
      obtain ⟨good, deep⟩ := field.missing (.inl (show absent.inObject = some a by simpa using found))
      exact ⟨good, fun m mem => Nat.le_trans (deep m mem) enough⟩
  inOrder {stop items a rest} inside read := by
    cases items with
    | nil =>
      cases stop with
      | some fault => simp [one] at read
      | none =>
        cases found : given absent.inArray with
        | error fault => simp [one, found, Except.map] at read
        | ok b =>
          simp only [one, found, Except.map, Except.ok.injEq, Prod.mk.injEq] at read
          obtain ⟨rfl, rfl⟩ := read
          obtain ⟨good, deep⟩ := field.missing (.inr (givenOk found))
          exact ⟨⟨good, fun m mem => Nat.le_trans (deep m mem) enough⟩, inside⟩
    | cons item items =>
      cases found : d depth item with
      | error fault => simp [one, found, Except.map] at read
      | ok b =>
        simp only [one, found, Except.map, Except.ok.injEq, Prod.mk.injEq] at read
        obtain ⟨rfl, rfl⟩ := read
        exact ⟨field.taken enough (inside item List.mem_cons_self) found,
          fun other mem => inside other (List.mem_cons_of_mem _ mem)⟩

theorem Field.writes (field : Field name d absent members held least) :
    Writes (one name d absent) [name] members held least where
  named mem := List.mem_singleton.mpr (field.named _ mem)
  unknown {key depth r s} other := by
    have ne : key ≠ name := fun same => other (List.mem_singleton.mpr same)
    simp [one, ne]
  back {a depth} good deep := by
    rcases field.back good deep with ⟨bare, known⟩ | ⟨j, written, read⟩
    · refine ⟨none, ?_, by simp [one, known, given]⟩
      rw [bare]
      exact .done _
    · refine ⟨some a, ?_, by simp [one, given]⟩
      rw [written]
      exact .take (by simp [one, read, Except.map]) (.done _)
  fits := field.fits
  kept enough := ⟨_, field.invariant enough⟩

theorem codecField (codec : Codec d render held least) (name : String)
    (missing : ∀ a, absent.inObject = some a ∨ absent.inArray = some a → held a ∧ (render a).nesting ≤ least) :
    Field name d absent (fun a => [(name, render a)]) held least where
  back good deep := .inr ⟨_, rfl, codec.back good (deep _ List.mem_cons_self)⟩
  fits good := List.forall_mem_singleton.mpr (codec.fits good)
  named := List.forall_mem_singleton.mpr rfl
  taken enough fits read := (codec.held enough fits read).imp id List.forall_mem_singleton.mpr
  missing known := (missing _ known).imp id List.forall_mem_singleton.mpr

theorem requiredField (codec : Codec d render held least) (name : String) :
    Field name d required (fun a => [(name, render a)]) held least :=
  codecField codec name fun a known => by simp [Record.required] at known

theorem listField (codec : Codec d render held least) (name : String) :
    Field name d.list (orElse []) (fun as => [(name, .array (as.map render))]) (fun as => ∀ a ∈ as, held a) (least + 1) := by
  refine codecField codec.list name fun as known => ?_
  have empty : as = [] := by
    simp only [orElse, Option.some.injEq, or_self] at known
    exact known.symm
  subst empty
  exact ⟨by simp, by simp [nesting, nestingItems]⟩

end Record
end Json
end Dialogue
