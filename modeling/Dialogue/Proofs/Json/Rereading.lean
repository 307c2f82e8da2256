import Dialogue.Proofs.Json.Tokens

/-! What is printed on several lines reads as what was printed. A reader takes a text apart as far as it goes, so each
printed value is read in front of any text that ends it, which is what stands behind it in an array, in an object and
at the end. -/
namespace Dialogue.Json
open Reading

variable {cs rest tail : List Char} {n : Number}

/- The text reads as the value, in front of any text that ends it. No character takes more than two units of fuel. -/
def Reads (text : List Char) (r : Reading) : Prop :=
  ∀ fuel tail, 2 * text.length < fuel → Ends tail →
    ∃ rest, value fuel (text ++ tail) = (r, some rest) ∧ skipSpace rest = skipSpace tail

theorem numberDecoded {depth : Nat} {r : Reading} (taken : Decoder.value depth r = .ok (.number n)) :
    r = .number (.ok n) := by
  cases r with
  | number found =>
    cases found with
    | error fault => contradiction
    | ok m =>
      cases Except.ok.inj taken
      rfl
  | null => simp [Decoder.value] at taken
  | bool b => simp [Decoder.value] at taken
  | string s => cases s <;> simp [Decoder.value, Except.map] at taken
  | array items stop =>
    cases depth with
    | zero => simp [Decoder.value] at taken
    | succ depth =>
      cases found : Decoder.valueItems depth stop items <;> simp [Decoder.value, found, Except.map] at taken
  | object members stop =>
    cases depth with
    | zero => simp [Decoder.value] at taken
    | succ depth =>
      cases found : Decoder.valueMembers depth (stop.map (·.fault)) [] members <;>
        simp [Decoder.value, found, Except.map] at taken
  | broken => simp [Decoder.value] at taken

theorem numberReads (rereads : n.Rereads) : Reads (numberText n) (.number (.ok n)) := by
  obtain ⟨r, rest, read, taken, blank⟩ := fromTextOk.mp rereads
  cases numberDecoded taken
  intro fuel tail enough ends
  obtain ⟨more, rfl⟩ : ∃ more, fuel = more + 1 := ⟨fuel - 1, by omega⟩
  have alone : value (2 * (numberText n).length + 2) (numberText n) = (.number (.ok n), some rest) := by
    simpa [ofText, toLine, compact] using read
  refine ⟨rest ++ tail, valueFrame ends alone more, ?_⟩
  rw [skipSpaceAppend, blank]
  rfl

theorem skipNewline (level : Nat) (cs : List Char) : skipSpace (newline level ++ cs) = skipSpace cs := by
  have blank : ∀ c ∈ newline level, isSpace c = true := by
    intro c mem
    rcases List.mem_cons.mp mem with rfl | inside
    · rfl
    · rw [List.eq_of_mem_replicate inside]
      rfl
  exact List.dropWhile_append_of_pos blank

theorem valueBlank {others : List Char} (same : skipSpace cs = skipSpace others) (fuel : Nat) :
    value fuel cs = value fuel others := by
  cases fuel with
  | zero => rfl
  | succ fuel => rw [value, value, same]

theorem valueStarts {fuel : Nat} {r : Reading} (read : value fuel cs = (r, some rest)) :
    ∃ c more, skipSpace cs = c :: more ∧ c ≠ ']' := by
  cases fuel with
  | zero => simp [value] at read
  | succ fuel =>
    cases first : skipSpace cs with
    | nil => simp [value, first] at read
    | cons c more =>
      refine ⟨c, more, rfl, ?_⟩
      rintro rfl
      simp [value, first] at read

theorem Reads.starts {text : List Char} {r : Reading} (reads : Reads text r) (tail : List Char) :
    ∃ c more, skipSpace (text ++ tail) = c :: more ∧ c ≠ ']' := by
  obtain ⟨rest, read, _⟩ := reads (2 * text.length + 1) [] (by omega) endsNil
  rw [List.append_nil] at read
  obtain ⟨c, more, first, other⟩ := valueStarts read
  exact ⟨c, more ++ tail, by simp [skipSpaceAppend, first], other⟩

theorem valueArray {fuel : Nat} {found : List Reading} {stop : Option Fault} {after : Option (List Char)}
    (inside : ∃ c more, skipSpace cs = c :: more ∧ c ≠ ']')
    (read : Reading.items fuel cs = ((found, stop), after)) :
    value (fuel + 1) ('[' :: cs) = (.array found stop, after) := by
  obtain ⟨c, more, first, other⟩ := inside
  have same : Reading.items fuel (c :: more) = Reading.items fuel cs := by
    cases fuel with
    | zero => rfl
    | succ fuel =>
      have blank : value fuel (c :: more) = value fuel cs := by
        refine valueBlank ?_ fuel
        rw [← first]
        exact List.dropWhile_idempotent _ _
      rw [Reading.items, Reading.items, blank]
  have bracket : skipSpace ('[' :: cs) = '[' :: cs := rfl
  simp [value, bracket, first, other, same, read]

theorem endsItems (level : Nat) (items : List Json) (tail : List Char) : Ends (indentedItems level items ++ tail) := by
  cases items with
  | nil => exact endsCons rfl (by decide) (by decide)
  | cons item items => exact endsCons rfl (by decide) (by decide)

theorem endsMembers (level : Nat) (members : List (String × Json)) (tail : List Char) :
    Ends (indentedMembers level members ++ tail) := by
  cases members with
  | nil => exact endsCons rfl (by decide) (by decide)
  | cons m members => exact endsCons rfl (by decide) (by decide)

theorem itemsRead {level : Nat} {items : List Json}
    (each : ∀ item ∈ items, Reads (indented (level + 1) item) (ofJson item)) {item : Json}
    (first : Reads (indented (level + 1) item) (ofJson item)) {fuel : Nat}
    (enough : 2 * (indented (level + 1) item ++ indentedItems level items).length + 1 < fuel) (tail : List Char) :
    Reading.items fuel (newline (level + 1) ++ (indented (level + 1) item ++ indentedItems level items ++ tail)) =
      ((ofItems (item :: items), none), some tail) := by
  induction items generalizing item fuel with
  | nil =>
    obtain ⟨more, rfl⟩ : ∃ more, fuel = more + 1 := ⟨fuel - 1, by omega⟩
    simp only [List.length_append] at enough
    obtain ⟨rest, read, after⟩ := first more (indentedItems level [] ++ tail) (by omega) (endsItems level [] tail)
    have bracket : skipSpace rest = ']' :: tail := by
      rw [after, indentedItems, List.append_assoc, skipNewline]
      rfl
    rw [Reading.items, valueBlank (skipNewline _ _), List.append_assoc, read]
    simp only [bracket]
    rfl
  | cons next items ih =>
    obtain ⟨more, rfl⟩ : ∃ more, fuel = more + 1 := ⟨fuel - 1, by omega⟩
    simp only [List.length_append] at enough
    obtain ⟨rest, read, after⟩ :=
      first more (indentedItems level (next :: items) ++ tail) (by omega) (endsItems level _ tail)
    have long : (indentedItems level (next :: items)).length =
        1 + ((newline (level + 1)).length + (indented (level + 1) next ++ indentedItems level items).length) := by
      simp [indentedItems]
      omega
    have room : 2 * (indented (level + 1) next ++ indentedItems level items).length + 1 < more := by omega
    have later := ih (fun item mem => each item (List.mem_cons_of_mem _ mem)) (each next List.mem_cons_self) room
    have comma : skipSpace rest = ',' :: (newline (level + 1) ++
        (indented (level + 1) next ++ indentedItems level items ++ tail)) := by
      rw [after, indentedItems]
      simp [skipSpace, isSpace]
    rw [Reading.items, valueBlank (skipNewline _ _), List.append_assoc, read]
    simp only [comma]
    rw [later]
    rfl

def memberText (level : Nat) (key : String) (value : Json) : List Char :=
  key.toList.flatMap escaped ++ '"' :: ':' :: ' ' :: indented (level + 1) value

theorem memberLong (level : Nat) (key : String) (value : Json) : (memberText level key value).length =
    (key.toList.flatMap escaped).length + 3 + (indented (level + 1) value).length := by
  simp [memberText]
  omega

theorem memberNamed {level : Nat} {key : String} {value : Json} {fuel : Nat}
    (enough : 2 * (memberText level key value).length < fuel) (tail : List Char) :
    readString fuel (memberText level key value ++ tail) =
      (.ok key, .ok (':' :: ' ' :: (indented (level + 1) value ++ tail))) := by
  have long := memberLong level key value
  rw [memberText, List.append_assoc, List.cons_append, stringRead (by omega)]
  simp

theorem memberValued {level : Nat} {key : String} {value : Json}
    (reads : Reads (indented (level + 1) value) (ofJson value)) {fuel : Nat}
    (enough : 2 * (memberText level key value).length < fuel) (ends : Ends tail) :
    ∃ rest, Reading.value fuel (' ' :: (indented (level + 1) value ++ tail)) = (ofJson value, some rest) ∧
      skipSpace rest = skipSpace tail := by
  have long := memberLong level key value
  obtain ⟨rest, read, after⟩ := reads fuel tail (by omega) ends
  have blank : skipSpace (' ' :: (indented (level + 1) value ++ tail)) = skipSpace (indented (level + 1) value ++ tail) :=
    rfl
  exact ⟨rest, by rw [valueBlank blank, read], after⟩

theorem colonSpace (cs : List Char) : skipSpace (':' :: cs) = ':' :: cs := rfl

theorem memberLast {level : Nat} {key : String} {value : Json}
    (reads : Reads (indented (level + 1) value) (ofJson value)) {fuel : Nat}
    (enough : 2 * (memberText level key value).length < fuel) (ends : Ends tail) (last : skipSpace tail = '}' :: rest) :
    Reading.members (fuel + 1) (memberText level key value ++ tail) =
      (([(.ok key, ofJson value)], none), some rest) := by
  obtain ⟨behind, read, after⟩ := memberValued reads enough ends
  rw [Reading.members, memberNamed enough]
  simp only [colonSpace, read, after, last]

theorem memberNext {level : Nat} {key : String} {value : Json}
    (reads : Reads (indented (level + 1) value) (ofJson value)) {fuel : Nat}
    (enough : 2 * (memberText level key value).length < fuel) (ends : Ends tail) {more : List Char}
    (comma : skipSpace tail = ',' :: more) (quote : skipSpace more = '"' :: rest)
    {found : List (Except Fault String × Reading)} {stop : Option MemberFault} {after : Option (List Char)}
    (later : Reading.members fuel rest = ((found, stop), after)) :
    Reading.members (fuel + 1) (memberText level key value ++ tail) =
      (((.ok key, ofJson value) :: found, stop), after) := by
  obtain ⟨behind, read, blank⟩ := memberValued reads enough ends
  rw [Reading.members, memberNamed enough]
  simp only [colonSpace, read, blank, comma, quote, later]

theorem membersRead {level : Nat} {members : List (String × Json)}
    (each : ∀ m ∈ members, Reads (indented (level + 1) m.2) (ofJson m.2)) {key : String} {value : Json}
    (first : Reads (indented (level + 1) value) (ofJson value)) {fuel : Nat}
    (enough : 2 * (memberText level key value ++ indentedMembers level members).length + 1 < fuel) (tail : List Char) :
    Reading.members fuel (memberText level key value ++ (indentedMembers level members ++ tail)) =
      ((ofMembers ((key, value) :: members), none), some tail) := by
  induction members generalizing key value fuel with
  | nil =>
    obtain ⟨more, rfl⟩ : ∃ more, fuel = more + 1 := ⟨fuel - 1, by omega⟩
    simp only [List.length_append] at enough
    have brace : skipSpace (indentedMembers level [] ++ tail) = '}' :: tail := by
      rw [indentedMembers, List.append_assoc, skipNewline]
      rfl
    rw [memberLast first (by omega) (endsMembers level [] tail) brace]
    rfl
  | cons m members ih =>
    obtain ⟨more, rfl⟩ : ∃ more, fuel = more + 1 := ⟨fuel - 1, by omega⟩
    obtain ⟨name, next⟩ := m
    simp only [List.length_append] at enough
    have text : indentedMembers level ((name, next) :: members) ++ tail = ',' :: (newline (level + 1) ++
        '"' :: (memberText level name next ++ (indentedMembers level members ++ tail))) := by
      simp [indentedMembers, quoted, memberText]
    have long := congrArg List.length text
    simp only [List.length_append, List.length_cons] at long
    have room : 2 * (memberText level name next ++ indentedMembers level members).length + 1 < more := by
      simp only [List.length_append]
      omega
    have later := ih (fun m mem => each m (List.mem_cons_of_mem _ mem)) (each (name, next) List.mem_cons_self) room
    generalize memberText level name next ++ (indentedMembers level members ++ tail) = behind at text later
    have comma : skipSpace (indentedMembers level ((name, next) :: members) ++ tail) =
        ',' :: (newline (level + 1) ++ '"' :: behind) := by
      rw [text]
      rfl
    have quote : skipSpace (newline (level + 1) ++ '"' :: behind) = '"' :: behind := by
      rw [skipNewline]
      rfl
    rw [memberNext first (by omega) (endsMembers level _ tail) comma quote later]
    rfl

theorem wordReads {text : List Char} {r : Reading}
    (read : ∀ fuel tail, value (fuel + 1) (text ++ tail) = (r, some tail)) : Reads text r := by
  intro fuel tail enough _
  obtain ⟨more, rfl⟩ : ∃ more, fuel = more + 1 := ⟨fuel - 1, by omega⟩
  exact ⟨tail, read more tail, rfl⟩

theorem treeReads {j : Json} (numbers : j.Numbers Number.Rereads) (level : Nat) :
    Reads (indented level j) (ofJson j) := by
  induction numbers generalizing level with
  | null =>
    apply wordReads
    intro fuel tail
    rfl
  | bool b =>
    cases b <;>
    · apply wordReads
      intro fuel tail
      rfl
  | number here => exact numberReads here
  | string s =>
    intro fuel tail enough _
    obtain ⟨more, rfl⟩ : ∃ more, fuel = more + 1 := ⟨fuel - 1, by omega⟩
    simp only [indented, quoted, List.length_cons, List.length_append] at enough
    refine ⟨tail, ?_, rfl⟩
    have text : indented level (.string s) ++ tail = '"' :: (s.toList.flatMap escaped ++ '"' :: tail) := by
      simp [indented, quoted]
    have quote : skipSpace ('"' :: (s.toList.flatMap escaped ++ '"' :: tail)) =
      '"' :: (s.toList.flatMap escaped ++ '"' :: tail) := rfl
    have read : readString more (s.toList.flatMap escaped ++ '"' :: tail) = (.ok s, .ok tail) := stringRead (by omega)
    simp [text, value, quote, read, ofJson]
  | @array items _ ih =>
    cases items with
    | nil =>
      apply wordReads
      intro fuel tail
      rfl
    | cons item items =>
      intro fuel tail enough _
      obtain ⟨more, rfl⟩ : ∃ more, fuel = more + 1 := ⟨fuel - 1, by omega⟩
      have first := ih item List.mem_cons_self (level + 1)
      have text : indented level (.array (item :: items)) ++ tail =
          '[' :: (newline (level + 1) ++ (indented (level + 1) item ++ indentedItems level items ++ tail)) := by
        simp [indented]
      simp only [indented, List.length_cons, List.length_append] at enough
      have room : 2 * (indented (level + 1) item ++ indentedItems level items).length + 1 < more := by
        simp only [List.length_append]
        omega
      have read := itemsRead (fun item mem => ih item (List.mem_cons_of_mem _ mem) (level + 1)) first room tail
      refine ⟨tail, ?_, rfl⟩
      rw [text, valueArray ?_ read, ofJson]
      rw [skipNewline, List.append_assoc]
      exact first.starts _
  | @object members _ ih =>
    cases members with
    | nil =>
      apply wordReads
      intro fuel tail
      rfl
    | cons m members =>
      obtain ⟨key, value⟩ := m
      intro fuel tail enough _
      obtain ⟨more, rfl⟩ : ∃ more, fuel = more + 1 := ⟨fuel - 1, by omega⟩
      have first := ih (key, value) List.mem_cons_self (level + 1)
      have text : indented level (.object ((key, value) :: members)) ++ tail = '{' :: (newline (level + 1) ++
          '"' :: (memberText level key value ++ (indentedMembers level members ++ tail))) := by
        simp [indented, quoted, memberText]
      have long := congrArg List.length text
      simp only [List.length_cons, List.length_append] at long
      have room : 2 * (memberText level key value ++ indentedMembers level members).length + 1 < more := by
        simp only [List.length_append]
        omega
      have read := membersRead (fun m mem => ih m (List.mem_cons_of_mem _ mem) (level + 1)) first room tail
      refine ⟨tail, ?_, rfl⟩
      have brace : ∀ cs, skipSpace ('{' :: cs) = '{' :: cs := fun _ => rfl
      have quote : ∀ cs, skipSpace ('"' :: cs) = '"' :: cs := fun _ => rfl
      simp [text, Reading.value, brace, skipNewline, quote, read, ofJson]

theorem linesRead {j : Json} (numbers : j.Numbers Number.Rereads) :
    ∃ rest, ofText j.toLines = (ofJson j, some rest) ∧ skipSpace rest = [] := by
  obtain ⟨rest, read, blank⟩ := treeReads numbers 0 (2 * (indented 0 j).length + 2) [] (by omega) endsNil
  rw [List.append_nil] at read
  exact ⟨rest, by simpa [ofText, toLines] using read, blank⟩

end Dialogue.Json
