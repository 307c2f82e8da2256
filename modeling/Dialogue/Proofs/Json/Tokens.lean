import Mathlib.Data.List.DropRight
import Mathlib.Data.List.TakeDrop
import Dialogue.Proofs.Json.Trees

/-! Numbers and strings as they are printed and read. A number that is read on its own is read as the same number in
front of any text that does not go on with it (`valueFrame`). That the token of a double is read as the double is
asked of each one (`Number.Rereads`). -/
namespace Dialogue

def Number.Rereads (n : Number) : Prop := Json.Decoder.anyValue.fromText (Json.toLine (.number n)) = .ok (.number n)

instance (n : Number) : Decidable n.Rereads := inferInstanceAs (Decidable (_ = _))

/- Scaling rounds twice, which some doubles do not come through. -/
example : ¬ (Number.double 15065.227597074787).Rereads := by decide +kernel

namespace Json
open Reading

def Ends (tail : List Char) : Prop := ∀ c ∈ tail.head?, c.isDigit = false ∧ c ≠ '.' ∧ c ≠ 'e' ∧ c ≠ 'E'

theorem endsNil : Ends [] := by simp [Ends]

theorem endsCons {c : Char} {rest : List Char} (digit : c.isDigit = false) (point : c ≠ '.') (power : c ≠ 'e' ∧ c ≠ 'E') :
    Ends (c :: rest) := by
  simp [Ends, digit, point, power]

variable {cs rest tail : List Char} {n : Number} {negative : Bool}

theorem leadingSplit (cs : List Char) :
    Decimal.leadingDigits cs = (cs.takeWhile Char.isDigit, cs.dropWhile Char.isDigit) := by
  rw [Decimal.leadingDigits, List.span_eq_takeWhile_dropWhile]

theorem endsDigits (ends : Ends tail) : tail.takeWhile Char.isDigit = [] ∧ tail.dropWhile Char.isDigit = tail := by
  cases tail with
  | nil => exact ⟨rfl, rfl⟩
  | cons c rest =>
    have stops : c.isDigit = false := (ends c rfl).1
    simp [stops]

theorem leadingFrame (ends : Ends tail) {digits : List Char} (leads : Decimal.leadingDigits cs = (digits, rest)) :
    Decimal.leadingDigits (cs ++ tail) = (digits, rest ++ tail) := by
  obtain ⟨none, all⟩ := endsDigits ends
  induction cs generalizing digits with
  | nil =>
    simp only [leadingSplit, List.takeWhile_nil, List.dropWhile_nil, Prod.mk.injEq] at leads
    obtain ⟨rfl, rfl⟩ := leads
    simp [leadingSplit, none, all]
  | cons c cs ih =>
    rw [leadingSplit] at leads
    cases digit : c.isDigit with
    | false =>
      simp only [List.takeWhile_cons, digit, List.dropWhile_cons, Prod.mk.injEq] at leads
      obtain ⟨rfl, rfl⟩ := leads
      simp [leadingSplit, digit]
    | true =>
      simp only [List.takeWhile_cons, digit, List.dropWhile_cons, Prod.mk.injEq] at leads
      obtain ⟨rfl, rfl⟩ := leads
      have more := ih (leadingSplit cs)
      rw [leadingSplit] at more
      simpa [leadingSplit, digit] using more

theorem signFrame (some : cs ≠ []) :
    Numeral.readSign (cs ++ tail) = ((Numeral.readSign cs).1, (Numeral.readSign cs).2 ++ tail) := by
  cases cs with
  | nil => contradiction
  | cons c cs =>
    by_cases minus : c = '-'
    · subst minus
      rfl
    · by_cases plus : c = '+'
      · subst plus
        rfl
      · simp [Numeral.readSign, minus, plus]

theorem powerFrame (ends : Ends tail) {p : Int} (read : readPower cs = .ok (p, rest)) :
    readPower (cs ++ tail) = .ok (p, rest ++ tail) := by
  have some : cs ≠ [] := by
    rintro rfl
    nomatch read
  unfold readPower at read ⊢
  rw [signFrame some]
  cases leads : Decimal.leadingDigits (Numeral.readSign cs).2 with
  | mk digits after =>
    have frame := leadingFrame ends leads
    simp only [leads, frame] at read ⊢
    cases digits with
    | nil => cases after <;> contradiction
    | cons d ds =>
      simp only [Except.ok.injEq, Prod.mk.injEq] at read ⊢
      exact ⟨read.1, by rw [read.2]⟩

theorem tailFrame (ends : Ends tail) {found : NumberTail} (read : readTail cs = .ok found) :
    readTail (cs ++ tail) = .ok { found with rest := found.rest ++ tail } := by
  cases cs with
  | nil =>
    cases Except.ok.inj read
    cases tail with
    | nil => rfl
    | cons c tail =>
      obtain ⟨-, point, power⟩ := ends c rfl
      simp [readTail, power]
  | cons c cs =>
    by_cases point : c = '.'
    · subst point
      cases leads : Decimal.leadingDigits cs with
      | mk digits after =>
        have frame := leadingFrame ends leads
        simp only [readTail, List.cons_append, leads, frame] at read ⊢
        cases digits with
        | nil => cases after <;> contradiction
        | cons d ds =>
          cases after with
          | nil =>
            cases Except.ok.inj read
            cases tail with
            | nil => rfl
            | cons c tail =>
              obtain ⟨-, -, power⟩ := ends c rfl
              simp [power]
          | cons c after =>
            dsimp only [List.cons_append] at read ⊢
            split at read
            · rename_i power
              rw [if_pos power]
              cases scale : readPower after with
              | error fault =>
                rw [scale] at read
                contradiction
              | ok found =>
                rw [scale] at read
                cases Except.ok.inj read
                rw [powerFrame ends scale]
                rfl
            · rename_i power
              cases Except.ok.inj read
              rw [if_neg power]
              rfl
    · simp only [readTail, List.cons_append] at read ⊢
      split at read
      · rename_i power
        rw [if_pos power]
        cases scale : readPower cs with
        | error fault =>
          rw [scale] at read
          contradiction
        | ok found =>
          rw [scale] at read
          cases Except.ok.inj read
          rw [powerFrame ends scale]
          rfl
      · rename_i power
        cases Except.ok.inj read
        rw [if_neg power]
        rfl

structure Whole (whole : List Char) : Prop where
  some : whole ≠ []
  plain : ∀ d ds, whole ≠ '0' :: d :: ds

theorem readNumberLeads {whole after : List Char} (fine : Whole whole)
    (leads : Decimal.leadingDigits cs = (whole, after)) {found : NumberTail} (scan : readTail after = .ok found) :
    readNumber negative cs = (.number (numberOf negative whole found), Option.some found.rest) := by
  simp only [readNumber, leads]
  split
  · rename_i same
    exact absurd (congrArg Prod.fst same) fine.some
  · rename_i same
    exact absurd (congrArg Prod.fst same) fine.some
  · rename_i same
    exact absurd (congrArg Prod.fst same) (fine.plain _ _)
  · rename_i same
    cases same
    rw [scan]

theorem readNumberInverted {found : Except Fault Number}
    (read : readNumber negative cs = (.number found, Option.some rest)) :
    ∃ whole after t, Decimal.leadingDigits cs = (whole, after) ∧ Whole whole ∧ readTail after = .ok t ∧
      found = numberOf negative whole t ∧ rest = t.rest := by
  unfold readNumber at read
  split at read
  · simp [cut] at read
  · simp [cut] at read
  · simp [cut] at read
  · rename_i whole after none some plain leads
    cases scan : readTail after with
    | error fault => simp [scan, cut] at read
    | ok t =>
      simp only [scan, Prod.mk.injEq, Reading.number.injEq, Option.some.injEq] at read
      exact ⟨whole, after, t, leads, ⟨fun empty => some empty, fun d ds same => plain d ds same⟩, scan, read.1.symm,
        read.2.symm⟩

theorem numberFrame (ends : Ends tail) {found : Except Fault Number}
    (read : readNumber negative cs = (.number found, some rest)) :
    readNumber negative (cs ++ tail) = (.number found, some (rest ++ tail)) := by
  obtain ⟨whole, after, t, leads, fine, scan, rfl, rfl⟩ := readNumberInverted read
  exact readNumberLeads fine (leadingFrame ends leads) (tailFrame ends scan)

theorem valueMinus {fuel : Nat} (first : skipSpace cs = '-' :: rest) : value (fuel + 1) cs = readNumber true rest := by
  simp [value, first]

theorem digitIsNot {c d : Char} (digit : c.isDigit = true) (other : d.isDigit = false) : c ≠ d := by
  rintro rfl
  simp [digit] at other

theorem digitFirst {c : Char} (digit : c.isDigit = true) : skipSpace (c :: rest) = c :: rest := by
  have no : ∀ d : Char, d.isDigit = false → c ≠ d := fun _ => digitIsNot digit
  simp [skipSpace, isSpace, no ' ' rfl, no '\n' rfl, no '\t' rfl, no '\r' rfl]

theorem valueDigit {fuel : Nat} {c : Char} (first : skipSpace cs = c :: rest) (digit : c.isDigit = true) :
    value (fuel + 1) cs = readNumber false (c :: rest) := by
  have no : ∀ d : Char, d.isDigit = false → c ≠ d := fun _ => digitIsNot digit
  simp [value, first, digit, no 'n' rfl, no 't' rfl, no 'f' rfl, no '"' rfl, no '-' rfl]

theorem wordNotNumber {known : Reading} (word : ∀ n, known ≠ .number n) (letters : List Char)
    {found : Except Fault Number} {after : Option (List Char)} :
    readWord known letters cs ≠ (.number found, after) := by
  induction letters generalizing cs with
  | nil => simp [readWord, word]
  | cons w letters ih =>
    cases cs with
    | nil => simp [readWord, cut]
    | cons c cs =>
      unfold readWord
      split
      · exact ih
      · simp [cut]

theorem valueNumber {fuel : Nat} {found : Except Fault Number}
    (read : value (fuel + 1) cs = (.number found, some rest)) :
    (∃ body, skipSpace cs = '-' :: body ∧ readNumber true body = (.number found, some rest)) ∨
      ∃ c body, skipSpace cs = c :: body ∧ c.isDigit = true ∧
        readNumber false (c :: body) = (.number found, some rest) := by
  unfold value at read
  split at read
  · simp [missing] at read
  · rename_i c body first
    split at read
    · exact absurd read (wordNotNumber (by simp) _)
    split at read
    · exact absurd read (wordNotNumber (by simp) _)
    split at read
    · exact absurd read (wordNotNumber (by simp) _)
    split at read
    · split at read
      · simp at read
      · split at read <;> simp [missing] at read
    split at read
    · rename_i minus
      exact .inl ⟨body, minus ▸ first, read⟩
    split at read
    · rename_i digit
      exact .inr ⟨c, body, first, digit, read⟩
    split at read
    · split at read <;> simp at read
    split at read
    · split at read <;> simp at read
    · simp [missing] at read

theorem skipSpaceAppend (tail : List Char) : skipSpace (cs ++ tail) =
    if (skipSpace cs).isEmpty then skipSpace tail else skipSpace cs ++ tail :=
  List.dropWhile_append

theorem valueFrame {fuel : Nat} (ends : Ends tail) {found : Except Fault Number}
    (read : value (fuel + 1) cs = (.number found, some rest)) (more : Nat) :
    value (more + 1) (cs ++ tail) = (.number found, some (rest ++ tail)) := by
  rcases valueNumber read with ⟨body, first, number⟩ | ⟨c, body, first, digit, number⟩
  · have after : skipSpace (cs ++ tail) = '-' :: (body ++ tail) := by
      rw [skipSpaceAppend]
      simp [first]
    rw [valueMinus after, numberFrame ends number]
  · have after : skipSpace (cs ++ tail) = c :: (body ++ tail) := by
      rw [skipSpaceAppend]
      simp [first]
    rw [valueDigit after digit, ← List.cons_append, numberFrame ends number]

theorem fromTextOk {α : Type} {d : Decoder α} {text : String} {a : α} :
    d.fromText text = .ok a ↔
      ∃ r rest, ofText text = (r, some rest) ∧ d depthLimit r = .ok a ∧ skipSpace rest = [] := by
  unfold Decoder.fromText
  constructor
  · intro ok
    split at ok
    rename_i r rest read
    split at ok
    · contradiction
    · rename_i b taken
      split at ok
      · rename_i blank
        obtain ⟨after, rfl, bare⟩ := Option.map_eq_some_iff.mp blank
        exact ⟨r, after, read, ok ▸ taken, bare⟩
      · contradiction
  · rintro ⟨r, rest, read, taken, blank⟩
    simp [read, taken, blank]

theorem digitsOf {m : Nat} {c : Char} (mem : c ∈ Nat.toDigits 10 m) : c.isDigit = true :=
  Nat.isDigit_of_mem_toDigits (by decide) (by decide) mem

theorem leadingAll {m : Nat} : Decimal.leadingDigits (Nat.toDigits 10 m) = (Nat.toDigits 10 m, []) := by
  have digits : ∀ c ∈ Nat.toDigits 10 m, c.isDigit = true := fun c mem => digitsOf mem
  have split : Decimal.leadingDigits (Nat.toDigits 10 m ++ []) = (Nat.toDigits 10 m, []) := by
    rw [leadingSplit, List.takeWhile_append_of_pos digits, List.dropWhile_append_of_pos digits]
    simp
  rwa [List.append_nil] at split

theorem firstDigit {m : Nat} (some : 0 < m) : ∃ c cs, Nat.toDigits 10 m = c :: cs ∧ c ≠ '0' := by
  induction m using Nat.strongRecOn with
  | _ m ih =>
    rcases Nat.lt_or_ge m 10 with small | large
    · rw [Nat.toDigits_of_lt_base small]
      have digit : ∀ k < 10, 0 < k → Nat.digitChar k ≠ '0' := by decide
      exact ⟨_, [], rfl, digit m small some⟩
    · obtain ⟨c, cs, leads, other⟩ := ih (m / 10) (by omega) (by omega)
      rw [Nat.toDigits_of_base_le (by decide) large, leads]
      exact ⟨c, _, rfl, other⟩

theorem wholeDigits (m : Nat) : Whole (Nat.toDigits 10 m) where
  some := Nat.toDigits_ne_nil
  plain d ds same := by
    rcases Nat.eq_zero_or_pos m with rfl | some
    · simp [Nat.toDigits_zero] at same
    · obtain ⟨c, cs, leads, other⟩ := firstDigit some
      rw [leads, List.cons.injEq] at same
      exact other same.1

theorem valueGrows (cs : List Char) (m : Nat) : m ≤ Nat.ofDigitChars 10 cs m := by
  induction cs generalizing m with
  | nil => simp
  | cons c cs ih =>
    rw [Nat.ofDigitChars_cons]
    have more := ih (10 * m + (c.toNat - '0'.toNat))
    omega

theorem extendAll {m : Nat} (fits : Nat.ofDigitChars 10 cs m < Decimal.wordSize) :
    Decimal.extend m cs = (Nat.ofDigitChars 10 cs m, 0) := by
  induction cs generalizing m with
  | nil => simp [Decimal.extend]
  | cons c cs ih =>
    rw [Nat.ofDigitChars_cons] at fits ⊢
    have room : 10 * m + (c.toNat - '0'.toNat) < Decimal.wordSize :=
      Nat.lt_of_le_of_lt (valueGrows cs _) fits
    simp only [Decimal.extend, Decimal.digitValue, room, if_true]
    exact ih fits

theorem digitsRead {m : Nat} {i : Int} (fits : m < Nat.pow 2 64) (whole : integerOf negative m = some i) :
    readNumber negative (Nat.toDigits 10 m) = (.number (.ok (.integer i)), some []) := by
  have counted : Decimal.extend 0 (Nat.toDigits 10 m) = (m, 0) := by
    have value : Nat.ofDigitChars 10 (Nat.toDigits 10 m) 0 = m := Nat.ofDigitChars_ten_toDigits
    rw [extendAll (by rw [value]; exact fits), value]
  have leading : Decimal.leading (Nat.toDigits 10 m) [] 0 = ⟨m, 0⟩ := by
    simp [Decimal.leading, counted, Decimal.extend]
  have scan : readTail [] = .ok ⟨[], 0, true, []⟩ := rfl
  rw [readNumberLeads (wholeDigits m) leadingAll scan]
  simp [numberOf, leading, whole]

theorem integerRereads {i : Int} (fits : (Number.integer i).Fits) : (Number.integer i).Rereads := by
  refine fromTextOk.mpr ⟨.number (.ok (.integer i)), [], ?_, rfl, rfl⟩
  rw [ofText, toLine, String.toList_ofList, compact, numberText]
  obtain ⟨low, high⟩ := fits
  cases i with
  | ofNat m =>
    rw [Int.ofNat_eq_natCast] at high
    have small : m < Nat.pow 2 64 := Int.ofNat_lt.mp high
    have whole : integerOf false m = some (m : Int) := by
      simp only [integerOf, if_neg Bool.false_ne_true]
      exact if_pos small
    have read := digitsRead small whole
    rw [integerText]
    cases digits : Nat.toDigits 10 m with
    | nil => exact absurd digits Nat.toDigits_ne_nil
    | cons c cs =>
      have digit : c.isDigit = true := digitsOf (digits ▸ List.mem_cons_self)
      rw [valueDigit (digitFirst digit) digit, ← digits, read]
      rfl
  | negSucc m =>
    have small : m + 1 ≤ Nat.pow 2 63 := by omega
    have whole : integerOf true (m + 1) = some (Int.negSucc m) := by
      simp only [integerOf, if_true]
      exact if_pos ⟨Nat.succ_ne_zero m, small⟩
    have first : skipSpace ('-' :: Nat.toDigits 10 (m + 1)) = '-' :: Nat.toDigits 10 (m + 1) := rfl
    have word : m + 1 < Nat.pow 2 64 := Nat.lt_of_le_of_lt small (by decide)
    rw [integerText, valueMinus first, digitsRead word whole]

structure Stands (c : Char) (p : Piece) : Prop where
  read : ∀ fuel rest, pieces (fuel + 1) (escaped c ++ rest) = (p :: (pieces fuel rest).1, (pieces fuel rest).2)
  meant : ∀ more, text none (p :: more) = (text none more).map (c :: ·)

theorem hexRead {d : Nat} (small : d < 16) : hexValue? (hexDigit d) = some d := by
  have all : ∀ d < 16, hexValue? (hexDigit d) = some d := by decide
  exact all d small

theorem ofCode {c : Char} {code : Nat} (coded : c.toNat = code) : c = Char.ofNat code := by
  rw [← coded, Char.ofNat_toNat]

theorem controlStands {c : Char} (control : c.toNat < 32)
    (text : escaped c = ['\\', 'u', '0', '0', hexDigit (c.toNat / 16), hexDigit (c.toNat % 16)]) :
    Stands c (.unit c.toNat) where
  read fuel rest := by
    have high : hexValue? (hexDigit (c.toNat / 16)) = some (c.toNat / 16) := hexRead (by omega)
    have low : hexValue? (hexDigit (c.toNat % 16)) = some (c.toNat % 16) := hexRead (by omega)
    have zero : hexValue? '0' = some 0 := rfl
    have code : c.toNat / 16 * 16 + c.toNat % 16 = c.toNat := by omega
    simp [text, pieces, fourHex, high, low, zero, code]
  meant more := by
    have single : isTrailing c.toNat = false ∧ isLeading c.toNat = false := by
      simp only [isTrailing, isLeading, Bool.and_eq_false_iff, decide_eq_false_iff_not]
      omega
    rw [Reading.text.eq_def]
    simp only [single.1, single.2, Bool.false_eq_true, if_false, Char.ofNat_toNat]

theorem stands (c : Char) : ∃ p, Stands c p := by
  by_cases quote : c = '"'
  · subst quote
    exact ⟨.char _, fun _ _ => rfl, fun _ => rfl⟩
  by_cases slash : c = '\\'
  · subst slash
    exact ⟨.char _, fun _ _ => rfl, fun _ => rfl⟩
  by_cases back : c.toNat = 8
  · cases ofCode back
    exact ⟨.char _, fun _ _ => rfl, fun _ => rfl⟩
  by_cases tab : c = '\t'
  · subst tab
    exact ⟨.char _, fun _ _ => rfl, fun _ => rfl⟩
  by_cases line : c = '\n'
  · subst line
    exact ⟨.char _, fun _ _ => rfl, fun _ => rfl⟩
  by_cases form : c.toNat = 12
  · cases ofCode form
    exact ⟨.char _, fun _ _ => rfl, fun _ => rfl⟩
  by_cases feed : c = '\r'
  · subst feed
    exact ⟨.char _, fun _ _ => rfl, fun _ => rfl⟩
  by_cases control : c.toNat < 32
  · refine ⟨.unit c.toNat, controlStands control ?_⟩
    simp [escaped, quote, slash, back, tab, line, form, feed, control]
  · refine ⟨.char c, fun fuel rest => ?_, fun _ => rfl⟩
    simp [escaped, quote, slash, back, tab, line, form, feed, control, pieces]

theorem escapedSome (c : Char) : 0 < (escaped c).length := by
  fun_cases escaped c <;> simp

theorem piecesRead {fuel : Nat} (enough : (cs.flatMap escaped).length < fuel) : ∃ ps,
    pieces fuel (cs.flatMap escaped ++ '"' :: tail) = (ps, .ok tail) ∧ text none ps = .ok cs := by
  induction cs generalizing fuel with
  | nil =>
    obtain ⟨more, rfl⟩ : ∃ more, fuel = more + 1 := ⟨fuel - 1, by omega⟩
    exact ⟨[], rfl, rfl⟩
  | cons c cs ih =>
    obtain ⟨p, here⟩ := stands c
    have shown : 0 < (escaped c).length := escapedSome c
    rw [List.flatMap_cons, List.length_append] at enough
    obtain ⟨more, rfl⟩ : ∃ more, fuel = more + 1 := ⟨fuel - 1, by omega⟩
    have room : (cs.flatMap escaped).length < more := by omega
    obtain ⟨ps, read, meant⟩ := ih room
    refine ⟨p :: ps, ?_, ?_⟩
    · rw [List.flatMap_cons, List.append_assoc, here.read, read]
    · rw [here.meant, meant]
      rfl

theorem stringRead {fuel : Nat} {s : String} (enough : (s.toList.flatMap escaped).length < fuel) :
    readString fuel (s.toList.flatMap escaped ++ '"' :: tail) = (.ok s, .ok tail) := by
  obtain ⟨ps, read, meant⟩ : ∃ ps, pieces fuel (s.toList.flatMap escaped ++ '"' :: tail) = (ps, .ok tail) ∧
      text none ps = .ok s.toList := piecesRead enough
  simp [readString, read, meant, Except.map]

end Json
end Dialogue
