import Mathlib.Data.String.Basic
import Dialogue.Shelf.Disk

/-! One folder of a disk. Where a path leads to a folder, a name behind the path leads into the folder, and writing a
file there changes the folder and no other: whatever was a folder stays one, so the path still leads where it led. -/
namespace Dialogue

namespace Entry
variable {e new child : Entry} {entries : List (String × Entry)} {here place rest : List String} {name file : String}

theorem atAppend (e : Entry) (here rest : List String) : e.at? (here ++ rest) = (e.at? here).bind (·.at? rest) := by
  induction here generalizing e with
  | nil => rfl
  | cons name here ih =>
    cases e with
    | file => rfl
    | folder entries =>
      cases found : lookupEntry name entries with
      | none => simp [at?, found]
      | some child => simp [at?, found, ih]

theorem atPut (folder : e.at? here = some (.folder entries)) (file : String) (new : Entry) :
    (e.put new (here ++ [file])).at? here = some (.folder (insertEntry file new entries)) := by
  induction here generalizing e with
  | nil =>
    cases Option.some.inj folder
    rfl
  | cons name here ih =>
    cases e with
    | file => cases folder
    | folder others =>
      cases found : lookupEntry name others with
      | none => simp [at?, found] at folder
      | some child =>
        have inner : child.at? here = some (.folder entries) := by simpa [at?, found] using folder
        simp [put, at?, found, Table.lookupInsertSelf, ih inner]

theorem folderPut (free : ∀ entries, e.at? place ≠ some (.folder entries)) (new : Entry)
    (folder : e.at? here = some (.folder entries)) : ∃ entries', (e.put new place).at? here = some (.folder entries') := by
  induction place generalizing e here with
  | nil =>
    cases e with
    | file =>
      cases here with
      | nil => cases folder
      | cons name here => cases folder
    | folder entries => exact absurd rfl (free entries)
  | cons name place ih =>
    cases e with
    | file => exact ⟨entries, folder⟩
    | folder others =>
      cases here with
      | nil => exact ⟨_, rfl⟩
      | cons first here =>
        by_cases same : first = name
        · subst same
          cases found : lookupEntry first others with
          | none => simp [at?, found] at folder
          | some child =>
            have inner : child.at? here = some (.folder entries) := by simpa [at?, found] using folder
            have clear : ∀ entries, child.at? place ≠ some (.folder entries) := by simpa [at?, found] using free
            obtain ⟨entries', kept⟩ := ih clear inner
            exact ⟨entries', by simpa [put, at?, found, Table.lookupInsertSelf] using kept⟩
        · refine ⟨entries, ?_⟩
          simpa [put, at?, Table.lookupInsertOther same] using folder

end Entry

namespace Disk
variable {disk disk' : Disk} {here there spelled : List String} {entries : List (String × Entry)} {path file : String}

theorem namesOne (whole : '/' ∉ file.toList) : names file = [file] := by
  have apart : ∀ c ∈ file.toList, (c == '/') = false := fun c mem => by
    simpa using fun same : c = '/' => whole (same ▸ mem)
  rw [names, String.splitToList_of_valid, List.splitOnP_eq_singleton apart]
  simp

theorem namesBehind (path : String) (whole : '/' ∉ file.toList) : names (path ++ "/" ++ file) = names path ++ [file] := by
  have one := namesOne whole
  rw [names, String.splitToList_of_valid] at one ⊢
  have chars : (path ++ "/" ++ file).toList = path.toList ++ '/' :: file.toList := by simp
  rw [chars, List.splitOnP_append_cons _ _ (by rfl), List.map_append, one, names, String.splitToList_of_valid]

structure Plain (name : String) : Prop where
  moves : ¬ (name = "" ∨ name = ".")
  down : name ≠ ".."
  short : name.utf8ByteSize ≤ longestName

inductive Leads (disk : Disk) : List String → List String → List String → Prop where
  | here {here : List String} : Leads disk here [] here
  | stay {here there rest : List String} {name : String} (stays : name = "" ∨ name = ".")
      (further : Leads disk here rest there) : Leads disk here (name :: rest) there
  | up {here there rest : List String} (further : Leads disk here.dropLast rest there) :
      Leads disk here (".." :: rest) there
  | last {here : List String} {name : String} (plain : Plain name) : Leads disk here [name] (here ++ [name])
  | down {here there rest : List String} {name : String} {entries : List (String × Entry)} (plain : Plain name)
      (more : rest ≠ []) (folder : disk.at? (here ++ [name]) = some (.folder entries))
      (further : Leads disk (here ++ [name]) rest there) : Leads disk here (name :: rest) there

theorem followLeads : disk.follow here spelled = .ok there ↔ disk.Leads here spelled there := by
  constructor
  · intro follows
    induction spelled generalizing here with
    | nil =>
      cases follows
      exact .here
    | cons name rest ih =>
      unfold follow at follows
      split at follows
      · exact .stay ‹_› (ih follows)
      · rename_i moves
        split at follows
        · rename_i up
          exact up ▸ .up (ih follows)
        · rename_i down
          split at follows
          · cases follows
          · rename_i short
            have plain : Plain name := ⟨moves, down, Nat.le_of_not_lt short⟩
            dsimp only at follows
            split at follows
            · cases follows
              exact .last plain
            · rename_i more folder
              exact .down plain (fun none => more none) folder (ih follows)
            · cases follows
            · cases follows
  · intro leads
    induction leads with
    | here => rfl
    | stay stays _ ih => rw [follow, if_pos stays, ih]
    | up _ ih => rw [follow, if_neg (by simp), if_pos rfl, ih]
    | last plain => rw [follow, if_neg plain.moves, if_neg plain.down, if_neg (Nat.not_lt.mpr plain.short)]
    | @down here there rest name entries plain more folder _ ih =>
      obtain ⟨second, rest, rfl⟩ := List.exists_cons_of_ne_nil more
      rw [follow, if_neg plain.moves, if_neg plain.down, if_neg (Nat.not_lt.mpr plain.short)]
      simp only [folder, ih]

namespace Leads

theorem later (leads : disk.Leads here spelled there) (folders : ∀ place entries,
    disk.at? place = some (.folder entries) → ∃ entries', disk'.at? place = some (.folder entries')) :
    disk'.Leads here spelled there := by
  induction leads with
  | here => exact .here
  | stay stays _ ih => exact .stay stays ih
  | up _ ih => exact .up ih
  | last plain => exact .last plain
  | down plain more folder _ ih =>
    obtain ⟨_, still⟩ := folders _ _ folder
    exact .down plain more still ih

theorem into (leads : disk.Leads here spelled there) (folder : disk.at? there = some (.folder entries))
    (plain : Plain file) : disk.Leads here (spelled ++ [file]) (there ++ [file]) := by
  induction leads with
  | here => exact .last plain
  | stay stays _ ih => exact .stay stays (ih folder)
  | up _ ih => exact .up (ih folder)
  | last first => exact .down first (List.cons_ne_nil _ _) folder (.last plain)
  | down first more passed _ ih => exact .down first (by simp) passed (ih folder)

theorem made (leads : disk.Leads here spelled there) (folder : disk.at? there = some (.folder entries))
    (dotted : Bool) : makeFolders.go dotted disk here (spelled.filter fun name => name ≠ "" ∧ name ≠ ".") =
      (none, disk) := by
  induction leads with
  | here => rfl
  | stay stays _ ih =>
    rw [List.filter_cons_of_neg (by simpa [Classical.or_iff_not_imp_left] using stays)]
    exact ih folder
  | up _ ih =>
    rw [List.filter_cons_of_pos (by decide), makeFolders.go, if_pos rfl]
    exact ih folder
  | last plain =>
    rw [List.filter_cons_of_pos (by simpa using plain.moves), List.filter_nil, makeFolders.go, if_neg plain.down,
      if_neg (Nat.not_lt.mpr plain.short)]
    simp only [folder, makeFolders.go]
  | down plain more passed _ ih =>
    rw [List.filter_cons_of_pos (by simpa using plain.moves), makeFolders.go, if_neg plain.down,
      if_neg (Nat.not_lt.mpr plain.short)]
    simp only [passed]
    exact ih folder

end Leads

structure Stands (disk : Disk) (path : String) (here : List String) (entries : List (String × Entry)) : Prop where
  spelled : misspelled? path = none
  leads : disk.Leads (disk.origin path) (names path) here
  folder : disk.at? here = some (.folder entries)

structure Spells (path file : String) : Prop where
  plain : Plain file
  whole : '/' ∉ file.toList
  clean : Char.ofNat 0 ∉ file.toList
  near : (path ++ "/" ++ file).utf8ByteSize ≤ longestPath

theorem filterNamesToLast (path : String) : (namesToLast path).filter (fun name => name ≠ "" ∧ name ≠ ".") =
    (names path).filter fun name => name ≠ "" ∧ name ≠ "." := by
  have blank : ((names path).reverse.takeWhile (· = "")).filter (fun name => name ≠ "" ∧ name ≠ ".") = [] := by
    refine List.filter_eq_nil_iff.mpr fun name mem => ?_
    have empty := List.all_eq_true.mp List.all_takeWhile name mem
    simp_all
  have whole := congrArg (List.filter fun name => name ≠ "" ∧ name ≠ ".")
    (List.takeWhile_append_dropWhile (p := (· = "")) (l := (names path).reverse))
  rw [List.filter_append, blank, List.nil_append] at whole
  rw [namesToLast, List.filter_reverse, whole, List.filter_reverse, List.reverse_reverse]

theorem spelledWell : misspelled? path = none ↔
    Char.ofNat 0 ∉ path.toList ∧ path.utf8ByteSize ≤ longestPath ∧ path ≠ "" := by
  unfold misspelled?
  split
  · simp_all
  · split
    · rename_i long
      simp [Nat.not_le.mpr long]
    · split <;> simp_all

theorem originBehind (spelled : misspelled? path = none) (file : String) :
    disk.origin (path ++ "/" ++ file) = disk.origin path := by
  have chars : (path ++ "/" ++ file).toList = path.toList ++ '/' :: file.toList := by simp
  cases first : path.toList with
  | nil => simp [misspelled?, String.isEmpty, String.toList_eq_nil_iff.mp first] at spelled
  | cons c rest => simp [origin, isAbsolute, chars, first]

theorem entryFound (disk : Disk) (path : String) (spelled : misspelled? path = none)
    (leads : disk.Leads (disk.origin path) (names path) there) : disk.entry path =
      match disk.at? there with
      | some e => .ok e
      | none => .error .notFound := by
  simp only [Disk.entry, locate, spelled, followLeads.mpr leads, bind, Except.bind]
  rfl

namespace Stands

theorem ofList (lists : disk.list path = .ok []) : ∃ here, disk.Stands path here [] := by
  cases spelled : misspelled? path with
  | some fault => simp [Disk.list, Disk.entry, locate, spelled, bind, Except.bind] at lists
  | none =>
    cases follows : disk.follow (disk.origin path) (names path) with
    | error fault => simp [Disk.list, Disk.entry, locate, spelled, follows, bind, Except.bind] at lists
    | ok here =>
      have leads := followLeads.mp follows
      rw [Disk.list, entryFound disk path spelled leads] at lists
      cases found : disk.at? here with
      | none => simp [found, bind, Except.bind] at lists
      | some e =>
        cases e with
        | file => simp [found, bind, Except.bind, throw, throwThe, MonadExceptOf.throw] at lists
        | folder entries =>
          have empty : entries = [] := by simpa [found, bind, Except.bind, pure, Except.pure] using lists
          exact ⟨here, spelled, leads, empty ▸ found⟩

theorem made (stands : disk.Stands path here entries) : disk.makeFolders path = (none, disk) := by
  simp only [makeFolders, stands.spelled, filterNamesToLast]
  exact stands.leads.made stands.folder _

theorem list (stands : disk.Stands path here entries) : disk.list path = .ok (entries.map (·.1)) := by
  rw [Disk.list, entryFound disk path stands.spelled stands.leads, stands.folder]
  rfl

theorem into (stands : disk.Stands path here entries) (spells : Spells path file) :
    disk.Leads (disk.origin (path ++ "/" ++ file)) (names (path ++ "/" ++ file)) (here ++ [file]) := by
  rw [originBehind stands.spelled, namesBehind path spells.whole]
  exact stands.leads.into stands.folder spells.plain

theorem spelledBehind (stands : disk.Stands path here entries) (spells : Spells path file) :
    misspelled? (path ++ "/" ++ file) = none := by
  obtain ⟨clean, _, named⟩ := spelledWell.mp stands.spelled
  refine spelledWell.mpr ⟨?_, spells.near, by simp [String.append_eq_empty_iff]⟩
  have chars : (path ++ "/" ++ file).toList = path.toList ++ '/' :: file.toList := by simp
  have slash : Char.ofNat 0 ≠ '/' := by decide
  simp [chars, clean, slash, spells.clean]

theorem child (stands : disk.Stands path here entries) (file : String) :
    disk.at? (here ++ [file]) = lookupEntry file entries := by
  have folder : disk.root.at? here = some (.folder entries) := stands.folder
  rw [at?, Entry.atAppend, folder]
  simp [Entry.at?]

theorem entry (stands : disk.Stands path here entries) (spells : Spells path file) :
    disk.entry (path ++ "/" ++ file) =
      match lookupEntry file entries with
      | some e => .ok e
      | none => .error .notFound := by
  rw [entryFound disk _ (stands.spelledBehind spells) (stands.into spells), stands.child]

theorem write (stands : disk.Stands path here entries) (spells : Spells path file)
    (free : ∀ others, lookupEntry file entries ≠ some (.folder others)) (bytes : ByteArray) :
    ∃ disk', disk.write (path ++ "/" ++ file) bytes = .ok disk' ∧
      disk'.Stands path here (insertEntry file (.file bytes) entries) := by
  refine ⟨disk.put (.file bytes) (here ++ [file]), ?_, stands.spelled, ?_, Entry.atPut stands.folder file _⟩
  · have last : namesToLast (path ++ "/" ++ file) = names (path ++ "/" ++ file) := by
      have named : file ≠ "" := fun empty => spells.plain.moves (.inl empty)
      simp [namesToLast, namesBehind path spells.whole, named]
    have ends : (path ++ "/" ++ file).toList.getLast? ≠ some '/' := fun slash => by
      have named : file.toList ≠ [] := fun empty => spells.plain.moves (.inl (String.toList_eq_nil_iff.mp empty))
      have chars : (path ++ "/" ++ file).toList = path.toList ++ ['/'] ++ file.toList := by simp
      rw [chars, List.getLast?_append, List.getLast?_eq_some_getLast named, Option.some_or,
        ← List.getLast?_eq_some_getLast] at slash
      exact spells.whole (List.mem_of_getLast? slash)
    simp only [Disk.write, stands.spelledBehind spells, last, followLeads.mpr (stands.into spells), bind, Except.bind,
      if_neg ends]
    split
    · rename_i others folder
      exact absurd folder (stands.child file ▸ free others)
    · rfl
  · refine stands.leads.later fun place others folder => Entry.folderPut (fun others => ?_) _ folder
    rw [← Disk.at?, stands.child]
    exact free others

end Stands
end Disk
end Dialogue
