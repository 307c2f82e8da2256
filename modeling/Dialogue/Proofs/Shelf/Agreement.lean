import Dialogue.Proofs.Shelf.Disks
import Dialogue.Proofs.Story.Saving
import Dialogue.Shelf.Repository
import Mathlib.Data.List.Nodup

/-! A shelf in a folder beside a shelf in memory. The folder has a file for each story, named for the story with an
ending behind the name, and it answers as memory does, except that a story it hands out has been saved and loaded. -/
namespace Dialogue

def MemoryShelf.answers (shelf : MemoryShelf) : List ShelfRequest → List ShelfReply
  | [] => []
  | r :: rest => (shelf.answer r).1 :: answers (shelf.answer r).2 rest

def FolderShelf.answers (shelf : FolderShelf) : List ShelfRequest → List ShelfReply
  | [] => []
  | r :: rest => (shelf.answer r).1 :: answers (shelf.answer r).2 rest

def ShelfReply.reread : ShelfReply → ShelfReply
  | .loaded story =>
    match Story.load story.save with
    | .ok back => .loaded back
    | .error e => .failed (.unreadable e)
  | reply => reply

def ShelfRequest.name? : ShelfRequest → Option String
  | .save name _ | .load name | .exists name => some name
  | .list => none

theorem MemoryShelf.answerLoad (shelf : MemoryShelf) (name : String) : shelf.answer (.load name) =
    match shelf.get? name with
    | some story => (.loaded story, shelf)
    | none => (.failed (.notFound name), shelf) := rfl

namespace FolderShelf
variable {shelf : FolderShelf} {kept : MemoryShelf} {base name file : String} {story : Story} {disk : Disk}
  {here : List String} {entries : List (String × Entry)} {r : ShelfRequest} {requests : List ShelfRequest}

structure Fits (base name : String) : Prop where
  named : name ≠ ""
  whole : '/' ∉ name.toList
  clean : Char.ofNat 0 ∉ name.toList
  short : (name ++ ".json").utf8ByteSize ≤ Disk.longestName
  near : (path base name).utf8ByteSize ≤ Disk.longestPath

def Spelled (base : String) (requests : List ShelfRequest) : Prop :=
  ∀ r ∈ requests, ∀ name, r.name? = some name → Fits base name

instance (base name : String) : Decidable (Fits base name) :=
  decidable_of_iff (name ≠ "" ∧ '/' ∉ name.toList ∧ Char.ofNat 0 ∉ name.toList ∧
      (name ++ ".json").utf8ByteSize ≤ Disk.longestName ∧ (path base name).utf8ByteSize ≤ Disk.longestPath)
    ⟨fun ⟨named, whole, clean, short, near⟩ => ⟨named, whole, clean, short, near⟩,
      fun fits => ⟨fits.named, fits.whole, fits.clean, fits.short, fits.near⟩⟩

instance (base : String) (requests : List ShelfRequest) : Decidable (Spelled base requests) :=
  decidable_of_iff (∀ name ∈ requests.filterMap ShelfRequest.name?, Fits base name)
    ⟨fun fits r mem name is => fits name (List.mem_filterMap.mpr ⟨r, mem, is⟩),
      fun fits name mem => by
        obtain ⟨r, among, is⟩ := List.mem_filterMap.mp mem
        exact fits r among name is⟩

def Fresh (shelf : FolderShelf) : Prop :=
  ∃ disk, shelf.disk.makeFolders shelf.base = (none, disk) ∧ disk.list shelf.base = .ok []

theorem charsOfFile (name : String) : (name ++ ".json").toList = name.toList ++ ending := by
  simp [ending]

theorem pathOf (fits : Fits base name) : path base name = base ++ "/" ++ (name ++ ".json") := by
  have within : Disk.isAbsolute (name ++ ".json") = false := by
    cases first : name.toList with
    | nil => exact absurd (String.toList_eq_nil_iff.mp first) fits.named
    | cons c rest =>
      have other : c ≠ '/' := fun same => fits.whole (by simp [first, same])
      simp [Disk.isAbsolute, first, other]
  rw [path, Disk.joined, within]
  rfl

theorem spells (fits : Fits base name) : Disk.Spells base (name ++ ".json") := by
  have long : ending.length ≤ (name ++ ".json").toList.length := by
    rw [charsOfFile, List.length_append]
    omega
  have other : ∀ s : String, s.toList.length < ending.length → name ++ ".json" ≠ s := fun s few same => by
    rw [same] at long
    omega
  refine ⟨⟨fun either => ?_, other ".." (by decide), fits.short⟩, ?_, ?_, ?_⟩
  · exact either.elim (other "" (by decide)) (other "." (by decide))
  · rw [charsOfFile]
    simp [fits.whole, ending]
  · rw [charsOfFile]
    simp [fits.clean, ending]
  · rw [← pathOf fits]
    exact fits.near

theorem storyOfFile (named : name ≠ "") : storyName? (name ++ ".json") = some name := by
  have stem : (name.toList ++ ending).take ((name.toList ++ ending).length - ending.length) = name.toList := by
    rw [List.length_append, Nat.add_sub_cancel, List.take_left]
  have some : name.toList ≠ [] := fun none => named (String.toList_eq_nil_iff.mp none)
  simp only [storyName?, charsOfFile, stem]
  simp [some]

theorem fileOfStory (found : storyName? file = some name) : file = name ++ ".json" := by
  unfold storyName? at found
  dsimp only at found
  split at found
  · rename_i whole
    cases Option.some.inj found
    apply String.toList_inj.mp
    rw [charsOfFile, String.toList_ofList]
    exact whole.1
  · cases found

theorem onceOfAscends {l : List String} (ascends : l.Pairwise (· < ·)) : l.Nodup :=
  ascends.imp fun before same => by
    subst same
    exact String.lt_irrefl _ before

structure Files (entries : List (String × Entry)) (kept : MemoryShelf) : Prop where
  ascends : entries.Pairwise fun a b => a.1 < b.1
  named : ∀ e ∈ entries, ∃ name, name ≠ "" ∧ e.1 = name ++ ".json"
  found : ∀ name, lookupEntry (name ++ ".json") entries = (kept.get? name).map fun story => .file story.save

namespace Files

theorem nil : Files [] .empty := ⟨.nil, List.forall_mem_nil _, fun _ => rfl⟩

theorem insert (files : Files entries kept) (named : name ≠ "") (story : Story) :
    Files (insertEntry (name ++ ".json") (.file story.save) entries) (kept.insert name story) where
  ascends := insertEntryAscends files.ascends
  named := fun e mem => by
    rcases memInsertEntry mem with rfl | before
    · exact ⟨name, named, rfl⟩
    · exact files.named e before
  found := fun other => by
    by_cases same : other = name
    · rw [same, Table.lookupInsertSelf, Table.get?_insert_self]
      rfl
    · have apart : other ++ ".json" ≠ name ++ ".json" := fun equal => same ((String.append_left_inj _).mp equal)
      rw [Table.lookupInsertOther apart, Table.get?_insert_ne same, files.found]

theorem free (files : Files entries kept) (name : String) (others : List (String × Entry)) :
    lookupEntry (name ++ ".json") entries ≠ some (.folder others) := by
  rw [files.found]
  cases kept.get? name <;> simp

theorem names (files : Files entries kept) : sorted ((entries.map (·.1)).filterMap storyName?) = kept.keys := by
  have member : ∀ name, name ∈ (entries.map (·.1)).filterMap storyName? ↔ name ∈ kept.keys := fun name => by
    rw [List.mem_filterMap]
    constructor
    · rintro ⟨file, mem, isName⟩
      obtain ⟨e, inside, rfl⟩ := List.mem_map.mp mem
      have looked := Table.lookupOfMem files.ascends inside
      rw [fileOfStory isName, files.found] at looked
      obtain ⟨story, has, _⟩ := Option.map_eq_some_iff.mp looked
      exact List.mem_map.mpr ⟨_, Table.get?_eq_some_iff.mp has, rfl⟩
    · intro mem
      obtain ⟨⟨key, story⟩, inside, rfl⟩ := List.mem_map.mp mem
      have looked := files.found key
      rw [Table.get?_eq_some_iff.mpr inside] at looked
      have inside := Table.lookupMem looked
      obtain ⟨other, named, same⟩ := files.named _ inside
      cases (String.append_left_inj _).mp same
      exact ⟨_, List.mem_map.mpr ⟨_, inside, rfl⟩, storyOfFile named⟩
  have once : ((entries.map (·.1)).filterMap storyName?).Nodup := by
    refine List.Nodup.filterMap (fun a b name isA isB => ?_) ?_
    · rw [fileOfStory isA, fileOfStory isB]
    · exact onceOfAscends (List.pairwise_map.mpr files.ascends)
  have keysOnce : kept.keys.Nodup := onceOfAscends (List.pairwise_map.mpr kept.ascends)
  have perm : (sorted ((entries.map (·.1)).filterMap storyName?)).Perm kept.keys :=
    (List.mergeSort_perm _ _).trans ((List.perm_ext_iff_of_nodup once keysOnce).mpr member)
  have ordered : (sorted ((entries.map (·.1)).filterMap storyName?)).Pairwise (· ≤ ·) := by
    refine (List.pairwise_mergeSort (fun a b c => ?_) (fun a b => ?_) _).imp of_decide_eq_true
    · simpa using String.le_trans
    · simpa using String.le_total a b
  have keysOrdered : kept.keys.Pairwise (· ≤ ·) :=
    (List.pairwise_map.mpr kept.ascends).imp fun before => String.not_lt.mp (String.lt_asymm before)
  exact perm.eq_of_pairwise (fun _ _ _ _ => String.le_antisymm) ordered keysOrdered

end Files

def Holds (shelf : FolderShelf) (kept : MemoryShelf) : Prop :=
  ∃ here entries, shelf.disk.Stands shelf.base here entries ∧ Files entries kept

theorem answerSaved {after : FolderShelf} (saved : shelf.saveFile name story = (none, after)) :
    shelf.answer (.save name story) = (.saved, after) := by
  unfold answer
  dsimp only
  rw [saved]

theorem answerLoaded (loaded : shelf.loadFile name = .ok story) :
    shelf.answer (.load name) = (.loaded story, shelf) := by
  unfold answer
  dsimp only
  rw [loaded]

theorem answerFailed {e : ShelfError} (failed : shelf.loadFile name = .error e) :
    shelf.answer (.load name) = (.failed e, shelf) := by
  unfold answer
  dsimp only
  rw [failed]

theorem answerListed {names : List String} (listed : shelf.listFiles = .ok names) :
    shelf.answer .list = (.names names, shelf) := by
  unfold answer
  dsimp only
  rw [listed]

theorem saves (made : shelf.disk.makeFolders shelf.base = (none, disk)) (stands : disk.Stands shelf.base here entries)
    (files : Files entries kept) (fits : Fits shelf.base name) (story : Story) :
    ∃ disk', shelf.answer (.save name story) = (.saved, { shelf with disk := disk' }) ∧
      ({ shelf with disk := disk' } : FolderShelf).Holds (kept.insert name story) := by
  have wrote := stands.write (spells fits) (files.free name) story.save
  rw [← pathOf fits] at wrote
  obtain ⟨disk', wrote, stands'⟩ := wrote
  have saved : shelf.saveFile name story = (none, { shelf with disk := disk' }) := by
    unfold saveFile
    rw [made]
    dsimp only
    rw [wrote]
  exact ⟨disk', answerSaved saved, here, _, stands', files.insert fits.named story⟩

theorem Holds.found (holds : shelf.Holds kept) (fits : Fits shelf.base name) : shelf.disk.entry (path shelf.base name) =
    match kept.get? name with
    | some story => .ok (.file story.save)
    | none => .error .notFound := by
  obtain ⟨here, entries, stands, files⟩ := holds
  rw [pathOf fits, stands.entry (spells fits), files.found]
  cases kept.get? name <;> rfl

theorem Holds.exist (holds : shelf.Holds kept) (fits : Fits shelf.base name) :
    shelf.disk.holds (path shelf.base name) = kept.contains name := by
  have found := holds.found fits
  cases has : kept.get? name <;> simp [Disk.holds, found, has, Table.contains]

theorem Holds.loads (holds : shelf.Holds kept) (fits : Fits shelf.base name) : shelf.loadFile name =
    match kept.get? name with
    | some story => (Story.load story.save).mapError .unreadable
    | none => .error (.notFound name) := by
  have found := holds.found fits
  have exist := holds.exist fits
  unfold loadFile
  dsimp only
  rw [exist]
  cases has : kept.get? name with
  | none =>
    have missing : kept.contains name = false := by simp [Table.contains, has]
    rw [missing]
    rfl
  | some story =>
    have there : kept.contains name = true := by simp [Table.contains, has]
    have read : shelf.disk.read (path shelf.base name) = .ok story.save := by
      rw [Disk.read, found, has]
      rfl
    rw [there, read]
    rfl

theorem Holds.answer (holds : shelf.Holds kept) (fits : ∀ name, r.name? = some name → Fits shelf.base name) :
    (shelf.answer r).1 = (kept.answer r).1.reread ∧ (shelf.answer r).2.base = shelf.base ∧
    (shelf.answer r).2.Holds (kept.answer r).2 := by
  cases r with
  | save name story =>
    obtain ⟨here, entries, stands, files⟩ := holds
    obtain ⟨disk', answered, later⟩ := saves stands.made stands files (fits name rfl) story
    rw [answered]
    exact ⟨rfl, rfl, later⟩
  | load name =>
    have loads := holds.loads (fits name rfl)
    rw [MemoryShelf.answerLoad]
    cases has : kept.get? name with
    | none =>
      rw [has] at loads
      rw [answerFailed loads]
      exact ⟨rfl, rfl, holds⟩
    | some story =>
      cases back : Story.load story.save with
      | error e =>
        simp only [has, back, Except.mapError] at loads
        rw [answerFailed loads]
        exact ⟨by simp [ShelfReply.reread, back], rfl, holds⟩
      | ok s =>
        simp only [has, back, Except.mapError] at loads
        rw [answerLoaded loads]
        exact ⟨by simp [ShelfReply.reread, back], rfl, holds⟩
  | «exists» name =>
    have exist : shelf.answer (.exists name) = (.existing (kept.contains name), shelf) := by
      rw [← holds.exist (fits name rfl)]
      rfl
    rw [exist]
    exact ⟨rfl, rfl, holds⟩
  | list =>
    have names : shelf.listFiles = .ok kept.keys := by
      obtain ⟨here, entries, stands, files⟩ := holds
      rw [listFiles, stands.list, ← files.names]
      rfl
    rw [answerListed names]
    exact ⟨rfl, rfl, holds⟩

theorem Holds.answers (holds : shelf.Holds kept) (fits : Spelled shelf.base requests) :
    shelf.answers requests = (kept.answers requests).map .reread := by
  induction requests generalizing shelf kept with
  | nil => rfl
  | cons r rest ih =>
    obtain ⟨first, base, later⟩ := holds.answer (fits r List.mem_cons_self)
    rw [FolderShelf.answers, MemoryShelf.answers, List.map_cons, first, ih later]
    rw [base]
    exact fun r mem => fits r (List.mem_cons_of_mem _ mem)

theorem Fresh.answers (fresh : shelf.Fresh) (name : String) (story : Story)
    (fits : Spelled shelf.base (.save name story :: requests)) :
    shelf.answers (.save name story :: requests) =
      (MemoryShelf.answers .empty (.save name story :: requests)).map .reread := by
  obtain ⟨disk, made, empty⟩ := fresh
  obtain ⟨here, stands⟩ := Disk.Stands.ofList empty
  obtain ⟨disk', answered, holds⟩ := saves made stands .nil (fits _ List.mem_cons_self name rfl) story
  have rest := holds.answers fun r mem => fits r (List.mem_cons_of_mem _ mem)
  rw [FolderShelf.answers, MemoryShelf.answers, List.map_cons, answered, rest]
  rfl

end FolderShelf

namespace MemoryShelf
variable {kept : MemoryShelf} {r : ShelfRequest} {requests : List ShelfRequest}

theorem answerReread (before : ∀ name story, kept.get? name = some story → Story.load story.save = .ok story)
    (saved : ∀ name story, r = .save name story → Story.load story.save = .ok story) :
    (kept.answer r).1.reread = (kept.answer r).1 ∧
    ∀ name story, (kept.answer r).2.get? name = some story → Story.load story.save = .ok story := by
  cases r with
  | save name story =>
    refine ⟨rfl, fun other s has => ?_⟩
    have has : (kept.insert name story).get? other = some s := has
    by_cases same : other = name
    · rw [same, Table.get?_insert_self] at has
      cases has
      exact saved name story rfl
    · rw [Table.get?_insert_ne same] at has
      exact before other s has
  | load name =>
    rw [answerLoad]
    cases has : kept.get? name with
    | none => exact ⟨rfl, before⟩
    | some story => exact ⟨by simp [ShelfReply.reread, before name story has], before⟩
  | «exists» name => exact ⟨rfl, before⟩
  | list => exact ⟨rfl, before⟩

theorem answersReread (before : ∀ name story, kept.get? name = some story → Story.load story.save = .ok story)
    (saved : ∀ name story, .save name story ∈ requests → Story.load story.save = .ok story) :
    (kept.answers requests).map .reread = kept.answers requests := by
  induction requests generalizing kept with
  | nil => rfl
  | cons r rest ih =>
    obtain ⟨first, later⟩ := answerReread before fun name story same => saved name story (same ▸ List.mem_cons_self)
    rw [answers, List.map_cons, first, ih later fun name story mem => saved name story (List.mem_cons_of_mem _ mem)]

end MemoryShelf

structure Story.Shelved (s : Story) : Prop where
  valid : s.validate = .ok ()
  held : s.Held
  deep : s.toJson.nesting ≤ Json.depthLimit

namespace FolderShelf
variable {shelf : FolderShelf} {requests : List ShelfRequest}

theorem answersAsMemory (fresh : shelf.Fresh) (name : String) (story : Story)
    (fits : Spelled shelf.base (.save name story :: requests)) :
    shelf.answers (.save name story :: requests) =
      (MemoryShelf.answers .empty (.save name story :: requests)).map .reread ∧
    ((∀ name' s, .save name' s ∈ .save name story :: requests → s.Shelved ∧ s.Rereads) →
      shelf.answers (.save name story :: requests) = MemoryShelf.answers .empty (.save name story :: requests)) := by
  have reread := fresh.answers name story fits
  refine ⟨reread, fun good => reread.trans (MemoryShelf.answersReread (fun name s has => ?_) fun name s mem => ?_)⟩
  · cases has
  · obtain ⟨shelved, rereads⟩ := good name s mem
    exact Story.loadSaved shelved.valid shelved.held shelved.deep rereads

theorem freshBare {base : String} (plain : Disk.Plain base) (whole : '/' ∉ base.toList)
    (spelled : Disk.misspelled? base = none) : Fresh ⟨base, .bare⟩ := by
  have relative : Disk.isAbsolute base = false := by
    cases first : base.toList with
    | nil => simp [Disk.isAbsolute, first]
    | cons c rest =>
      have other : c ≠ '/' := fun same => whole (by simp [first, same])
      simp [Disk.isAbsolute, first, other]
  have one := Disk.namesOne whole
  have origin : Disk.bare.origin base = [""] := by simp [Disk.origin, relative, Disk.bare]
  obtain ⟨named, other⟩ := not_or.mp plain.moves
  have stands : (Disk.bare.put (.folder []) ["", base]).Stands base ["", base] [] := by
    refine ⟨spelled, ?_, by simp [Disk.at?, Disk.put, Disk.bare, Entry.put, Entry.at?, lookupEntry, insertEntry]⟩
    rw [one]
    exact origin ▸ .last plain
  refine ⟨Disk.bare.put (.folder []) ["", base], ?_, stands.list⟩
  have last : Disk.namesToLast base = [base] := by simp [Disk.namesToLast, one, named]
  have missing : Disk.bare.at? ["", base] = none := by simp [Disk.at?, Disk.bare, Entry.at?, lookupEntry]
  simp [Disk.makeFolders, Disk.makeFolders.go, spelled, last, origin, named, other, plain.down,
    Nat.not_lt.mpr plain.short, missing]

def pantry : FolderShelf := ⟨"stories", .bare⟩

theorem pantryFresh : pantry.Fresh := freshBare ⟨by decide, by decide, by decide⟩ (by decide) rfl

def lamp : Story where
  rootId := "lamp"
  nodes := .ofList [
    ("lamp", { id := "lamp", texts := [⟨"It is lit.", 200, 500⟩], nextId := none, rules := [], effects := []
               actions := [] })]

theorem lampShelved : lamp.Shelved where
  valid := rfl
  held := fun e mem => by
    obtain rfl := List.mem_singleton.mp mem
    refine ⟨fun t among => ?_, List.forall_mem_nil _, List.forall_mem_nil _, List.forall_mem_nil _⟩
    obtain rfl := List.mem_singleton.mp among
    exact ⟨by decide, by decide⟩
  deep := by decide

def lampRequests : List ShelfRequest := [.save "lamp.v1.json" lamp, .list, .load "lamp.v1.json", .load "lamp"]

theorem lampKept : pantry.Fresh ∧ Spelled pantry.base lampRequests ∧
    (∀ name s, .save name s ∈ lampRequests → s.Shelved ∧ s.Rereads) ∧
    pantry.answers lampRequests =
      [.saved, .names ["lamp.v1.json"], .loaded lamp, .failed (.notFound "lamp")] := by
  have fits : Spelled pantry.base lampRequests := by decide
  have good : ∀ name s, .save name s ∈ lampRequests → s.Shelved ∧ s.Rereads := by
    intro name s mem
    obtain ⟨rfl, rfl⟩ : name = "lamp.v1.json" ∧ s = lamp := by simpa [lampRequests] using mem
    exact ⟨lampShelved, by decide +kernel⟩
  have answers := (answersAsMemory pantryFresh "lamp.v1.json" lamp fits).2 good
  exact ⟨pantryFresh, fits, good, answers.trans rfl⟩

end FolderShelf

def glow (x : Float) : Story where
  rootId := "a"
  nodes := .ofList [
    ("a", { id := "a", texts := [⟨"t", 1, 2⟩], nextId := none, rules := []
            effects := [⟨"k", .set, .number (.double x)⟩], actions := [] })]

theorem glowFades : Story.load (glow 6.497447842833618e-60).save = .ok (glow 6.497447842833619e-60) :=
  Story.loadAs rfl (by decide +kernel) (by decide +kernel)

theorem glowFadesAgain : Story.load (glow 6.497447842833619e-60).save = .ok (glow 6.49744784283362e-60) :=
  Story.loadAs rfl (by decide +kernel) (by decide +kernel)

namespace FolderShelf

def glowRequests : List ShelfRequest := [.save "tale" (glow 6.497447842833619e-60), .load "tale"]

/- A story that has been loaded is another one when it is saved and loaded again. -/
theorem folderChangesDouble : ¬ ∀ (shelf : FolderShelf) (name : String) (story : Story) (requests : List ShelfRequest),
    shelf.Fresh → Spelled shelf.base (.save name story :: requests) →
    (∀ name' s, .save name' s ∈ .save name story :: requests → s.Shelved) →
    shelf.answers (.save name story :: requests) = MemoryShelf.answers .empty (.save name story :: requests) := by
  intro claim
  have fits : Spelled pantry.base glowRequests := by decide
  have shelved : ∀ name s, .save name s ∈ glowRequests → s.Shelved := by
    intro name s mem
    obtain ⟨rfl, rfl⟩ : name = "tale" ∧ s = glow 6.497447842833619e-60 := by simpa [glowRequests] using mem
    obtain ⟨valid, held, deep⟩ := Story.loadedTaken glowFades
    exact ⟨valid, held, deep⟩
  have same := (pantryFresh.answers "tale" _ fits).symm.trans (claim pantry "tale" _ _ pantryFresh fits shelved)
  have kept : MemoryShelf.answers .empty glowRequests = [.saved, .loaded (glow 6.497447842833619e-60)] := rfl
  change (MemoryShelf.answers .empty glowRequests).map .reread = MemoryShelf.answers .empty glowRequests at same
  rw [kept] at same
  have changed : ShelfReply.reread (.loaded (glow 6.497447842833619e-60)) = .loaded (glow 6.49744784283362e-60) := by
    rw [ShelfReply.reread, glowFadesAgain]
  rw [List.map_cons, List.map_cons, changed] at same
  have equal : glow 6.49744784283362e-60 = glow 6.497447842833619e-60 := by
    simpa [ShelfReply.reread] using same
  exact absurd equal (by decide +kernel)

end FolderShelf
end Dialogue
