import Dialogue.Shelf.Disk
import Dialogue.Story.Saved

/-! Stories kept under names: in memory, or each in a file of one folder. A file is read as any saved story is, so
what comes out of a folder is closed; memory gives back whatever was put in. -/
namespace Dialogue

inductive FileTask where
  | readStory
  | writeStory
  | makeFolder
  | listFolder
  deriving DecidableEq, Repr

inductive ShelfError where
  | notFound (name : String)
  | file (task : FileTask) (path : String) (fault : FileFault)
  | unreadable (error : LoadError)
  deriving DecidableEq, Repr

namespace ShelfError

def name : ShelfError → String
  | .notFound _ => "NotFound"
  | .file _ _ _ => "IoError"
  | .unreadable _ => "InvalidFormat"

def message? : ShelfError → Option String
  | .notFound name => some s!"Story not found: {name}"
  | .file .readStory path fault => some s!"IO error: Failed to read story file {path}: {fault.message}"
  | .file .writeStory path fault => some s!"IO error: Failed to write story file {path}: {fault.message}"
  | .file .makeFolder path fault => some s!"IO error: Failed to create {path}: {fault.message}"
  | .file .listFolder path fault => some s!"IO error: Failed to read directory {path}: {fault.message}"
  | .unreadable _ => none

end ShelfError

inductive ShelfRequest where
  | save (name : String) (story : Story)
  | load (name : String)
  | exists (name : String)
  | list
  deriving DecidableEq, Repr

inductive ShelfReply where
  | saved
  | loaded (story : Story)
  | existing (b : Bool)
  | names (list : List String)
  | failed (e : ShelfError)
  deriving DecidableEq, Repr

abbrev MemoryShelf := Table Story

namespace MemoryShelf

def answer (shelf : MemoryShelf) : ShelfRequest → ShelfReply × MemoryShelf
  | .save name story => (.saved, shelf.insert name story)
  | .load name =>
    match shelf.get? name with
    | some story => (.loaded story, shelf)
    | none => (.failed (.notFound name), shelf)
  | .exists name => (.existing (shelf.contains name), shelf)
  | .list => (.names shelf.keys, shelf)

end MemoryShelf

structure FolderShelf where
  base : String
  disk : Disk

namespace FolderShelf

def ending : List Char := ".json".toList

def path (base name : String) : String := Disk.joined base (name ++ ".json")

def storyName? (file : String) : Option String :=
  let cs := file.toList
  let stem := cs.take (cs.length - ending.length)
  if cs = stem ++ ending ∧ !stem.isEmpty then some (String.ofList stem) else none

def sorted (names : List String) : List String := names.mergeSort fun a b => decide (a ≤ b)

/- Saves a story in the folder, which is made if it is missing. It stays even where the file cannot be written. -/
def saveFile (shelf : FolderShelf) (name : String) (story : Story) : Option ShelfError × FolderShelf :=
  match shelf.disk.makeFolders shelf.base with
  | (some fault, disk) => (some (.file .makeFolder shelf.base fault), { shelf with disk })
  | (none, disk) =>
    let path := path shelf.base name
    match disk.write path story.save with
    | .error fault => (some (.file .writeStory path fault), { shelf with disk })
    | .ok disk => (none, { shelf with disk })

def loadFile (shelf : FolderShelf) (name : String) : Except ShelfError Story := do
  let path := path shelf.base name
  if !shelf.disk.holds path then throw (.notFound name)
  let bytes ← (shelf.disk.read path).mapError (.file .readStory path ·)
  (Story.load bytes).mapError .unreadable

def listFiles (shelf : FolderShelf) : Except ShelfError (List String) := do
  let files ← (shelf.disk.list shelf.base).mapError (.file .listFolder shelf.base ·)
  return sorted (files.filterMap storyName?)

def answer (shelf : FolderShelf) : ShelfRequest → ShelfReply × FolderShelf
  | .save name story =>
    match shelf.saveFile name story with
    | (none, after) => (.saved, after)
    | (some e, after) => (.failed e, after)
  | .load name =>
    match shelf.loadFile name with
    | .ok story => (.loaded story, shelf)
    | .error e => (.failed e, shelf)
  | .exists name => (.existing (shelf.disk.holds (path shelf.base name)), shelf)
  | .list =>
    match shelf.listFiles with
    | .ok names => (.names names, shelf)
    | .error e => (.failed e, shelf)

end FolderShelf
end Dialogue
