import Dialogue.Table

/-! Files and folders. A path is followed name by name, from the root of the disk or from the working folder. Only
folders are passed through, a name has at most 255 bytes and a path at most 4095, and writing makes no folder on the
way. -/
namespace Dialogue

inductive Entry where
  | file (bytes : ByteArray)
  | folder (entries : List (String × Entry))
  deriving Inhabited

inductive FileFault where
  | notFound
  | exists
  | notFolder
  | isFolder
  | nameTooLong
  | nulInName
  deriving DecidableEq, Repr

def FileFault.message : FileFault → String
  | .notFound => "No such file or directory (os error 2)"
  | .exists => "File exists (os error 17)"
  | .notFolder => "Not a directory (os error 20)"
  | .isFolder => "Is a directory (os error 21)"
  | .nameTooLong => "File name too long (os error 36)"
  | .nulInName => "file name contained an unexpected NUL byte"

namespace Entry

def at? (e : Entry) : List String → Option Entry
  | [] => some e
  | name :: rest =>
    match e with
    | .file _ => none
    | .folder entries => (lookupEntry name entries).bind (·.at? rest)

def put (e new : Entry) : List String → Entry
  | [] => new
  | name :: rest =>
    match e with
    | .file bytes => .file bytes
    | .folder entries =>
      .folder (insertEntry name (put ((lookupEntry name entries).getD (.folder [])) new rest) entries)

end Entry

structure Disk where
  root : Entry
  working : List String

namespace Disk

/- A disk with nothing on it but the working folder. That folder has no name, so a path that begins at the root
cannot lead into it. -/
def bare : Disk := ⟨.folder [("", .folder [])], [""]⟩

instance : Inhabited Disk := ⟨bare⟩

def at? (disk : Disk) (place : List String) : Option Entry := disk.root.at? place

def put (disk : Disk) (new : Entry) (place : List String) : Disk := { disk with root := disk.root.put new place }

def names (path : String) : List String := path.splitToList (· == '/')

def isAbsolute (path : String) : Bool := path.toList.head? = some '/'

def joined (folder name : String) : String := if isAbsolute name then name else folder ++ "/" ++ name

def origin (disk : Disk) (path : String) : List String := if isAbsolute path then [] else disk.working

def longestName : Nat := 255

def longestPath : Nat := 4095

def misspelled? (path : String) : Option FileFault :=
  if path.toList.contains (Char.ofNat 0) then some .nulInName
  else if longestPath < path.utf8ByteSize then some .nameTooLong
  else if path.isEmpty then some .notFound
  else none

def follow (disk : Disk) (here : List String) : List String → Except FileFault (List String)
  | [] => .ok here
  | name :: rest =>
    if name = "" ∨ name = "." then follow disk here rest
    else if name = ".." then follow disk here.dropLast rest
    else if longestName < name.utf8ByteSize then .error .nameTooLong
    else
      let there := here ++ [name]
      match rest, disk.at? there with
      | [], _ => .ok there
      | _, some (.folder _) => follow disk there rest
      | _, some (.file _) => .error .notFolder
      | _, none => .error .notFound

def locate (disk : Disk) (path : String) : Except FileFault (List String) :=
  match misspelled? path with
  | some fault => .error fault
  | none => follow disk (disk.origin path) (names path)

def entry (disk : Disk) (path : String) : Except FileFault Entry := do
  match disk.at? (← locate disk path) with
  | some e => return e
  | none => throw .notFound

def holds (disk : Disk) (path : String) : Bool :=
  match entry disk path with
  | .ok _ => true
  | .error _ => false

def read (disk : Disk) (path : String) : Except FileFault ByteArray := do
  match ← entry disk path with
  | .file bytes => return bytes
  | .folder _ => throw .isFolder

def namesToLast (path : String) : List String := ((names path).reverse.dropWhile (· = "")).reverse

def write (disk : Disk) (path : String) (bytes : ByteArray) : Except FileFault Disk := do
  match misspelled? path with
  | some fault => throw fault
  | none =>
    let there ← follow disk (disk.origin path) (namesToLast path)
    match disk.at? there with
    | some (.folder _) => throw .isFolder
    | _ => if path.toList.getLast? = some '/' then throw .isFolder else return disk.put (.file bytes) there

/- Makes the folders of a path that are missing, and says why it stopped if it did. The folders made before that
stay. Where the path ends in a dot, its last folder has to be there. -/
def makeFolders (disk : Disk) (path : String) : Option FileFault × Disk :=
  match misspelled? path with
  | some fault => (some fault, disk)
  | none =>
    let spelled := namesToLast path
    go (spelled.getLast? = some ".") disk (disk.origin path) (spelled.filter fun name => name ≠ "" ∧ name ≠ ".")
where
  go (dotted : Bool) (disk : Disk) (here : List String) : List String → Option FileFault × Disk
    | [] => (none, disk)
    | name :: rest =>
      if name = ".." then go dotted disk here.dropLast rest
      else if longestName < name.utf8ByteSize then (some .nameTooLong, disk)
      else
        let there := here ++ [name]
        match disk.at? there, rest with
        | some (.folder _), _ => go dotted disk there rest
        | some (.file _), [] => (some (if dotted then .notFolder else .exists), disk)
        | some (.file _), _ => (some .notFolder, disk)
        | none, [] => if dotted then (some .notFound, disk) else (none, disk.put (.folder []) there)
        | none, _ => go dotted (disk.put (.folder []) there) there rest

def list (disk : Disk) (path : String) : Except FileFault (List String) := do
  match ← entry disk path with
  | .folder entries => return entries.map (·.1)
  | .file _ => throw .notFolder

end Disk
end Dialogue
