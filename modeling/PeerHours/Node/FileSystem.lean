import PeerHours.Crypto
import PeerHours.Library.FileTree
import PeerHours.Library.Stateful

/-!
# The node's file system

The calls of `node:fs/promises` that a backup makes, on a file tree. Any call may fail for a reason of its own, such as
a full disk, and may then have done a part of its work; a rename is done as a whole or not at all.
-/

namespace PeerHours.Node

open Checked Stateful FileTree

/-- The file system of the host. -/
abbrev FileSystem := FileTree Buffer

/-- A path as `resolve` gives it: the names from the root. -/
abbrev Path := List String

/-- The text of a path. -/
def pathText (path : Path) : String :=
  if path = [] then "/" else String.ofList (path.flatMap fun name ↦ '/' :: name.toList)

/-- The calls that fail for reasons of their own, with their messages and what they leave behind: how many
directories were made, what was copied, written or kept. -/
structure Faults where
  mkdir : Path → Option (String × Nat)
  copy : Option (String × Option FileSystem)
  read : Path → Option String
  write : Option (String × Option Buffer)
  rename : Option String
  remove : Option (String × FileSystem)

/-- Every call does its work. -/
def Faults.absent : Faults :=
  ⟨fun _ ↦ none, none, fun _ ↦ none, none, none, none⟩

theorem Faults.read_absent (path : Path) : absent.read path = none := rfl

/-- The largest file that `readFile` reads. -/
def maxReadBytes : Nat := 2 ^ 31 - 1

/-- `readFile` of a regular file. -/
def readContents (faults : Faults) (path : Path) (contents : Buffer) : Except String Buffer :=
  match faults.read path with
  | some message => .error message
  | none => do
      require (contents.length ≤ maxReadBytes) "File size is greater than 2 GiB"
      pure contents

/-- `readFile`. -/
def readFile (faults : Faults) (path : Path) (fs : FileSystem) : Except String Buffer :=
  match find? path fs with
  | some (.file contents) => readContents faults path contents
  | some _ => .error "EISDIR: illegal operation on a directory, read"
  | none => .error "ENOENT: no such file or directory, open"

/-! ## Calls that change the tree -/

/-- Puts an entry at a path. -/
def place (path : Path) (entry fs : FileSystem) : FileSystem :=
  match path.getLast? with
  | some name => update path.dropLast (insert name entry) fs
  | none => fs

/-- Takes the entry at a path away. -/
def discard (path : Path) (fs : FileSystem) : FileSystem :=
  match path.getLast? with
  | some name => update path.dropLast (erase name) fs
  | none => fs

/-- `mkdir(path, { recursive: true })` on the way to a target. -/
def mkdir (faults : Faults) (target : Path) : Action FileSystem PUnit := do
  let fs ← get
  match faults.mkdir target with
  | some (message, count) =>
      modify fun fs ↦ (mkdirs (target.dropLast.take count) fs).getD fs
      throw message
  | none =>
      let made ← check (present (mkdirs target.dropLast fs) "ENOTDIR: not a directory, mkdir")
      modify fun _ ↦ made

mutual

/-- What `cp` makes of an entry: links stay links, and special files are not copied. -/
def copied (keep : Path → Bool) (path : Path) : FileSystem → Except String FileSystem
  | .file contents => .ok (.file contents)
  | .directory entries => (copiedEntries keep path entries).map .directory
  | .link target => .ok (.link target)
  | .special => .error "Cannot copy a special file"

/-- What `cp` makes of the entries of a directory that the filter keeps. -/
def copiedEntries (keep : Path → Bool) (path : Path) :
    List (String × FileSystem) → Except String (List (String × FileSystem))
  | [] => .ok []
  | (name, entry) :: rest =>
      if keep (path ++ [name]) then do
        let copy ← copied keep (path ++ [name]) entry
        let copies ← copiedEntries keep path rest
        pure ((name, copy) :: copies)
      else copiedEntries keep path rest

end

/-- `cp(source, target, { recursive: true, filter })` to a new target. -/
def cp (faults : Faults) (source target : Path) (keep : Path → Bool) : Action FileSystem PUnit := do
  check (require (¬ source <+: target) "Cannot copy to a subdirectory of self")
  match faults.copy with
  | some (message, left) =>
      modify fun fs ↦ left.elim fs fun part ↦ place target part fs
      throw message
  | none =>
      let fs ← get
      let entry ← check (present (find? source fs) "ENOENT: no such file or directory, cp")
      let copy ← check (copied keep [] entry)
      modify (place target copy)

/-- `writeFile(path, data, { flag: "wx" })`. -/
def writeNew (faults : Faults) (path : Path) (data : Buffer) : Action FileSystem PUnit := do
  let fs ← get
  check (require ((find? path fs).isNone = true) "EEXIST: file already exists, open")
  match faults.write with
  | some (message, left) =>
      modify fun fs ↦ left.elim fs fun part ↦ place path (.file part) fs
      throw message
  | none => modify (place path (.file data))

/-- A rename may put an entry there: nothing but an empty directory is replaced. -/
def vacant (path : Path) (fs : FileSystem) : Bool :=
  match find? path fs with
  | none | some (.directory []) => true
  | _ => false

/-- `rename(source, target)`. -/
def rename (faults : Faults) (source target : Path) : Action FileSystem PUnit :=
  match faults.rename with
  | some message => throw message
  | none => do
      let fs ← get
      let entry ← check (present (find? source fs) "ENOENT: no such file or directory, rename")
      check (require (vacant target fs = true) "ENOTEMPTY: directory not empty, rename")
      modify fun fs ↦ place target entry (discard source fs)

/-- `rm(path, { recursive: true, force: true })`. -/
def rm (faults : Faults) (path : Path) : Action FileSystem PUnit := do
  let fs ← get
  if (find? path fs).isNone then pure ()
  else
    match faults.remove with
    | some (message, left) =>
        modify (place path left)
        throw message
    | none => modify (discard path)

end PeerHours.Node
