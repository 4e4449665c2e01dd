import DisplayFile.Query

/-!
# Disks

A disk is a tree of folders and files. A path is followed name by name, from the root if it starts
with a slash and from the working folder otherwise. On the way a single point stays where it is and
two points go up; the root is above itself. A slash at the end asks for a folder.
-/

namespace DisplayFile

inductive DiskEntry where
  | file (bytes : ByteArray)
  | folder (entries : List (String × DiskEntry))

/-- A file or folder, with the folders that it is in, the innermost first. -/
structure Place where
  entry : DiskEntry
  above : List DiskEntry

def Place.enter (p : Place) (name : String) : Except ReadFailure Place :=
  match p.entry with
  | .file _ => .error .notDirectory
  | .folder entries =>
    if name = "." then .ok p
    else if name = ".." then
      match p.above with
      | [] => .ok p
      | parent :: above => .ok ⟨parent, above⟩
    else if 255 < name.utf8ByteSize then .error .nameTooLong
    else
      match entries.lookup name with
      | none => .error .missing
      | some entry => .ok ⟨entry, p.entry :: p.above⟩

def pathNames (path : String) : List String :=
  let names := (path.splitOn "/").filter (· ≠ "")
  if path.endsWith "/" then names ++ ["."] else names

structure Disk where
  root : DiskEntry
  /-- The names that lead from the root to the working folder. -/
  working : List String

namespace Disk

def start (d : Disk) (path : String) : Except ReadFailure Place :=
  if path.startsWith "/" then .ok ⟨d.root, []⟩ else d.working.foldlM Place.enter ⟨d.root, []⟩

def read (d : Disk) (path : String) : Except ReadFailure ByteArray :=
  if path.contains (Char.ofNat 0) then .error .nulInName
  else if path = "" then .error .missing
  else if 4096 ≤ path.utf8ByteSize then .error .nameTooLong
  else do
    let place ← (pathNames path).foldlM Place.enter (← d.start path)
    match place.entry with
    | .file bytes => return bytes
    | .folder _ => throw .directory

end Disk

end DisplayFile
