import FirmwareDebug.Bytes

/-!
# A folder of files

Follows a path from a folder to one of the files in it. Nothing is known of what lies around the
folder, except that from the root there is a way to a device that is always empty.
-/

namespace FirmwareDebug

/-- Why a path leads to no file that can be read. -/
inductive PathFault
  | missing
  | notFolder
  | isFolder
  | tooLong
  | other (reason : String)
  deriving DecidableEq, Repr

def PathFault.message : PathFault → String
  | missing => "No such file or directory (os error 2)"
  | notFolder => "Not a directory (os error 20)"
  | isFolder => "Is a directory (os error 21)"
  | tooLong => "File name too long (os error 36)"
  | other reason => reason

abbrev Folder := List (String × Bytes)

namespace Folder

/-- Where a path has led to. -/
inductive Place
  /-- The folder that paths start from. -/
  | here
  /-- A folder that this one lies in. -/
  | above
  | root
  | devices
  | file (bytes : Bytes)
  deriving Repr

def longestName : Nat := 255

def longestPath : Nat := 4095

def named? (folder : Folder) (name : String) : Place → Option Place
  | .here => (folder.lookup name).map .file
  | .root => if name = "dev" then some .devices else none
  | .devices => if name = "null" then some (.file #[]) else none
  | .above | .file _ => none

/-- One step of a path. An empty name and a dot stay where they are, but only a folder has a next step. -/
def step (folder : Folder) (place : Place) (name : String) : Except PathFault Place :=
  match place, name with
  | .file _, _ => .error .notFolder
  | place, "" | place, "." => .ok place
  | .root, ".." | .devices, ".." => .ok .root
  | _, ".." => .ok .above
  | place, name =>
    if longestName < name.utf8ByteSize then .error .tooLong
    else (folder.named? name place).elim (.error .missing) .ok

def read (folder : Folder) (path : String) : Except PathFault Bytes := do
  if path = "" then throw .missing
  if longestPath < path.utf8ByteSize then throw .tooLong
  let start : Place := if path.startsWith "/" then .root else .here
  match ← (path.splitOn "/").foldlM folder.step start with
  | .file bytes => return bytes
  | _ => throw .isFolder

end Folder

end FirmwareDebug
