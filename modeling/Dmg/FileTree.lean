import Dmg.CartridgeFile

/-! # File trees

Folders and files as a value, and what reading a path gives in them. A path is followed component by
component from a folder: an empty component and `.` stay, `..` goes to the folder above, and only a
folder can be passed through. -/

namespace Dmg

inductive FileTree where
  | file (contents : Array UInt8)
  | folder (entries : List (String × FileTree))

namespace FileTree

/-- Bytes in the longest name of a file. -/
def longestName : Nat := 255

/-- Bytes in the longest path. -/
def longestPath : Nat := 4095

/-- The entry of a folder; none of its other entries, and nothing inside a file. -/
def child (t : FileTree) (name : String) : Except FileError FileTree :=
  match t with
  | .file _ => .error .notDirectory
  | .folder entries =>
    if name.utf8ByteSize > longestName then .error .nameTooLong
    else match entries.lookup name with
      | some t => .ok t
      | none => .error .notFound

/-- Follow the components of a path from `here`; `above` are the folders it lies in, innermost
first. The topmost folder lies in itself. -/
def follow : List String → FileTree → List FileTree → Except FileError FileTree
  | [], here, _ => .ok here
  | name :: rest, here, above =>
    match here with
    | .file _ => .error .notDirectory
    | .folder _ =>
      if name = "" ∨ name = "." then follow rest here above
      else if name = ".." then
        match above with
        | [] => follow rest here []
        | parent :: above => follow rest parent above
      else match here.child name with
        | .ok next => follow rest next (here :: above)
        | .error e => .error e

/-- Reading a file as a whole. -/
def contents : FileTree → Except FileError (Array UInt8)
  | .file bytes => .ok bytes
  | .folder _ => .error .isDirectory

/-- The files of a tree, for a reader in the folder `home` of its topmost folder. A path that starts
with a slash is followed from the top, and one that is too long is not followed at all. -/
def files (top : FileTree) (home : String) : Files := fun path =>
  if path = "" then .error .notFound
  else if path.utf8ByteSize > longestPath then .error .nameTooLong
  else if path.startsWith "/" then (follow (path.splitOn "/") top []).bind contents
  else (follow (home :: path.splitOn "/") top []).bind contents

end FileTree

end Dmg
