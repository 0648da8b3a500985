namespace BoolCalc.Console

/-!
# Paths

* `PathFault` : why a path does not lead to a file;
* `Spot` : a place in a tree of folders, by names below a base;
* `Path` : a path, taken apart;
* `Path.ofText` : reads a path, or tells why no place can have it.

A path is followed name by name (`Spot.follow`). A dot stays, and two dots go back to the folder around.
-/

/-! ### Faults -/

/-- Why a path does not lead to a file. -/
inductive PathFault where
  | noEntry
  /-- The path goes on behind a file. -/
  | notFolder
  | isFolder
  /-- A name of more than `maxNameBytes` bytes, or a path of `tooManyBytes`. -/
  | nameTooLong
  /-- The character NUL, which no name contains. -/
  | nulCharacter
  deriving DecidableEq, Repr, Inhabited

/-- What is reported of the fault, in the words of the operating system. -/
def PathFault.message : PathFault → String
  | .noEntry => "No such file or directory (os error 2)"
  | .notFolder => "Not a directory (os error 20)"
  | .isFolder => "Is a directory (os error 21)"
  | .nameTooLong => "File name too long (os error 36)"
  | .nulCharacter => "file name contained an unexpected NUL byte"

/-! ### Places -/

/-- Where the names of a `Spot` start. -/
inductive Base where
  | here
  /-- A folder that encloses it. -/
  | above
  | root
  deriving DecidableEq, Repr, Inhabited

/-- A place: `names` one below the other, the outermost first. -/
structure Spot where
  base : Base
  names : List String := []
  deriving DecidableEq, Repr, Inhabited

namespace Spot

/-- Where `..` leads from a spot; the root has no parent but itself. -/
def parent : Spot → Spot
  | ⟨.here, []⟩ => ⟨.above, []⟩
  | ⟨base, names⟩ => ⟨base, names.dropLast⟩

def maxNameBytes : Nat := 255

/-- Where `name` leads from the folder `s`. -/
def follow (s : Spot) (name : String) : Except PathFault Spot :=
  if name = "." then .ok s
  else if name = ".." then .ok s.parent
  else if maxNameBytes < name.utf8ByteSize then .error .nameTooLong
  else .ok { s with names := s.names ++ [name] }

end Spot

/-! ### Paths -/

/-- A path, taken apart by `Path.ofText`. -/
structure Path where
  /-- Where the path starts: at `/`, or where the command runs. -/
  start : Spot
  /-- The names to `follow` one after the other. -/
  names : List String
  /-- True if the path ends with `/`, so that it can only be that of a folder. -/
  isFolderPath : Bool
  deriving DecidableEq, Repr, Inhabited

namespace Path

/-- A path of this many bytes is too long for the operating system. -/
def tooManyBytes : Nat := 4096

/-- What stands between the `/` of a path, unless that is nothing. -/
def namesOf (text : String) : List String := (text.splitOn "/").filter (· != "")

/-- Reads the path `text`; nothing is looked up yet. -/
def ofText (text : String) : Except PathFault Path :=
  if text.toList.any (·.toNat == 0) then .error .nulCharacter
  else if text.isEmpty then .error .noEntry
  else if tooManyBytes ≤ text.utf8ByteSize then .error .nameTooLong
  else .ok {
    start := ⟨if text.startsWith "/" then .root else .here, []⟩
    names := namesOf text
    isFolderPath := text.endsWith "/" }

end Path

end BoolCalc.Console
