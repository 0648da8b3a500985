import BoolCalc.Console.Path
import BoolCalc.Store.Shelf

namespace BoolCalc.Console

/-!
# A folder with files

* `Folder` : files with their texts;
* `Folder.entry?` : what there is at a place;
* `Folder.find`, `Folder.target` : the text to read at a path, and the place to write to;
* `Folder.read`, `Folder.disk`, `Folder.write` : reading a file, the disk of a store, and writing a file;
* `Outcome` : what a command leaves behind.

Everything that a file's path runs through is a folder, too. Around the folder there are only the folders that
every system has.
-/

/-- What a command leaves behind: its exit `status`, and what it printed on either channel. -/
structure Outcome where
  status : Nat
  output : String := ""
  errors : String := ""
  deriving DecidableEq, Repr, Inhabited

/-- What there is at a `Spot`. -/
inductive Entry where
  | folder
  | file (text : String)
  deriving DecidableEq, Repr, Inhabited

/-- Files with their texts, by the names on the way to them from the folder `Spot.here`. -/
structure Folder where
  files : List (List String × String)
  deriving DecidableEq, Repr, Inhabited

namespace Folder

/-- The folder with the `files` of a list of paths and texts. -/
def ofFiles (files : List (String × String)) : Folder :=
  ⟨files.map fun (path, text) => ((Path.namesOf path).filter (· != "."), text)⟩

/-! ### Places -/

/-- The text of the file at `names`. -/
def file? (f : Folder) (names : List String) : Option String := f.files.lookup names

/-- True if `names` lead to a folder: to the whole folder, or to part of the way to a file. -/
def hasFolder (f : Folder) (names : List String) : Bool :=
  names.isEmpty || f.files.any fun (ns, _) => names.length < ns.length && names.isPrefixOf ns

/-- The folders that every system has below `/`. -/
def systemFolders : List String := ["bin", "dev", "etc", "home", "lib", "opt", "tmp", "usr", "var"]

/-- What there is below `/`: the `systemFolders`, and the file `/dev/null`, in which nothing stays. -/
def systemEntry? : List String → Option Entry
  | [] => some .folder
  | [name] => if systemFolders.contains name then some .folder else none
  | ["dev", "null"] => some (.file "")
  | _ => none

/-- What there is at a spot. Of what is `.above` the folder, only the folders themselves are known. -/
def entry? (f : Folder) : Spot → Option Entry
  | ⟨.here, names⟩ => if f.hasFolder names then some .folder else (f.file? names).map .file
  | ⟨.above, names⟩ => if names.isEmpty then some .folder else none
  | ⟨.root, names⟩ => systemEntry? names

/-- The spot `s` if there is a folder, or why not. -/
def asFolder (f : Folder) (s : Spot) : Except PathFault Spot :=
  match f.entry? s with
  | some .folder => .ok s
  | some (.file _) => .error .notFolder
  | none => .error .noEntry

/-- Where `name` leads from `s`, which has to be a folder. -/
def step (f : Folder) (s : Spot) (name : String) : Except PathFault Spot :=
  (f.asFolder s).bind (·.follow name)

/-- The text to read at `path`. -/
def find (f : Folder) (path : String) : Except PathFault String := do
  let p ← Path.ofText path
  let s ← p.names.foldlM f.step p.start
  match f.entry? s with
  | some (.file text) => if p.isFolderPath then .error .notFolder else .ok text
  | some .folder => .error .isFolder
  | none => .error .noEntry

/-- The spot to write to at `path`. A new file can be put there, but not a folder. -/
def target (f : Folder) (path : String) : Except PathFault Spot := do
  let p ← Path.ofText path
  let around ← (p.names.dropLast.foldlM f.step p.start).bind f.asFolder
  match p.names.getLast? with
  | none => .error .isFolder
  | some name =>
    if p.isFolderPath then .error .isFolder
    else
      let s ← around.follow name
      if f.entry? s = some .folder then .error .isFolder else .ok s

/-! ### Files -/

/-- The text of the file at `path`, or the `message` of the fault. -/
def read (f : Folder) (path : String) : Except String String := (f.find path).mapError PathFault.message

/-- What the `path` of a store leads to. Where there is no file yet, one can be put. -/
def content (f : Folder) (path : String) : Store.FileContent :=
  match f.find path with
  | .ok text => .text text
  | .error .isFolder => .unreadable PathFault.isFolder.message
  | .error _ => .missing

/-- The disk of the store at `path`; its `fault` says why nothing can be written there. -/
def disk (f : Folder) (path : String) (now : Store.Timestamp) : Store.Disk where
  content := f.content path
  fault :=
    match f.target path with
    | .ok _ => none
    | .error e => some e.message
  now := now

/-- The folder with `text` in the file at `path`. What is written outside does not change it. -/
def write (f : Folder) (path text : String) : Folder :=
  match f.target path with
  | .ok ⟨.here, names⟩ => ⟨(names, text) :: f.files.filter (·.1 != names)⟩
  | .ok _ | .error _ => f

end Folder

end BoolCalc.Console
