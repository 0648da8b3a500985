import BoolCalc.Log.Service
import BoolCalc.Store.Catalog
import BoolCalc.Store.Repository

namespace BoolCalc.Store

/-!
# A store that keeps its expressions in a file

* `Disk` : the file and the clock that a store finds outside;
* `Shelf` : a catalog, and the path of the file it is kept in, if there is one;
* `Shelf.ofExpressions`, `Shelf.openAt` : a store without a file, and the store of a file;
* `Shelf.list`, `Shelf.get`, `Shelf.create`, `Shelf.save`, `Shelf.delete` : the calls.

A change is made to a copy of the catalog. The copy is written first and put in place afterwards, so that
a change that cannot be written leaves everything as it was. A call that breaks off spoils the store: all
later calls fail.
-/

/-- What the path of a store file leads to. -/
inductive FileContent where
  | missing
  | text (content : String)
  /-- Something that cannot be read as a text, for the given `reason`. -/
  | unreadable (reason : String)
  deriving DecidableEq, Repr, Inhabited

/-- What a store finds outside: its file, and the clock. -/
structure Disk where
  content : FileContent := .missing
  /-- Why nothing can be written there, if nothing can. -/
  fault : Option String := none
  /-- What the clock shows; it goes into `Snapshot.savedAt`. -/
  now : Timestamp := .epoch
  deriving DecidableEq, Inhabited

/-- The disk after `content` was written, or its `fault`. -/
def Disk.write (d : Disk) (content : String) : Except String Disk :=
  match d.fault with
  | some reason => .error reason
  | none => .ok { d with content := .text content }

/-- The expressions of the store file, or why there are none; a file that is `missing` holds none. -/
def Disk.expressions (d : Disk) : Except String (List Expression) :=
  match d.content with
  | .missing => .ok []
  | .unreadable reason => .error reason
  | .text content =>
    match Snapshot.parse? content with
    | some s => .ok s.expressions
    | none => .error "not a store file"

/-- A `Catalog` that may be kept in a file as well. -/
structure Shelf where
  catalog : Catalog
  path : Option String := none
  /-- True after a call broke off in the middle of a change. -/
  spoiled : Bool := false
  disk : Disk := {}
  deriving Inhabited

namespace Shelf

/-! ### Opening -/

/-- A store without a file, with the expressions `es`. -/
def ofExpressions (es : List Expression) : Reply Shelf :=
  match Catalog.ofExpressions? es with
  | some catalog => .ok { catalog }
  | none => .error .overflow

/-- The `.note` on a file that was read. -/
def loadedNote (path : String) (es : List Expression) : Log.Entry :=
  .note .debug s!"Loaded {es.length} expressions from {path}"

/-- The store of the file at `path`, and what is noted on the way. -/
def openAt (path : String) (disk : Disk) : Reply Shelf × List Log.Entry :=
  match disk.expressions with
  | .error reason => (.error (.failed (.unreadable path reason)), [])
  | .ok es =>
    let shelf := (ofExpressions es).map fun s => { s with path := some path, disk := disk }
    (shelf, [loadedNote path es])

/-! ### Changes -/

/-- The failure of every call of a store that is `spoiled`. -/
def spoiledError : StoreError := .storage "repository lock poisoned"

/-- The text of the store file for the catalog `c`, saved at `now`. -/
def fileText (c : Catalog) (now : Timestamp) : String :=
  (⟨some now, c.entries⟩ : Snapshot).text

/-- Writes the catalog `staged` and puts it in place. If it cannot be written, the store stays as it was. -/
def commit (s : Shelf) (value : α) (staged : Catalog) : Reply α × Shelf :=
  match s.path with
  | none => (.ok value, { s with catalog := staged })
  | some path =>
    -- The file comes first: where it cannot be written, the catalog stays as it was.
    match s.disk.write (fileText staged s.disk.now) with
    | .error reason => (.error (.failed (.storage s!"writing {path}: {reason}")), s)
    | .ok disk => (.ok value, { s with catalog := staged, disk := disk })

/-- A call of a store that is not `spoiled`; a spoiled one fails with `spoiledError`. -/
def guarded (s : Shelf) (call : Reply α × Shelf) : Reply α × Shelf :=
  if s.spoiled then (.error (.failed spoiledError), s) else call

/-! ### The calls -/

/-- All expressions, in the order of their ids (`Repository.all`). -/
def list (s : Shelf) : Reply (List Expression) × Shelf :=
  s.guarded (.ok s.catalog.entries, s)

/-- The expression with the id `id`. -/
def get (id : Id) (s : Shelf) : Reply Expression × Shelf :=
  s.guarded <|
    match s.catalog.get? id with
    | some e => (.ok e, s)
    | none => (.error (.failed (.notFound id)), s)

/-- A new expression under `catalog.next`. Where no id is left after it, the store is `spoiled`. -/
def create (definition : String) (s : Shelf) : Reply Expression × Shelf :=
  s.guarded <|
    match s.catalog.create? definition with
    | some (e, staged) => s.commit e staged
    | none => (.error .overflow, { s with spoiled := true })

/-- The expression with the id `id` under a new definition. -/
def save (id : Id) (definition : String) (s : Shelf) : Reply Expression × Shelf :=
  s.guarded <|
    match s.catalog.replace? id definition with
    | some (e, staged) => s.commit e staged
    | none => (.error (.failed (.notFound id)), s)

/-- Takes the expression with the id `id` away. -/
def delete (id : Id) (s : Shelf) : Reply Unit × Shelf :=
  s.guarded <|
    match s.catalog.erase? id with
    | some staged => s.commit () staged
    | none => (.error (.failed (.notFound id)), s)

end Shelf

instance : Repository Shelf where
  all := Shelf.list
  get := Shelf.get
  create := Shelf.create
  save := Shelf.save
  delete := Shelf.delete

end BoolCalc.Store
