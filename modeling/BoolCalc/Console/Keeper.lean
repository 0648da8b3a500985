import BoolCalc.Console.Arguments
import BoolCalc.Console.Folder
import BoolCalc.Store.Service

namespace BoolCalc.Console

/-!
# The command line of stored expressions

* `Task` : what the command can do;
* `Keeper` : what the command finds when it is called;
* `Keeper.perform` : does a task;
* `Keeper.run` : the whole command: what it prints, and what it writes;
* `Keeper.runIn` : the command in a folder, and the folder afterwards.
-/

/-- What the command can do, with the path of the `store` it works on. -/
inductive Task where
  /-- A definition that is not stored: no `store` is opened for it. -/
  | evaluate (definition values : String)
  | execute (store id values : String)
  | list (store : String)
  | create (store definition : String)
  | update (store id definition : String)
  | delete (store id : String)
  deriving DecidableEq, Repr, Inhabited

namespace Task

/-- The option `--store` for the path of the store, which may not be `""`. -/
def storeOption : OptionForm := { name := "store", mayBeEmpty := false }

/-- The option `--id` for the number of an expression. -/
def idOption : OptionForm := { name := "id" }

/-- The option `--definition`. -/
def definitionOption : OptionForm := { name := "definition" }

/-- The option `--values` for a parameter string; left out, it is `""`. -/
def valuesOption : OptionForm := { name := "values", otherwise := some "" }

/-- The `SubcommandForm`s of the command. -/
def forms : List SubcommandForm :=
  [⟨"eval", [definitionOption, valuesOption]⟩,
   ⟨"run", [storeOption, idOption, valuesOption]⟩,
   ⟨"list", [storeOption]⟩,
   ⟨"create", [storeOption, definitionOption]⟩,
   ⟨"update", [storeOption, idOption, definitionOption]⟩,
   ⟨"delete", [storeOption, idOption]⟩]

/-- The task of the subcommand `name` with the options `g`. -/
def ofGiven (name : String) (g : Given) : Task :=
  let value := g.value
  match name with
  | "eval" => .evaluate (value "definition") (value "values")
  | "run" => .execute (value "store") (value "id") (value "values")
  | "list" => .list (value "store")
  | "create" => .create (value "store") (value "definition")
  | "update" => .update (value "store") (value "id") (value "definition")
  | _ => .delete (value "store") (value "id")

/-- The path of the store that a task works on. `.evaluate` works on none. -/
def store? : Task → Option String
  | .evaluate .. => none
  | .execute store .. | .list store | .create store _ | .update store .. | .delete store _ => some store

end Task

/-- What the command finds when it is called. -/
structure Keeper where
  /-- What the path of a store file leads to. -/
  disk : String → Store.Disk
  /-- Which messages of the log are shown, whatever `filterFor` makes of the arguments. -/
  filter : Option Log.Filter := none

structure Written where
  path : String
  text : String
  deriving DecidableEq, Repr, Inhabited

/-- What a `Task` leaves behind. -/
structure Keeper.Done where
  answer : Except (Store.Stop Store.ServiceError) String
  log : List Log.Entry
  written : Option Written := none

namespace Keeper

open Store

/-! ### Tasks -/

/-- The value `v` as it is printed. -/
def printed (v : Json) : String := v.pretty ++ "\n"

/-- The store file at `path` if the session that began with `before` and ended with `after` changed it. -/
def written? (path : String) (before after : Disk) : Option Written :=
  if before.content = after.content then none
  else
    match after.content with
    | .text text => some ⟨path, text⟩
    | .missing | .unreadable _ => none

/-- The `call` of the service over the store file at `path`; the answer is printed by `shown`. -/
def session (k : Keeper) (path : String) (call : Call Shelf α) (shown : α → String) : Done :=
  match Shelf.openAt path (k.disk path) with
  | (.error e, notes) => { answer := .error (e.map .store), log := notes }
  | (.ok shelf, notes) =>
    let (result, s) := call.answer { repository := shelf }
    { answer := result.map shown, log := notes ++ s.log
      written := written? path shelf.disk s.repository.disk }

/-- Takes the expression `id` out of the store, with a note in the log. -/
def deletion (id : String) : Call Shelf Unit := do
  Service.delete id
  Call.tell (.note .info s!"expression {id} deleted")

/-- Does a task: the call of `Store.Service` that it stands for. -/
def perform (k : Keeper) : Task → Done
  | .evaluate definition values =>
    let (result, s) := (Service.evaluate definition values).answer ({ repository := () } : Service Unit)
    { answer := result.map (printed ·.toJson), log := s.log }
  | .execute store id values => k.session store (Service.execute id values) (printed ·.toJson)
  | .list store =>
    k.session store Service.list fun es => printed (.array (es.map Expression.toJson))
  | .create store definition => k.session store (Service.create definition) (printed ·.toJson)
  | .update store id definition => k.session store (Service.save id definition) (printed ·.toJson)
  | .delete store id => k.session store (deletion id) fun _ => ""

/-! ### The command -/

/-- The messages of the log that are shown after so many `-v`. -/
def filterFor : Nat → Log.Filter
  | 0 => .warn
  | 1 => .info
  | _ => .debug

/-- The lines for the entries of `log` that `f` admits. -/
def shownLog (f : Log.Filter) (log : List Log.Entry) : String :=
  String.join ((log.filter (f.admits ·.level)).map fun e => e.facadeLine ++ "\n")

/-- What is said to `--help`. -/
def helpText : String :=
  String.intercalate "\n"
    ["Evaluate and manage stored boolean expressions", "",
     "Usage: expression-service [OPTIONS] <COMMAND>", "",
     "Commands:",
     "  eval    Evaluate a definition without storing it",
     "  run     Evaluate a stored expression",
     "  list    List stored expressions",
     "  create  Store a new expression",
     "  update  Replace the definition of a stored expression",
     "  delete  Remove a stored expression", "",
     "Options:",
     "  -v, --verbose  Increase log verbosity (-v info, -vv debug)",
     "  -h, --help     Print help",
     "  -V, --version  Print version", ""]

/-- What the command prints when the task is done; a failure of the service has the status `1`. -/
def outcome (k : Keeper) (verbosity : Nat) (d : Done) : Outcome :=
  let log := shownLog (k.filter.getD (filterFor verbosity)) d.log
  match d.answer with
  | .ok text => ⟨0, text, log⟩
  | .error (.failed e) => ⟨1, "", log ++ printed e.report.toJson⟩
  | .error .overflow => ⟨101, "", log ++ overflowMessage ++ "\n"⟩

/-- The task that `arguments` ask for, and the number of `-v`. -/
def readTask (arguments : List String) : Verdict (Task × Nat) :=
  (readArguments Task.forms 0 arguments).andThen fun (name, g) =>
    .run (Task.ofGiven name g, g.verbosity)

/-- The whole command: its `Outcome`, and the file that it writes, if any. -/
def run (k : Keeper) (arguments : List String) : Outcome × Option Written :=
  match readTask arguments with
  | .run (task, verbosity) =>
    let d := k.perform task
    (k.outcome verbosity d, d.written)
  | .help => (⟨0, helpText, ""⟩, none)
  | .version => (⟨0, "expression-service 0.1.0\n", ""⟩, none)
  | .misuse reason => (⟨2, "", s!"error: {reason}\n"⟩, none)

/-- The path that `session` will open, if there is one. -/
def storePath? (arguments : List String) : Option String :=
  match readTask arguments with
  | .run (task, _) => task.store?
  | .help | .version | .misuse _ => none

/-- The command `run` inside `folder` at the time `now`: what it leaves behind, and the folder afterwards. -/
def runIn (folder : Folder) (now : Timestamp) (filter : Option Log.Filter) (arguments : List String) :
    Outcome × Folder :=
  let k : Keeper := { disk := fun path => folder.disk path now, filter }
  let (outcome, written) := k.run arguments
  (outcome, written.elim folder fun w => folder.write w.path w.text)

end Keeper

end BoolCalc.Console
