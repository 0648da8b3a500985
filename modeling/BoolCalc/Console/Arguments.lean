namespace BoolCalc.Console

/-!
# Arguments of a command with subcommands

* `OptionForm`, `SubcommandForm` : the options a subcommand takes;
* `Verdict` : what a list of arguments asks for;
* `readOptions` : the options behind the name of a subcommand;
* `readArguments` : the whole list.

An option is written `--name value` or `--name=value`, and its value starts with a hyphen only in the
second way. `-v` and `--verbose` may stand anywhere and as often as one likes; `-h` and `--help` ask for
help as soon as they are met.
-/

/-- An option `--name VALUE` of a subcommand. -/
structure OptionForm where
  name : String
  /-- The value where the option is left out; `none` if it must be given. -/
  otherwise : Option String := none
  /-- True if the value may be `""`. -/
  mayBeEmpty : Bool := true
  deriving DecidableEq, Repr, Inhabited

/-- A subcommand `name` with its `options`. -/
structure SubcommandForm where
  name : String
  options : List OptionForm
  deriving DecidableEq, Repr, Inhabited

/-- What a list of arguments asks for: an `α`, or what is printed instead of it. -/
inductive Verdict (α : Type) where
  /-- The command is to be run with `what` it was told. -/
  | run (what : α)
  | help
  | version
  /-- The arguments make no sense, for the given `reason`. -/
  | misuse (reason : String)
  deriving Repr

namespace Verdict

/-- The verdict `f a` if the command is to be run with `a`; any other verdict stays. -/
def andThen (v : Verdict α) (f : α → Verdict β) : Verdict β :=
  match v with
  | .run a => f a
  | .help => .help
  | .version => .version
  | .misuse reason => .misuse reason

end Verdict

/-- The options that `readOptions` has read. -/
structure Given where
  values : List (String × String) := []
  /-- The number of `-v` and `--verbose`. -/
  verbosity : Nat := 0
  deriving DecidableEq, Repr, Inhabited

/-! ### Single arguments -/

/-- True for an option; `-` alone is none. -/
def isOption (argument : String) : Bool := argument.startsWith "-" && argument != "-"

/-- The name of an argument `--name` or `--name=value`, with the value if there is one. -/
def longOption? (argument : String) : Option (String × Option String) :=
  match argument.toList with
  | '-' :: '-' :: c :: cs =>
    let name := (c :: cs).takeWhile (· != '=')
    let value := match (c :: cs).dropWhile (· != '=') with
      | [] => none
      | _ :: value => some (String.ofList value)
    some (String.ofList name, value)
  | _ => none

/-- What the letters behind a single `-` ask for. -/
def readLetters (mayAskVersion : Bool) (verbosity : Nat) : List Char → Verdict Nat
  | [] => .run verbosity
  | 'v' :: cs => readLetters mayAskVersion (verbosity + 1) cs
  | 'h' :: _ => .help
  | 'V' :: _ => if mayAskVersion then .version else .misuse "unexpected argument -V"
  | c :: _ => .misuse s!"unexpected argument -{c}"

/-- What `--verbose`, `--help` and `--version` ask for; no other option goes without a value. -/
def readCommonFlag (mayAskVersion : Bool) (verbosity : Nat) (name : String) : Verdict Nat :=
  if name == "verbose" then .run (verbosity + 1)
  else if name == "help" then .help
  else if name == "version" && mayAskVersion then .version
  else .misuse s!"unexpected argument --{name}"

/-! ### Options of a subcommand -/

/-- The options `g` with one more; no option may be given twice. -/
def Given.add (g : Given) (form : OptionForm) (value : String) : Verdict Given :=
  if (g.values.lookup form.name).isSome then .misuse s!"--{form.name} was given twice"
  else if value.isEmpty && !form.mayBeEmpty then .misuse s!"--{form.name} needs a value"
  else .run { g with values := (form.name, value) :: g.values }

/-- The options `g` with the value `otherwise` for each of the forms that was left out. -/
def Given.complete (g : Given) : List OptionForm → Verdict Given
  | [] => .run g
  | form :: forms =>
    match g.values.lookup form.name, form.otherwise with
    | some _, _ => g.complete forms
    | none, some value => Given.complete { g with values := (form.name, value) :: g.values } forms
    | none, none => .misuse s!"--{form.name} is missing"

/-- The value of an option; `Given.complete` has seen to it that there is one. -/
def Given.value (g : Given) (name : String) : String := (g.values.lookup name).getD ""

/-- The options behind the name of a subcommand, `forms` being those that it has. -/
def readOptions (forms : List OptionForm) (g : Given) : List String → Verdict Given
  | [] => g.complete forms
  | argument :: rest =>
    -- Only plain arguments may stand behind it, and no subcommand takes one.
    if argument == "--" then
      if rest.isEmpty then g.complete forms else .misuse "unexpected argument behind --"
    else
      match longOption? argument with
      | some (name, value) =>
        match forms.find? (·.name == name), value, rest with
        | some form, some value, rest => (g.add form value).andThen fun g => readOptions forms g rest
        | some form, none, value :: rest =>
          if isOption value then .misuse s!"--{form.name} needs a value"
          else (g.add form value).andThen fun g => readOptions forms g rest
        | some form, none, [] => .misuse s!"--{form.name} needs a value"
        | none, some _, _ => .misuse s!"unexpected argument {argument}"
        | none, none, rest => (readCommonFlag false g.verbosity name).andThen fun v =>
            readOptions forms { g with verbosity := v } rest
      | none =>
        if isOption argument then
          (readLetters false g.verbosity (argument.toList.drop 1)).andThen fun v =>
            readOptions forms { g with verbosity := v } rest
        else .misuse s!"unexpected argument {argument}"

/-! ### The whole list -/

/-- What `help` asks for, given the names behind it: there is help for the command and for every subcommand. -/
def readHelp (forms : List SubcommandForm) : List String → Verdict α
  | [] => .help
  | [name] =>
    if name == "help" || forms.any (·.name == name) then .help
    else .misuse s!"unknown subcommand {name}"
  | _ => .misuse "help is for one subcommand"

/-- The subcommand among `forms` that a list of arguments asks for, with its options. -/
def readArguments (forms : List SubcommandForm) (verbosity : Nat) :
    List String → Verdict (String × Given)
  | [] => .misuse "a subcommand is missing"
  | argument :: rest =>
    match longOption? argument with
    | some (_, some _) => .misuse s!"unexpected argument {argument}"
    | some (name, none) => (readCommonFlag true verbosity name).andThen fun v =>
        readArguments forms v rest
    | none =>
      if isOption argument then
        (readLetters true verbosity (argument.toList.drop 1)).andThen fun v =>
          readArguments forms v rest
      else if argument == "help" then readHelp forms rest
      else
        match forms.find? (·.name == argument) with
        | some form => (readOptions form.options { verbosity } rest).andThen fun g =>
            .run (form.name, g)
        | none => .misuse s!"unknown subcommand {argument}"

end BoolCalc.Console
