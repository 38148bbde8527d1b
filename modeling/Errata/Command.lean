import Errata.Lint
import Errata.Loading
import Errata.Report.Json
import Errata.Report.Printer

/-!
The command line. Its arguments ask for one of a few things, and the answer is an exit code with what is
written to the two outputs.
-/

namespace Errata.Command

inductive Format where
  | native
  | json
deriving DecidableEq, Repr

/-- What the options of a check say. An option that was not given is `none` or `false`. -/
structure Settings where
  format : Option Format := none
  concise : Bool := false
  coloured : Bool := false
  annex : Option Text := none
  noSpelling : Bool := false
  verbose : Bool := false
  file : Option Path := none
deriving DecidableEq, Repr

inductive Request where
  /-- No command was given. -/
  | usage
  /-- The version, under the name of the program or of one of its commands. -/
  | version (name : String)
  | check (settings : Settings) (file : Path)
  /-- The arguments ask for nothing that there is. -/
  | misuse
deriving DecidableEq, Repr

def programName : String := "speclint"

def versionText : String := "v0.1.0"

/-! ## Arguments -/

/-- Options that take a value. -/
inductive Valued where
  | format
  | annex
deriving DecidableEq, Repr

/-- What an argument means. -/
inductive Meaning where
  | settings (settings : Settings)
  /-- The value is the next argument. -/
  | awaiting (settings : Settings) (option : Valued)
  | version
  | unknown

/-- A flag that is set at most once. -/
def setFlag (already : Bool) (settings : Settings) : Meaning :=
  if already then .unknown else .settings settings

/-- Gives an option its value. An option has at most one value. -/
def Settings.assign (s : Settings) (option : Valued) (value : Text) : Meaning :=
  match option with
  | .format =>
    if s.format.isSome then .unknown
    else if value = "native".toList then .settings { s with format := some .native }
    else if value = "json".toList then .settings { s with format := some .json }
    else .unknown
  | .annex => if s.annex.isSome then .unknown else .settings { s with annex := some value }

/-- An option by its long name, which has a value if one was joined to it. -/
def Settings.long (s : Settings) (name : Text) (value : Option Text) : Meaning :=
  let valued (option : Valued) : Meaning :=
    match value with
    | none => .awaiting s option
    | some value => s.assign option value
  let flag (already : Bool) (set : Settings) : Meaning :=
    if value.isSome then .unknown else setFlag already set
  if name = "output".toList then valued .format
  else if name = "annex".toList then valued .annex
  else if name = "concise".toList then flag s.concise { s with concise := true }
  else if name = "raw-control-chars".toList then flag s.coloured { s with coloured := true }
  else if name = "no-spelling".toList then flag s.noSpelling { s with noSpelling := true }
  else if name = "verbose".toList then flag s.verbose { s with verbose := true }
  else if name = "version".toList && value.isNone then .version
  else .unknown

/-- Options by their letters. A letter that takes a value has the rest of the argument for it, if there
is a rest. -/
def Settings.short (s : Settings) : Text → Meaning
  | [] => .settings s
  | 'o' :: [] => .awaiting s .format
  | 'o' :: '=' :: value => s.assign .format value
  | 'o' :: value => s.assign .format value
  | 'R' :: letters =>
    if s.coloured then .unknown else Settings.short { s with coloured := true } letters
  | 'v' :: letters =>
    if s.verbose then .unknown else Settings.short { s with verbose := true } letters
  | 'V' :: _ => .version
  | _ => .unknown

def Settings.positional (s : Settings) (value : Text) : Meaning :=
  if s.file.isSome then .unknown else .settings { s with file := some value }

/-- Whether an argument is written like an option. -/
def isOption (arg : Text) : Bool := arg.startsWith "-" && arg ≠ ['-']

/-- The name and the joined value of a long option. -/
def splitValue (arg : Text) : Text × Option Text :=
  let name := arg.takeWhile (· ≠ '=')
  (name, if name.length < arg.length then some (arg.drop (name.length + 1)) else none)

def Settings.argument (s : Settings) (arg : Text) : Meaning :=
  if arg.startsWith "--" then
    let (name, value) := splitValue (arg.drop 2)
    s.long name value
  else if isOption arg then s.short (arg.drop 1)
  else s.positional arg

/-- How the next argument is taken. -/
inductive Mode where
  | any
  | value (option : Valued)
  /-- After `--` there are no options. -/
  | positional
deriving DecidableEq, Repr

/-- What one argument means. -/
def Settings.meaning (s : Settings) (mode : Mode) (arg : Text) : Meaning :=
  match mode with
  | .any => s.argument arg
  | .value option => if isOption arg then .unknown else s.assign option arg
  | .positional => s.positional arg

/-- How arguments are taken after one that is complete. -/
def Mode.next : Mode → Mode
  | .any => .any
  | .value _ => .any
  | .positional => .positional

/-- The request of the arguments after the command `check`. -/
def checkRequest (s : Settings) (mode : Mode) : List Text → Request
  | [] =>
    match mode, s.file with
    | .value _, _ => .misuse
    | _, none => .misuse
    | _, some file => .check s file
  | arg :: args =>
    if mode = .any && arg = "--".toList then checkRequest s .positional args
    else match s.meaning mode arg with
      | .settings s => checkRequest s mode.next args
      | .awaiting s option => checkRequest s (.value option) args
      | .version => .version (programName ++ "-check")
      | .unknown => .misuse

/-- Options by their letters, before the command. The letters say whether there is more output; one of
them can be a request already. -/
def letters (verbose : Bool) : Text → Except Request Bool
  | [] => .ok verbose
  | 'v' :: rest => if verbose then .error .misuse else letters true rest
  | 'V' :: _ => .error (.version programName)
  | _ => .error .misuse

/-- What an option before the command says, as its letters would. -/
def leading (verbose : Bool) (arg : Text) : Except Request Bool :=
  if arg = "--verbose".toList then letters verbose ['v']
  else if arg = "--version".toList then letters verbose ['V']
  else if isOption arg && !arg.startsWith "--" then letters verbose (arg.drop 1)
  else .error .misuse

/-- The request of all arguments. -/
def request (verbose : Bool) : List Text → Request
  | [] => .usage
  | arg :: args =>
    if arg = "check".toList then checkRequest {} .any args
    else if arg = "--".toList && args.isEmpty then .usage
    else match leading verbose arg with
      | .error answer => answer
      | .ok verbose => request verbose args

/-! ## Answers -/

structure Outcome where
  code : Nat
  output : String := ""
  errors : String := ""
deriving DecidableEq, Repr

def usageText : String :=
  "usage: " ++ programName ++ " [COMMAND] ...\nTry '--help' for more information.\n"

def Settings.options (s : Settings) : Lint.Options :=
  let defaults : Lint.Options := {}
  { annex := s.annex.getD defaults.annex, spelling := !s.noSpelling }

def Settings.palette (s : Settings) : Report.Palette := if s.coloured then .terminal else .plain

/-- Reports as the settings ask for them. -/
def present (s : Settings) (doc : Document) (reports : List Report) : String :=
  match s.format.getD .native with
  | .json => Report.jsonArray reports ++ "\n"
  | .native =>
    String.join (reports.map fun r =>
      if s.concise then r.concise s.palette ++ "\n" else r.full s.palette doc ++ "\n\n")

/-- The outcome of checking a document. A document that has no reports is in order. -/
def checked (s : Settings) (doc : Document) : Outcome :=
  match Lint.reports Lint.readers s.options doc with
  | .error _ => { code := 101, errors := "error: a report has no position\n" }
  | .ok reports => { code := if reports.isEmpty then 0 else 1, output := present s doc reports }

/-- The outcome of a check whose document has been loaded, if it could be. -/
def loaded (s : Settings) : Except Loading.Failure Document → Outcome
  | .error failure => { code := 2, errors := failure.concise s.palette ++ "\n" }
  | .ok doc => checked s doc

/-- Answers the arguments, reading files as needed. -/
def run {m : Type → Type} [Monad m] (read : Path → m (Except ReadFailure Text))
    (args : List Text) : m Outcome :=
  match request false args with
  | .usage => pure { code := 0, output := usageText }
  | .version name => pure { code := 0, output := name ++ " " ++ versionText ++ "\n" }
  | .misuse => pure { code := 2, errors := "error: invalid arguments\n" }
  | .check s file =>
    if file = ['-'] then
      pure {
        code := 2
        errors := "error: reading a document from standard input is not supported\n" }
    else return loaded s (← load read file)

/-- Answers the arguments in a working directory with the given files. -/
def runIn (tree : FileTree) (args : List Text) : Outcome :=
  Id.run (run (fun path => pure (tree.read path)) args)

end Errata.Command
