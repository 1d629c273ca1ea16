import ResourceQuery.Text.Integer
import ResourceQuery.Text.Split

/-!
# The grammar of the command line

There are two commands: `query`, which takes a resource name and options, and `types`, which
takes options only.  An option is written `--name value` or `--name=value`, a flag `--name`.
Arguments are read from left to right.  The value of an option is checked when the next
option, flag or resource name is met, or at the end; behind `--` everything is a resource
name.
-/

namespace ResourceQuery
namespace CommandLine

/-- Why a command line is not carried out. -/
inductive UsageError where
  | displayHelp
  | displayVersion
  | displayHelpOnMissingArgument
  | invalidSubcommand
  | missingRequiredArgument
  | unknownArgument
  | argumentConflict
  | invalidValue
  | valueValidation
  | tooManyValues
deriving DecidableEq

/-- The name of a kind of usage error. -/
def UsageError.name : UsageError → String
  | .displayHelp => "DisplayHelp"
  | .displayVersion => "DisplayVersion"
  | .displayHelpOnMissingArgument => "DisplayHelpOnMissingArgumentOrSubcommand"
  | .invalidSubcommand => "InvalidSubcommand"
  | .missingRequiredArgument => "MissingRequiredArgument"
  | .unknownArgument => "UnknownArgument"
  | .argumentConflict => "ArgumentConflict"
  | .invalidValue => "InvalidValue"
  | .valueValidation => "ValueValidation"
  | .tooManyValues => "TooManyValues"

/-- The commands. -/
inductive Verb where
  | query
  | types
deriving DecidableEq

/-- The command of a name. -/
def Verb.ofName? : String → Option Verb
  | "query" => some .query
  | "types" => some .types
  | _ => none

/-- The options that take a value. -/
inductive ValueOption where
  | config
  | fixture
  /-- A key binding; repeatable. -/
  | key
  | fields
  /-- An equality filter; repeatable. -/
  | filter
  | pageSize
  | offset
  /-- A sort key; repeatable. -/
  | sort
  | logFilter
deriving DecidableEq

/-- The options without a value. -/
inductive Flag where
  /-- Count the offset from the end. -/
  | fromEnd
  | compact
  | help
deriving DecidableEq

/-- What the name of an option stands for under a command. -/
def optionNamed? (verb : Verb) : String → Option (ValueOption ⊕ Flag)
  | "config" => some (.inl .config)
  | "fixture" => some (.inl .fixture)
  | "help" => some (.inr .help)
  | name =>
    match verb, name with
    | .query, "key" => some (.inl .key)
    | .query, "fields" => some (.inl .fields)
    | .query, "filter" => some (.inl .filter)
    | .query, "page-size" => some (.inl .pageSize)
    | .query, "offset" => some (.inl .offset)
    | .query, "sort" => some (.inl .sort)
    | .query, "log-filter" => some (.inl .logFilter)
    | .query, "from-end" => some (.inr .fromEnd)
    | .query, "compact" => some (.inr .compact)
    | _, _ => none

/-- What was given on a command line. -/
structure Given where
  resource : Option String
  config : Option String
  fixture : Option String
  keys : List String
  fields : Option String
  filters : List String
  pageSize : Option Nat
  offset : Option Nat
  fromEnd : Bool
  sort : List String
  compact : Bool
  logFilter : Option String
deriving DecidableEq

namespace Given

/-- Nothing was given yet. -/
def nothing : Given := ⟨none, none, none, [], none, [], none, none, false, [], false, none⟩

/-- A value that may be given once. -/
def once {α : Type} (old : Option α) (value : Except UsageError α) : Except UsageError (Option α) :=
  if old.isSome then .error .argumentConflict else value.map some

/-- A path, which is not empty. -/
def path (value : String) : Except UsageError String :=
  if value.isEmpty then .error .invalidValue else .ok value

/-- A number. -/
def number (value : String) : Except UsageError Nat :=
  (Integer.unsigned64 value.toList).mapError fun _ => .valueValidation

/-- Take the value of an option. -/
def setValue (g : Given) (value : String) : ValueOption → Except UsageError Given
  | .config => (once g.config (path value)).map fun config => { g with config }
  | .fixture => (once g.fixture (path value)).map fun fixture => { g with fixture }
  | .key => .ok { g with keys := g.keys ++ [value] }
  | .fields => (once g.fields (.ok value)).map fun fields => { g with fields }
  | .filter => .ok { g with filters := g.filters ++ [value] }
  | .pageSize => (once g.pageSize (number value)).map fun pageSize => { g with pageSize }
  | .offset => (once g.offset (number value)).map fun offset => { g with offset }
  | .sort => .ok { g with sort := g.sort ++ [value] }
  | .logFilter => (once g.logFilter (.ok value)).map fun logFilter => { g with logFilter }

/-- Take a flag. -/
def setFlag (g : Given) : Flag → Except UsageError Given
  | .fromEnd => if g.fromEnd then .error .argumentConflict else .ok { g with fromEnd := true }
  | .compact => if g.compact then .error .argumentConflict else .ok { g with compact := true }
  | .help => .error .displayHelp

end Given

/-- The state of reading arguments. -/
structure Reading where
  given : Given
  /-- An option whose value is not checked yet, with the value if it is there. -/
  pending : Option (ValueOption × Option String)
  /-- Whether `--` was met. -/
  trailing : Bool

namespace Reading

/-- Check the value of the option that waits for it. -/
def settle (r : Reading) : Except UsageError Given :=
  match r.pending with
  | none => .ok r.given
  | some (_, none) => .error .invalidValue
  | some (option, some value) => r.given.setValue value option

/-- Go on with what is given and nothing waiting. -/
def resume (r : Reading) (given : Given) : Reading := { r with given, pending := none }

/-- Read an option or flag, with the value attached to it if there is one. -/
def long (verb : Verb) (r : Reading) (name : String) (attached : Option String) :
    Except UsageError Reading :=
  match optionNamed? verb name, attached with
  | none, _ => .error .unknownArgument
  | some (.inr _), some _ => .error .tooManyValues
  | some (.inr flag), none => do return r.resume (← (← r.settle).setFlag flag)
  | some (.inl option), some value => do return r.resume (← (← r.settle).setValue value option)
  | some (.inl option), none => do
    return { r.resume (← r.settle) with pending := some (option, none) }

/-- Read an option of one letter. -/
def short (r : Reading) (letter : Char) : Except UsageError Reading :=
  if letter = 'h' then do return r.resume (← (← r.settle).setFlag .help)
  else .error .unknownArgument

/-- Read the resource name. -/
def positional (verb : Verb) (r : Reading) (arg : String) : Except UsageError Reading :=
  if verb = .query ∧ r.given.resource.isNone then do
    return r.resume { (← r.settle) with resource := some arg }
  else .error .unknownArgument

/-- The name and the attached value of an argument behind two dashes. -/
def nameAndValue (cs : List Char) : String × Option String :=
  match Split.first? '=' cs with
  | some (name, value) => (String.ofList name, some (String.ofList value))
  | none => (String.ofList cs, none)

/-- Read one argument. -/
def step (verb : Verb) (r : Reading) (arg : String) : Except UsageError Reading :=
  if r.trailing then r.positional verb arg
  else
    match arg.toList, r.pending with
    | ['-', '-'], _ => .ok { r with trailing := true }
    | '-' :: '-' :: cs, _ => r.long verb (nameAndValue cs).1 (nameAndValue cs).2
    | '-' :: letter :: _, _ => r.short letter
    | _, some (option, none) => .ok { r with pending := some (option, some arg) }
    | _, _ => r.positional verb arg

end Reading

/-- What is required of a command line: the fixture, and for a query the resource name. -/
def Given.complete (verb : Verb) (g : Given) : Bool :=
  g.fixture.isSome && (verb == .types || g.resource.isSome)

/-- Read the arguments of a command. -/
def readArguments (verb : Verb) (args : List String) : Except UsageError Given := do
  let r ← args.foldlM (Reading.step verb) ⟨.nothing, none, false⟩
  let given ← r.settle
  if given.complete verb then return given else throw .missingRequiredArgument

/-- Whether a name is that of a command. -/
def isCommandName (name : String) : Bool := (Verb.ofName? name).isSome || name == "help"

/-- The names behind `help`: a path of commands, none of which has commands of its own. -/
def helpOn : List String → UsageError
  | [] => .displayHelp
  | [name] => if isCommandName name then .displayHelp else .invalidSubcommand
  | _ => .invalidSubcommand

/-- An option in front of the command: only help and version can be asked for. -/
def leadingOption (cs : List Char) : UsageError :=
  match Reading.nameAndValue cs with
  | ("help", none) => .displayHelp
  | ("version", none) => .displayVersion
  | ("help", some _) => .tooManyValues
  | ("version", some _) => .tooManyValues
  | _ => .unknownArgument

/-- Read a whole command line. -/
def readCommand : List String → Except UsageError (Verb × Given)
  | [] => .error .displayHelpOnMissingArgument
  | "--" :: [] => .error .displayHelpOnMissingArgument
  | "--" :: arg :: _ =>
    .error (if isCommandName arg then .unknownArgument else .invalidSubcommand)
  | "help" :: names => .error (helpOn names)
  | name :: args =>
    match Verb.ofName? name with
    | some verb => (readArguments verb args).map (verb, ·)
    | none =>
      match name.toList with
      | '-' :: '-' :: cs => .error (leadingOption cs)
      | '-' :: 'h' :: _ => .error .displayHelp
      | '-' :: 'V' :: _ => .error .displayVersion
      | '-' :: _ :: _ => .error .unknownArgument
      | _ => .error .invalidSubcommand

end CommandLine
end ResourceQuery
