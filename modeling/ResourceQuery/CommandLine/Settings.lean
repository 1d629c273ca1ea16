import ResourceQuery.CommandLine.Failure
import ResourceQuery.Form

/-!
# Settings

Settings are read from a file of their own.  Every setting may be missing, and so may the
file; then the defaults hold.
-/

namespace ResourceQuery
namespace CommandLine

/-- What is found under a path. -/
inductive FileContent where
  | text (content : String)
  | directory
  | absent
  /-- Nothing, for the path goes on behind a file. -/
  | notDirectory
deriving DecidableEq

namespace FileContent

/-- The text of a file, or why there is none. -/
def read : FileContent → Except String String
  | .text content => .ok content
  | .directory => .error "Is a directory (os error 21)"
  | .absent => .error "No such file or directory (os error 2)"
  | .notDirectory => .error "Not a directory (os error 20)"

end FileContent

/-- The settings of the program. -/
structure Settings where
  logFilter : String
  pretty : Bool
  /-- The number of rows on a page when none is asked for. -/
  defaultPageSize : Option Nat
deriving DecidableEq

namespace Settings

/-- The settings when nothing else is said. -/
def default : Settings := ⟨"clusterq=info", true, none⟩

/-- The path of the settings when no other is given. -/
def defaultPath : String := "./clusterq.json"

/-- The form of settings. -/
def toJson (s : Settings) : Json :=
  .object [("default_page_size", .ofOption .ofNat s.defaultPageSize),
    ("log_filter", .string s.logFilter), ("pretty", .bool s.pretty)]

/-- Settings; each may be missing. -/
def ofDocument? (d : Document) : Option Settings := do
  let parts ← d.parts? ["log_filter", "pretty", "default_page_size"]
  let logFilter ← parts.withDefault? "log_filter" default.logFilter Document.string?
  let pretty ← parts.withDefault? "pretty" default.pretty Document.bool?
  let defaultPageSize ← parts.withDefault? "default_page_size" none (·.nullable? Document.nat?)
  return ⟨logFilter, pretty, defaultPageSize⟩

/-- Settings are acceptable when a page has rows and the log filter is not blank. -/
def check (s : Settings) : Except Failure Settings :=
  if s.defaultPageSize = some 0 then .error (.config "default_page_size must be > 0")
  else if (trim s.logFilter.toList).isEmpty then .error (.config "log_filter must not be empty")
  else .ok s

/-- The settings in a text. -/
def ofText (text : String) : Except Failure Settings :=
  match Document.ofText? text >>= ofDocument? with
  | some s => s.check
  | none => .error (.config "Invalid config JSON")

/-- The settings that are found under a path; where nothing is found the defaults hold. -/
def load : FileContent → Except Failure Settings
  | .absent | .notDirectory => .ok default
  | content =>
    match content.read with
    | .ok text => ofText text
    | .error e => .error (.config ("Failed to read config: " ++ e))

end Settings
end CommandLine
end ResourceQuery
