import ResourceQuery.CommandLine.Settings
import ResourceQuery.CommandLine.Usage
import ResourceQuery.Fixture
import ResourceQuery.Query.Execution

/-!
# What commands print

The command `query` builds a query from its arguments, carries it out against the cluster
that the fixture describes and prints the rendered result.  The command `types` prints the
definitions of the fixture.  Arguments are judged in a fixed order: resource name, key
bindings, fields, filters, page.
-/

namespace ResourceQuery
namespace CommandLine

/-- The depth to which queries are carried out. -/
def maxDepth : Nat := 4096

/-- The name and the value of an assignment; the name is not empty. -/
def assignment (option : String) (arg : String) : Except Failure (String × String) :=
  match Split.first? '=' arg.toList with
  | some (c :: name, value) => .ok (String.ofList (c :: name), String.ofList value)
  | _ => .error (.invalidArgument
      ("Invalid " ++ option ++ " '" ++ arg ++ "': expected NAME=VALUE"))

/-- A well-formed property id among the arguments. -/
def propertyId (text : String) : Except Failure PropertyId :=
  (PropertyId.ofText text).mapError fun e => .invalidArgument e.message

/-- A key binding; an empty value leaves the type open. -/
def keyBinding (arg : String) : Except Failure (ResourceType × KeyBinding) := do
  let (type, value) ← assignment "--key" arg
  return (⟨type⟩, if value.isEmpty then .unbound else .bound value)

/-- The key map of a query: the bindings given, and the type itself open if it is not bound. -/
def keyMap (type : ResourceType) (args : List String) : Except Failure KeyMap := do
  return (SortedMap.ofList (← args.mapM keyBinding)).insertIfNew type .unbound

/-- An equality filter. -/
def filter (arg : String) : Except Failure Predicate := do
  let (property, value) ← assignment "--filter" arg
  return .equals (← propertyId property) (.string value)

/-- The condition that all filters hold. -/
def filters (args : List String) : Except Failure (Option Predicate) := do
  return Predicate.conjunction (← args.mapM filter)

/-- A sort key: a property, and behind the last colon its direction. -/
def sortKey (arg : String) : Except Failure SortKey := do
  let (property, order) := match Split.last? ':' arg.toList with
    | some (property, order) => (String.ofList property, String.ofList order)
    | none => (arg, "asc")
  let id ← propertyId property
  match order with
  | "asc" => return ⟨id, .ascending⟩
  | "desc" => return ⟨id, .descending⟩
  | _ => throw (.invalidArgument ("Invalid sort order '" ++ order ++ "' in '" ++ arg ++ "'"))

/-- The sort keys, if any are given. -/
def sortKeys (args : List String) : Except Failure (Option (List SortKey)) :=
  if args.isEmpty then .ok none else (args.mapM sortKey).map some

/-- The size of a page that holds every row. -/
def unlimited : Nat := Limits.unsigned64

/-- Where the page lies. -/
def startingPoint (offset : Option Nat) (fromEnd : Bool) : StartingPoint :=
  match offset, fromEnd with
  | none, false => .beginning
  | none, true => .ending
  | some n, false => .offsetStart n
  | some n, true => .offsetEnd n

/-- The page that is asked for.  Without a size there is a page only if rows are sorted, and
it holds all of them. -/
def pageRequest (settings : Settings) (given : Given) : Except Failure (Option PageRequest) := do
  let sort ← sortKeys given.sort
  let start := startingPoint given.offset given.fromEnd
  match given.pageSize <|> settings.defaultPageSize, sort with
  | some 0, _ => throw (.invalidArgument "--page-size must be > 0")
  | some size, _ => return some ⟨start, size, sort⟩
  | none, some _ => return some ⟨start, unlimited, sort⟩
  | none, none => return none

/-- The fixture that is found under a path. -/
def loadFixture (path : String) (content : FileContent) : Except Failure Fixture :=
  match content.read with
  | .error e => .error (.fixture ("Failed to read fixture " ++ path ++ ": " ++ e))
  | .ok text =>
    match Fixture.ofText? text with
    | some fixture => .ok fixture
    | none => .error (.fixture "Invalid fixture JSON")

/-- The type of a resource name. -/
def typeNamed (catalog : Catalog) (name : String) : Except Failure ResourceType :=
  match catalog.named? name with
  | some definition => .ok definition.type
  | none => .error (.invalidArgument ("Unknown resource '" ++ name ++ "'"))

/-- The query that the arguments ask for. -/
def buildQuery (settings : Settings) (given : Given) (cluster : Cluster) :
    Except Failure Query := do
  let type ← typeNamed cluster.catalog (given.resource.getD "")
  let keys ← keyMap type given.keys
  let query ← (Query.new cluster type keys).mapError .queryFailed
  let query ← match given.fields with
    | some fields => (query.addFields cluster fields).mapError Failure.queryFailed
    | none => .ok query
  let predicate ← filters given.filters
  let page ← pageRequest settings given
  return (query.setPredicate predicate).setPage page

/-- Carry out a query and render its result. -/
def answerQuery (settings : Settings) (given : Given) (fixture : Fixture) :
    Except Failure Json := do
  let query ← buildQuery settings given fixture.cluster
  match (query.execute fixture.cluster maxDepth).outcome with
  | .ok result => return result.render
  | .error (.refused e) => throw (.queryFailed (.provider e))
  | .error .tooDeep => throw .tooDeep

/-- A definition as it is listed: its names, and the types nested beneath it. -/
def listed (d : ResourceDefinition) : Json :=
  .object [("plural_name", .string d.pluralName), ("singular_name", .string d.singularName),
    ("sub_resources", .ofList (fun s => s.type.toJson) d.subResources), ("type", d.type.toJson)]

/-- The list of the resource types. -/
def answerTypes (fixture : Fixture) : Json :=
  .object [("items", .ofList listed fixture.catalog.definitions)]

/-- The path of the settings. -/
def Given.configPath (g : Given) : String := g.config.getD Settings.defaultPath

/-- The path of the fixture. -/
def Given.fixturePath (g : Given) : String := g.fixture.getD ""

/-- The text that a command prints, when its files are found with the given contents. -/
def answer (verb : Verb) (given : Given) (config fixture : FileContent) :
    Except Failure String := do
  let settings ← Settings.load config
  let fixture ← loadFixture given.fixturePath fixture
  let value ← match verb with
    | .query => answerQuery settings given fixture
    | .types => .ok (answerTypes fixture)
  let pretty := settings.pretty && !given.compact
  return (if pretty then value.indented else value.text) ++ "\n"

end CommandLine
end ResourceQuery
