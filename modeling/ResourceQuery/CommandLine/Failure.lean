import ResourceQuery.Query.Error

/-!
# Failures of commands
-/

namespace ResourceQuery
namespace CommandLine

/-- Why a command fails. -/
inductive Failure where
  | config (message : String)
  | fixture (message : String)
  | invalidArgument (message : String)
  | queryFailed (error : QueryError)
  | tooDeep
  | io (message : String)
deriving DecidableEq

namespace Failure

/-- The stable name of this kind of failure. -/
def code : Failure → String
  | .config _ => "CLUSTERQ_CLI_CONFIG_ERROR"
  | .fixture _ => "CLUSTERQ_CLI_FIXTURE_ERROR"
  | .invalidArgument _ => "CLUSTERQ_CLI_INVALID_ARGUMENT"
  | .queryFailed _ => "CLUSTERQ_CLI_QUERY_FAILED"
  | .tooDeep => "CLUSTERQ_CLI_QUERY_FAILED"
  | .io _ => "CLUSTERQ_CLI_IO_ERROR"

/-- The failure in words; a failed query shows the name of its error in brackets. -/
def message : Failure → String
  | .config text => text
  | .fixture text => text
  | .invalidArgument text => text
  | .queryFailed e => "[" ++ e.code ++ "] " ++ e.message
  | .tooDeep => "query nests too deeply"
  | .io text => text

/-- The line that reports a failure. -/
def display (f : Failure) : String := f.code ++ ": " ++ f.message

end Failure
end CommandLine
end ResourceQuery
