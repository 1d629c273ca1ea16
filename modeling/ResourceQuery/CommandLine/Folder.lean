import ResourceQuery.CommandLine.Settings
import ResourceQuery.Text.Split

/-!
# Folders

A folder is a list of files with paths relative to it.  A path is walked step by step from
the folder: a step `.` and an empty step stay, a step `..` goes up, and any other step enters
what has that name.  Only a folder can be stepped from, even by a step that stays, so that a
path with a slash behind the name of a file leads nowhere.  Of the folders above only that
they are there is known.
-/

namespace ResourceQuery
namespace CommandLine

/-- A file with its path from the folder. -/
structure File where
  path : String
  content : String

/-- Files under a common folder; a later file replaces an earlier one under the same path. -/
abbrev Folder := List File

/-- The steps of a path; an empty step between two slashes or at an end stays where it is. -/
def pathSteps (path : String) : List String :=
  (Split.all '/' path.toList).map fun cs => if cs.isEmpty then "." else String.ofList cs

/-- The names that lead down to a file, outermost first. -/
def File.names (file : File) : List String := (pathSteps file.path).filter (· != ".")

namespace Folder

/-- The file to which names lead down. -/
def fileAt? (folder : Folder) (names : List String) : Option File :=
  folder.reverse.find? fun file => file.names == names

/-- Whether names lead down to a folder: some file lies beneath them. -/
def hasFolderAt (folder : Folder) (names : List String) : Bool :=
  folder.any fun file => names.isPrefixOf file.names

/-- The folder around a folder.  A folder is given by the names that lead down to it, or by
nothing when it lies above. -/
def parent : Option (List String) → Option (List String)
  | none => none
  | some [] => none
  | some names => some names.dropLast

/-- What is found by walking on from a folder. -/
def walk (folder : Folder) : Option (List String) → List String → FileContent
  | _, [] => .directory
  | at?, step :: steps =>
    if step = "." then folder.walk at? steps
    else if step = ".." then folder.walk (parent at?) steps
    else
      match at? with
      | none => .absent
      | some names =>
        match folder.fileAt? (names ++ [step]) with
        | some file => if steps.isEmpty then .text file.content else .notDirectory
        | none =>
          if folder.hasFolderAt (names ++ [step]) then folder.walk (some (names ++ [step])) steps
          else .absent

/-- What is found under a path; a path that begins with a slash starts above the folder. -/
def find (folder : Folder) (path : String) : FileContent :=
  folder.walk (if path.toList.head? = some '/' then none else some []) (pathSteps path)

end Folder
end CommandLine
end ResourceQuery
