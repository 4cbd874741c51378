import Fcam.Base.Path
import Fcam.Model.Text

/-!
# The URL of the database

`build_database_url` of the application, and `_sqlite_url_from_path` with which the migration tool
opens the same file. What SQLAlchemy takes from a URL as the name of the database is a parameter.
Paths are those of POSIX or of Windows.
-/

namespace Fcam

/-- `text.replace("\\", "/")`. -/
def forwardSlashes (text : PyStr) : PyStr := text.map fun c => if c = 92 then 47 else c

/-- `text.lstrip("/")`. -/
def lstripSlashes (text : PyStr) : PyStr := text.dropWhile fun c => c = 47

/-- `config.database`. -/
structure DatabaseConfig where
  path : PyStr := PyStr.ofString "./data/api_manager.db"
  url : Option PyStr := none

/-- `len(path) >= 3 and path[1:3] == ":/"`. -/
def isDrivePath (path : PyStr) : Bool :=
  3 ≤ path.length && (path.drop 1).take 2 == PyStr.ofString ":/"

/-- `build_database_url`; `text.lstrip("./")` takes away all leading dots and slashes. -/
def buildDatabaseUrl (config : DatabaseConfig) : PyStr :=
  match config.url.filter (· ≠ []) with
  | some url => url
  | none =>
    let path := forwardSlashes config.path
    if Rooted 47 path then PyStr.ofString "sqlite:////" ++ lstripSlashes path
    else if isDrivePath path then PyStr.ofString "sqlite:///" ++ path
    else PyStr.ofString "sqlite:///./" ++ stripLeading 47 46 path

/-- `_sqlite_url_from_path`. -/
def sqliteUrlFromPath (path : PyStr) : PyStr :=
  let normalized := forwardSlashes path
  if Rooted 47 normalized then PyStr.ofString "sqlite:////" ++ lstripSlashes normalized
  else if isDrivePath normalized then PyStr.ofString "sqlite:///" ++ normalized
  else PyStr.ofString "sqlite:///" ++ normalized

/-! ### Paths of the platform -/

/-- A path with its separators as slashes. -/
def nativePath (windows : Bool) (path : PyStr) : PyStr :=
  if windows then forwardSlashes path else path

/-- A letter and a colon begin the path. -/
def hasDrive : PyStr → Bool
  | letter :: 58 :: _ => (65 ≤ letter && letter ≤ 90) || (97 ≤ letter && letter ≤ 122)
  | _ => false

/-- `//host/share` before the rest of a path on Windows. -/
def splitShare (path : PyStr) : Option (PyStr × PyStr) :=
  if path.take 2 = [47, 47] ∧ (path.drop 2).head? ≠ some 47 then
    match (path.drop 2).dropWhile fun c => c ≠ 47 with
    | [] => none
    | _ :: rest =>
      if rest.head? = some 47 then none
      else
        let host := (path.drop 2).takeWhile fun c => c ≠ 47
        let share := rest.takeWhile fun c => c ≠ 47
        some ([47, 47] ++ host ++ [47] ++ share, 47 :: (rest.dropWhile fun c => c ≠ 47).drop 1)
  else none

/-- The drive of a path and what follows it, as `pathlib` splits it. -/
def splitDrive (windows : Bool) (path : PyStr) : PyStr × PyStr :=
  if windows then
    if hasDrive path then (path.take 2, path.drop 2) else (splitShare path).getD ([], path)
  else ([], path)

/-- The names of a path with slashes between them. -/
def parts (path : PyStr) : PyStr := [47].intercalate (pathSegments 47 46 path)

/-- The root `pathlib` writes; on POSIX two leading slashes are kept, more are one. -/
def posixRoot (windows : Bool) (path : PyStr) : PyStr :=
  if windows = false ∧ path.take 2 = [47, 47] ∧ path.take 3 ≠ [47, 47, 47] then [47, 47] else [47]

/-- How `pathlib` writes a path with slashes. -/
def posixForm (windows : Bool) (path : PyStr) : PyStr :=
  let drive := (splitDrive windows path).1
  let rest := (splitDrive windows path).2
  if Rooted 47 rest then drive ++ posixRoot windows rest ++ parts rest
  else if drive = [] ∧ parts rest = [] then [46]
  else drive ++ parts rest

/-- `Path(path).as_posix()`. -/
def asPosix (windows : Bool) (path : PyStr) : PyStr := posixForm windows (nativePath windows path)

/-- The URL under which `main` opens the source; without a path there is none. -/
def sourceUrl (windows : Bool) (sqlitePath : PyStr) : Option PyStr :=
  if sqlitePath = [] then none else some (sqliteUrlFromPath (asPosix windows sqlitePath))

/-! ### Files -/

/-- Where a path starts: at the root (on Windows that of the current drive), in the working
directory, at the root or in the working directory of a drive, or on a share. -/
inductive PathStart where
  | root
  | cwd
  | drive (letter : Nat)
  | driveCwd (letter : Nat)
  | share (path : PyStr)
  deriving DecidableEq

/-- Nothing is above where it starts. -/
def PathStart.top : PathStart → Bool
  | .root | .drive _ | .share _ => true
  | .cwd | .driveCwd _ => false

/-- `..`. -/
def upName : PyStr := [46, 46]

/-- The directories and files of the platform. -/
abbrev Files := FileSystem Nat PathStart upName PathStart.top

/-- The start of a path and its names; the names on a share are not told apart. -/
def parsePath (windows : Bool) (path : PyStr) : PathStart × List PyStr :=
  if windows = true ∧ path.take 2 = [47, 47] then (.share path, [])
  else if windows = true ∧ hasDrive path = true then
    let start := if Rooted 47 (path.drop 2) then PathStart.drive else PathStart.driveCwd
    (start (path.headD 0), pathSegments 47 46 (path.drop 2))
  else (if Rooted 47 path then .root else .cwd, pathSegments 47 46 path)

/-- The file at `os.path.abspath(path)`, where `..` takes off the name before it, wherever that
leads. The working directory has its absolute path without links, so what is taken off that is where
`..` leads. -/
def abspathFile (windows : Bool) (fs : Files) (path : PyStr) : fs.Node :=
  let read := parsePath windows (nativePath windows path)
  fs.walk read.1 (normalNames upName read.1.top read.2)

/-- The file a path denotes. On POSIX `..` is the directory above the one the name before it leads
to; Windows strikes it out as `abspath` does, and has no `?` in its names. -/
def pathFile (windows : Bool) (fs : Files) (path : PyStr) : Option fs.Node :=
  if windows then if 63 ∈ path then none else some (abspathFile true fs path)
  else some (fs.walk (parsePath false path).1 (parsePath false path).2)

/-- The file SQLAlchemy opens for a URL, `abspath` of the name of its database; a database in memory
is in none. -/
def urlFile (database : PyStr → PyStr) (windows : Bool) (fs : Files) (url : PyStr) :
    Option fs.Node :=
  let name := database url
  if name = [] ∨ name = PyStr.ofString ":memory:" then none else some (abspathFile windows fs name)

end Fcam
