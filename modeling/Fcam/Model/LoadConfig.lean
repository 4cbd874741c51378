import Fcam.Base.NestedMap
import Fcam.Model.Text

/-!
# Loading the configuration

`config.py`: `_deep_merge`, `_env_overrides` and the layers of `load_config`, up to where the merged
mapping is validated. What YAML makes of a text, what `str.lower` makes of it and which files there
are is a parameter.
-/

namespace Fcam

variable {κ α : Type} [DecidableEq κ]

/-! ### Merging -/

mutual

/-- `_deep_merge`: the loop over the items of the override. -/
def deepMerge : List (κ × Tree κ α) → List (κ × Tree κ α) → List (κ × Tree κ α)
  | merged, [] => merged
  | merged, (key, value) :: rest =>
    deepMerge (putMember key (mergeValue (merged.lookup key) value) merged) rest

/-- The value a key gets: two mappings are merged, anything else is replaced. -/
def mergeValue : Option (Tree κ α) → Tree κ α → Tree κ α
  | some (.node merged), .node override => .node (deepMerge merged override)
  | some (.node _), .leaf value => .leaf value
  | some (.leaf _), value => value
  | none, value => value

end

/-! ### Environment variables -/

/-- The variables of the environment. -/
structure Environ where
  vars : List (PyStr × PyStr)
  distinct : (vars.map Prod.fst).Nodup

def Environ.get? (environ : Environ) (name : String) : Option PyStr :=
  environ.vars.lookup (PyStr.ofString name)

/-- What the configuration is read with: `str.lower`, strings as keys of mappings, `yaml.safe_load`
of a text, which gives nothing where it raises, whether `bool` of a leaf is true, and the text of a
file that exists. -/
structure ConfigReader (κ α : Type) where
  lower : PyStr → PyStr
  key : PyStr → κ
  safeLoad : PyStr → Option (Tree κ α)
  truthy : α → Bool
  readFile : PyStr → Option PyStr

/-- `_RESERVED_ENV_KEYS`. -/
def reservedEnvKeys : List PyStr :=
  ["FCAM_CONFIG", "FCAM_ADMIN_TOKEN", "FCAM_MASTER_KEY"].map PyStr.ofString

/-- `text.split("__")`, with the part read so far. -/
def splitParts : PyStr → PyStr → List PyStr
  | part, 95 :: 95 :: rest => part :: splitParts [] rest
  | part, c :: rest => splitParts (part ++ [c]) rest
  | part, [] => [part]

/-- The name under which a variable counts: `FCAM_DATABASE_URL` stands for the nested form, unless
that is set too. -/
def envName (environ : Environ) (name : PyStr) : Option PyStr :=
  if reservedEnvKeys.contains name then none
  else if name = PyStr.ofString "FCAM_DATABASE_URL" then
    if (environ.get? "FCAM_DATABASE__URL").isSome then none
    else some (PyStr.ofString "FCAM_DATABASE__URL")
  else some name

/-- The walk down a path, which puts mappings where there are none, and the assignment at its
end. -/
def setPath (value : Tree κ α) : List κ → List (κ × Tree κ α) → List (κ × Tree κ α)
  | [], members => members
  | [part], members => putMember part value members
  | part :: next :: rest, members =>
    let cursor :=
      match members.lookup part with
      | some (.node cursor) => cursor
      | _ => []
    putMember part (.node (setPath value (next :: rest) cursor)) members

section

variable (reader : ConfigReader κ α)

/-- The path of a variable that counts. -/
def envPath (environ : Environ) (name : PyStr) : Option (List κ) :=
  (envName environ name).bind fun name =>
    let start := PyStr.ofString "FCAM_"
    if start.isPrefixOf name then
      some ((splitParts [] (reader.lower (name.drop start.length))).map reader.key)
    else none

/-- The loop of `_env_overrides`. -/
def applyVars (environ : Environ) : List (PyStr × PyStr) → List (κ × Tree κ α) →
    Option (List (κ × Tree κ α))
  | [], result => some result
  | (name, raw) :: rest, result =>
    match envPath reader environ name with
    | none => applyVars environ rest result
    | some path =>
      (reader.safeLoad raw).bind fun value => applyVars environ rest (setPath value path result)

/-- `_env_overrides`, or nothing where a value is not YAML. -/
def envOverrides (environ : Environ) : Option (List (κ × Tree κ α)) :=
  applyVars reader environ environ.vars []

/-! ### Layers -/

inductive ConfigError where
  | urlsDiffer
  | notYaml
  | notAMapping
deriving DecidableEq, Repr

/-- The two names of the database URL are both set, and differ. -/
def urlsDiffer (environ : Environ) : Bool :=
  match environ.get? "FCAM_DATABASE_URL", environ.get? "FCAM_DATABASE__URL" with
  | some url, some nested => url != [] && nested != [] && url != nested
  | _, _ => false

/-- `_load_yaml_file`. -/
def loadYamlFile (path : PyStr) : Except ConfigError (List (κ × Tree κ α)) :=
  match reader.readFile path with
  | none => .ok []
  | some raw =>
    match reader.safeLoad raw with
    | none => .error .notYaml
    | some (.node members) => .ok members
    | some (.leaf value) => if reader.truthy value then .error .notAMapping else .ok []

/-- `load_config`, up to the mapping that is validated. -/
def mergedConfig (defaults : List (κ × Tree κ α)) (environ : Environ) :
    Except ConfigError (List (κ × Tree κ α)) :=
  if urlsDiffer environ then .error .urlsDiffer
  else do
    let yamlConfig ← loadYamlFile reader
      ((environ.get? "FCAM_CONFIG").getD (PyStr.ofString "config.yaml"))
    match envOverrides reader environ with
    | none => .error .notYaml
    | some envConfig => return deepMerge (deepMerge defaults yamlConfig) envConfig

end

end Fcam
