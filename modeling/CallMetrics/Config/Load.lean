import CallMetrics.Config.Document
import CallMetrics.Config.Environment

/-! Loading settings from their sources: a document over the defaults, overrides over it, the
environment over both. Only the outcome is validated, so a bad value that a higher layer replaces
does no harm. -/

namespace CallMetrics
open Text

inductive FileFault
  | notFound (detail : String)
  | denied (detail : String)
  | other (detail : String)
  deriving DecidableEq, Repr

namespace FileFault

def detail : FileFault → String
  | notFound detail => detail
  | denied detail => detail
  | other detail => detail

def codeName : FileFault → String
  | notFound _ => "config_file_not_found"
  | denied _ => "config_file_permission_denied"
  | other _ => "config_file_io"

end FileFault

inductive LoadError
  | document (format : ConfigFormat) (fault : DocumentFault)
  | overrides (fault : DocumentFault)
  | file (path : String) (fault : FileFault)
  | unknownExtension (extension : String)
  | settings (e : ConfigError)
  deriving DecidableEq

namespace LoadError

def toFailure : LoadError → Failure
  | document format fault => (fault.toFailure format "config").note "source" "config"
  | overrides fault => (fault.toFailure .json "overrides").note "source" "overrides"
  | file path fault =>
    (Failure.expected ⟨"config", fault.codeName⟩
      ("failed to read config file: " ++ fault.detail)).note "path" path
  | unknownExtension extension =>
    (Failure.expected ⟨"config", "unsupported_format"⟩
      "unsupported config format; use .json or .toml").note "extension" extension
  | settings e => e.toFailure

end LoadError

namespace Config

/-- Lays overrides and environment over settings and validates the outcome. -/
def finish (c : Config) (overrides : Option String) (env : Layer) : Except LoadError ValidConfig :=
  let overridden : Except DocumentFault Config := match overrides with
    | none => .ok c
    | some s => (Layer.read .json Decode.jsonPatch s).map c.apply
  match overridden with
  | .error fault => .error (.overrides fault)
  | .ok c => (c.apply env).validate.mapError .settings

/-- Loads settings from a JSON document, overrides and environment, each of which may be absent. -/
def load (document overrides : Option String) (env : Layer) : Except LoadError ValidConfig :=
  let base : Except DocumentFault Config := match document with
    | none => .ok {}
    | some s => Config.readDocument .json s
  match base with
  | .error fault => .error (.document .json fault)
  | .ok c => c.finish overrides env

end Config

/-- The last part of a path, if it names a file. -/
def fileName? (path : String) : Option (List Char) :=
  let parts := (splitSlashes path.toList).filter fun part => part ≠ [] ∧ part ≠ ['.']
  match parts.getLast? with
  | some ['.', '.'] => none
  | last => last
where
  splitSlashes : List Char → List (List Char)
    | [] => [[]]
    | c :: rest =>
      if c = '/' then [] :: splitSlashes rest
      else match splitSlashes rest with
        | [] => [[c]]
        | first :: others => (c :: first) :: others

/-- What follows the last point of the file name; a point at its start begins no extension. -/
def extension? (path : String) : Option String :=
  match fileName? path with
  | none => none
  | some name =>
    let tail := name.reverse.takeWhile (· ≠ '.')
    if name.length ≤ tail.length + 1 then none else some (String.ofList tail.reverse)

/-- The format of a settings file by its extension; JSON when it has none. -/
def ConfigFormat.ofPath (path : String) : Except LoadError ConfigFormat :=
  match (extension? path).map lower with
  | none => .ok .json
  | some "json" => .ok .json
  | some "toml" => .ok .toml
  | some extension => .error (.unknownExtension extension)

/-- Loads settings from a file, if there is one, with overrides and environment. The file is read
before its format is looked at. -/
def Config.loadFile (file : Option (String × Except FileFault String)) (overrides : Option String)
    (env : Layer) : Except LoadError ValidConfig :=
  match file with
  | none => Config.finish {} overrides env
  | some (path, .error fault) => .error (.file path fault)
  | some (path, .ok s) =>
    match ConfigFormat.ofPath path with
    | .error e => .error e
    | .ok format =>
      match Config.readDocument format s with
      | .error fault => .error (.document format fault)
      | .ok c => c.finish overrides env

end CallMetrics
