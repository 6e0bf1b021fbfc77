import Emelex.Lib.Text

/-!
# Names of runtime files (`model/layout.rs`, `hub/mod.rs`)

Which relative paths may name a runtime file of a model, and under which name a remote file is
stored.  A path is the list of its characters; `components` splits it as `Path::components` does.

Principal definitions: `safeRelativePath`, `safeRuntimeFile`, `localRuntimePath`.
-/

set_option autoImplicit false

namespace Emelex

open Text

/-- A path, by its characters. -/
abbrev PathName := List Char

instance : LawfulBEq PathName := inferInstance

/-- `Component`. -/
inductive Component where
  | rootDir
  | curDir
  | parentDir
  | normal (name : PathName)
  deriving DecidableEq, Repr

/-- A part between two slashes that is not the first: empty parts and `.` are skipped. -/
def innerComponent (part : PathName) : Option Component :=
  if part = [] ∨ part = ".".toList then none
  else if part = "..".toList then some .parentDir
  else some (.normal part)

/-- `Path::components`. -/
def components (path : PathName) : List Component :=
  match path.splitOn '/' with
  | [] => []
  | first :: parts =>
    let head :=
      if first = [] then if path = [] then [] else [.rootDir]
      else if first = ".".toList then [.curDir]
      else (innerComponent first).toList
    head ++ parts.filterMap innerComponent

/-- Whether a component is an ordinary name. -/
def Component.isNormal : Component → Bool
  | normal _ => true
  | _ => false

/-- `safe_relative_path`. -/
def safeRelativePath (value : PathName) : Bool :=
  if value = [] ∨ '\\' ∈ value then false
  else (components value).all Component.isNormal

/-- `Path::file_name`: the last component, when it is an ordinary name. -/
def fileName (path : PathName) : Option PathName :=
  match (components path).getLast? with
  | some (.normal name) => some name
  | _ => none

/-- `Path::extension`: what follows the last dot of the file name, unless the name starts with it. -/
def extension (path : PathName) : Option PathName :=
  match fileName path with
  | none => none
  | some name =>
    let ext := (name.reverse.takeWhile (· ≠ '.')).reverse
    if ext.length + 1 < name.length then some ext else none

/-- `runtime_metadata_file_name`. -/
def runtimeMetadataFileName (name : PathName) : Bool :=
  decide (name ∈ ["added_tokens.json", "chat_template.json", "chat_template.jinja",
    "chat_template_tool_use.jinja", "config.json", "generation_config.json", "merges.txt",
    "preprocessor_config.json", "processor_config.json", "special_tokens_map.json",
    "tokenizer.json", "tokenizer.model", "tokenizer_config.json", "video_preprocessor_config.json",
    "vocab.json", "vocab.txt"].map String.toList)

/-- `safe_runtime_file`. -/
def safeRuntimeFile (path : PathName) : Bool :=
  safeRelativePath path &&
    (((components path).length = 1 &&
      (extension path = some "safetensors".toList ||
        path = "model.safetensors.index.json".toList || runtimeMetadataFileName path)) ||
      decide (path ∈ ["additional_chat_templates/default.jinja",
        "additional_chat_templates/tool_use.jinja", "chat_templates/default.jinja",
        "chat_templates/tool_use.jinja"].map String.toList))

/-- `local_runtime_path`. -/
def localRuntimePath (remote : PathName) : PathName :=
  if remote = "additional_chat_templates/default.jinja".toList ∨
      remote = "chat_templates/default.jinja".toList then "chat_template.jinja".toList
  else if remote = "additional_chat_templates/tool_use.jinja".toList ∨
      remote = "chat_templates/tool_use.jinja".toList then "chat_template_tool_use.jinja".toList
  else remote

example : safeRuntimeFile "model-00001-of-00002.safetensors".toList = true := by decide +kernel

example : safeRuntimeFile "../config.json".toList = false := by decide +kernel

end Emelex
