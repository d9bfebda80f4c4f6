import Demotion.Number.Real
import Demotion.Text.LowerCase
import Demotion.Text.Quoted
import Demotion.Text.Split

/-!
# Settings

The settings of the service have defaults, and the environment may give others, each by a variable
of its own (`Settings.ofEnvironment`). Reading fails only at a variable whose text is no number;
whether the settings make sense together is a question of its own (`Settings.validate`).
-/

namespace Demotion

/-- The variables of the environment. -/
abbrev Environment := String → Option String

/-- The settings of the service, with their defaults. -/
structure Settings where
  clangPath : String := "clang"
  pluginPath : String := "build/libfp16DemotionPlugin.so"
  pluginName : String := "fp16-demotion"
  analysisFlag : String := "-fprecision-demote=fp16"
  toolTimeout : Binary64 := .ofInt 30
  outputLimit : Int := 10 * 1024 * 1024
  workspaceRoot : String := "/tmp/fp16_workspaces"
  retainWorkspaces : Bool := false
  uploadLimit : Int := 5 * 1024 * 1024
  allowedExtensions : List String := [".c", ".cpp", ".cc", ".cxx"]
  apiHost : String := "0.0.0.0"
  apiPort : Int := 3001
  corsOrigins : List String := ["*"]
  logLevel : String := "INFO"
  runtimeMode : String := "development"
  logFile : Option String := none
  deriving DecidableEq, Repr

namespace Settings

/-- The items between the commas of a text, trimmed, without the blank ones. -/
def listOf (text : String) : List String :=
  (((Text.splitOn ',' text.toList).map Text.trim).filter (· ≠ [])).map String.ofList

/-- Whether a text says true. -/
def flagOf (text : String) : Bool :=
  Text.lower (Text.trim text.toList) = "true".toList

/-- The number that a variable gives, or the default without it. -/
def numberOf {α : Type} (env : Environment) (read : String → Except NumberError α)
    (variableName : String) (default : α) : Except NumberError α :=
  match env variableName with
  | some text => read text
  | none => .ok default

/-- The settings that an environment gives. Of several texts that are no numbers the one of the
first setting counts. -/
def ofEnvironment (env : Environment) : Except NumberError Settings := do
  let base : Settings := {}
  let toolTimeout ← numberOf env Binary64.read "TOOL_TIMEOUT_SECONDS" base.toolTimeout
  let outputLimit ← numberOf env Integer.read "TOOL_MAX_OUTPUT_BYTES" base.outputLimit
  let uploadLimit ← numberOf env Integer.read "MAX_UPLOAD_BYTES" base.uploadLimit
  let apiPort ← numberOf env Integer.read "API_PORT" base.apiPort
  return {
    clangPath := (env "CLANG_PATH").getD base.clangPath
    pluginPath := (env "FP16_PLUGIN_PATH").getD base.pluginPath
    pluginName := (env "FP16_PLUGIN_NAME").getD base.pluginName
    analysisFlag := (env "FP16_ANALYSIS_FLAG").getD base.analysisFlag
    toolTimeout
    outputLimit
    workspaceRoot := (env "WORKSPACE_ROOT").getD base.workspaceRoot
    retainWorkspaces := ((env "RETAIN_WORKSPACES").map flagOf).getD base.retainWorkspaces
    uploadLimit
    allowedExtensions := ((env "ALLOWED_EXTENSIONS").map listOf).getD base.allowedExtensions
    apiHost := (env "API_HOST").getD base.apiHost
    apiPort
    corsOrigins := ((env "CORS_ORIGINS").map listOf).getD base.corsOrigins
    logLevel := (env "LOG_LEVEL").getD base.logLevel
    runtimeMode := (env "RUNTIME_MODE").getD base.runtimeMode
    logFile := env "LOG_FILE" }

/-- The variables that give settings. -/
def variableNames : List String :=
  ["CLANG_PATH", "FP16_PLUGIN_PATH", "FP16_PLUGIN_NAME", "FP16_ANALYSIS_FLAG",
    "TOOL_TIMEOUT_SECONDS", "TOOL_MAX_OUTPUT_BYTES", "WORKSPACE_ROOT", "RETAIN_WORKSPACES",
    "MAX_UPLOAD_BYTES", "ALLOWED_EXTENSIONS", "API_HOST", "API_PORT", "CORS_ORIGINS", "LOG_LEVEL",
    "RUNTIME_MODE", "LOG_FILE"]

/-- Whether the service runs for its users. -/
def isProduction (s : Settings) : Bool :=
  Text.lower s.runtimeMode.toList = "production".toList

/-- Whether the service runs for its developers. -/
def isDevelopment (s : Settings) : Bool :=
  Text.lower s.runtimeMode.toList = "development".toList

/-- Why settings are of no use. -/
inductive Invalid where
  | missing (fields : List String)
  | toolTimeout
  | outputLimit
  | uploadLimit
  | noExtensions
  deriving DecidableEq, Repr

/-- The settings that must not be empty, by name. -/
def required (s : Settings) : List (String × String) :=
  [("clang_path", s.clangPath), ("plugin_path", s.pluginPath), ("plugin_name", s.pluginName),
    ("analysis_flag", s.analysisFlag), ("workspace_root", s.workspaceRoot)]

/-- The names of the required settings that are empty. -/
def missingFields (s : Settings) : List String :=
  (s.required.filter fun f => f.2 = "").map (·.1)

/-- Refuses settings that the service cannot run with. -/
def validate (s : Settings) : Except Invalid Unit :=
  if s.missingFields ≠ [] then .error (.missing s.missingFields)
  else if s.toolTimeout.isNonPositive then .error .toolTimeout
  else if s.outputLimit ≤ 0 then .error .outputLimit
  else if s.uploadLimit ≤ 0 then .error .uploadLimit
  else if s.allowedExtensions = [] then .error .noExtensions
  else .ok ()

/-- The reason in words. -/
def Invalid.message : Invalid → String
  | .missing fields =>
    "Missing required configuration fields: [" ++
      ", ".intercalate (fields.map fun field : String => Text.quoted field) ++ "]"
  | .toolTimeout => "tool_timeout_seconds must be positive"
  | .outputLimit => "tool_max_output_bytes must be positive"
  | .uploadLimit => "max_upload_bytes must be positive"
  | .noExtensions => "allowed_extensions must not be empty"

end Settings

end Demotion
