import Demotion.Number.Decimal
import Demotion.Settings
import Demotion.Text.UpperCase

/-!
# Starting the server

Before the server takes requests it prints where it is to be found and which tool it runs.
-/

namespace Demotion.Service

/-- What the server is started with. -/
structure ServerOptions where
  host : String
  portNumber : Int
  logLevel : String
  deriving DecidableEq, Repr

/-- The options that settings give. The server reports details only to developers who ask for
them. -/
def ServerOptions.ofSettings (s : Settings) : ServerOptions where
  host := s.apiHost
  portNumber := s.apiPort
  logLevel := if s.isDevelopment && Text.upper s.logLevel = "DEBUG" then "debug" else "info"

/-- The lines that the server prints when it is started. -/
def bannerLines (s : Settings) : List String :=
  let rule := String.ofList (List.replicate 80 '=')
  let timeout := s.toolTimeout.brief
  ["", rule, "🚀 FP16 DEMOTION ANALYSIS - API SERVER", rule, "", "🌐 Server URLs:",
    s!"   API:        http://localhost:{s.apiPort}",
    s!"   API Docs:   http://localhost:{s.apiPort}/docs",
    s!"   Health:     http://localhost:{s.apiPort}/health", "",
    "🔧 TOOL CONFIGURATION (from .env):",
    s!"   Clang:      {s.clangPath}",
    s!"   Plugin:     {s.pluginPath} ({s.pluginName})",
    s!"   Flag:       {s.analysisFlag}",
    s!"   Timeout:    {timeout}s",
    s!"   Workspaces: {s.workspaceRoot}", "",
    "📚 ENDPOINTS:",
    "   POST /analyze       - Analyze a C/C++ file (multipart \x27codeFile\x27)",
    "   GET  /api/info      - Service information",
    "   GET  /api/config    - Tool configuration",
    "   GET  /health        - Health check", "",
    "🛑 Press Ctrl+C to stop", rule, ""]

/-- The text that the server prints when it is started. -/
def banner (s : Settings) : String :=
  String.join ((bannerLines s).map (· ++ "\n"))

end Demotion.Service
