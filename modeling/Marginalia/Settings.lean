import Marginalia.Path
import Marginalia.Text.Blank

/-!
# Settings from the environment

Two variables of the environment set how much is logged and which directories are left out. Blank
settings count as none given where there has to be one.
-/

namespace Marginalia

/-- The variables of the environment. -/
abbrev Environment := List (String × String)

/-- The log level that holds when none is given. -/
def defaultLogLevel : String := "WARNING"

/-- The directories that are left out when none are given. -/
def defaultExclude : String := "vendor,node_modules,.git"

/-- The log level. -/
def Environment.logLevel (env : Environment) : String :=
  let given := (env.lookup "SWAGGER_SCAN_LOG_LEVEL").getD defaultLogLevel
  let level := Text.uppercase (Text.trimmed given)
  if level = "" then defaultLogLevel else level

/-- The directories that are left out. -/
def Environment.exclude (env : Environment) : List String :=
  let given := (env.lookup "SWAGGER_SCAN_EXCLUDE").getD defaultExclude
  ((pieces ',' given).map Text.trimmed).filter (· != "")

end Marginalia
