import IngestLedger.Logging.Filter
import IngestLedger.Settings

/-!
# Log settings

How a ledger logs: under which name, which messages, whether to the console and whether as JSON.
Logging is set up once: setting it up again is refused, after the filter has been looked at.

Main definitions:

* `LogSettings.ofVariables`: the settings of some variables.
* `LogSettings.install`: set up logging.
-/

namespace IngestLedger

/-- How a ledger logs. -/
structure LogSettings where
  serviceName : String
  filter : String
  console : Bool
  json : Bool
  deriving DecidableEq, Repr

/-- Why logging and counting cannot be set up. -/
inductive TelemetryError where
  | logging (reason : String)
  | metrics (reason : String)
  | settings (reason : String)
  deriving DecidableEq, Repr

/-- The error in words. -/
def TelemetryError.message : TelemetryError → String
  | .logging reason => "Failed to initialize logging: " ++ reason
  | .metrics reason => "Failed to initialize Prometheus metrics: " ++ reason
  | .settings reason => "Invalid configuration: " ++ reason

namespace LogSettings

/-- The settings without any variable. -/
def standard : LogSettings where
  serviceName := "checkpoint-ledger"
  filter := "info"
  console := true
  json := false

/-- Whether the variables are those of a process in a container. -/
def inContainer (value? : Variables) : Bool :=
  (value? "KUBERNETES_SERVICE_HOST").isSome || (value? "DOCKER_CONTAINER").isSome

/-- The settings of some variables. A process in a container logs as JSON unless told otherwise. -/
def ofVariables (value? : Variables) : LogSettings where
  serviceName := (value? "LEDGER_SERVICE_NAME").getD standard.serviceName
  filter := (value? "LEDGER_LOG_LEVEL").getD ((value? "RUST_LOG").getD standard.filter)
  console := ((value? "LEDGER_CONSOLE_OUTPUT").map fun v => (flag? v).getD true).getD true
  json := ((value? "LEDGER_JSON_LOGS").map fun v => (flag? v).getD false).getD (inContainer value?)

/-- Set up logging, when it is already set up or not: a filter that cannot be read is refused
first, and a second set-up after that. -/
def install (settings : LogSettings) (alreadySet : Bool) : Except TelemetryError Unit :=
  if !LogFilter.isWellFormed settings.filter then .error (.settings "invalid filter directive")
  else if alreadySet then .error (.logging "a global default trace dispatcher has already been set")
  else .ok ()

end LogSettings

end IngestLedger
