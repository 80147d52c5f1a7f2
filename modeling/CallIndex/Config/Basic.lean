import CallIndex.Error

/-!
# Settings

* `Config`: where the database is, and how its connections are kept.
* `Config.validate`: refuses settings that are out of range, for the first such setting.
-/

namespace CallIndex

/-- The settings file when nothing else is said. -/
def defaultConfigPath : String := ".docgraph/config.yaml"

/-- The database when nothing else is said. -/
def defaultDatabasePath : String := ".docgraph/index.db"

/-- The settings of the database. -/
structure DatabaseConfig where
  path : String := defaultDatabasePath
  poolSize : UInt32 := 8
  poolMinIdle : UInt32 := 1
  busyTimeoutMs : UInt64 := 30000
  deriving DecidableEq, Repr

/-- All settings. -/
structure Config where
  database : DatabaseConfig := {}
  deriving DecidableEq, Repr

namespace Config

/-- The settings when nothing else is said. -/
def default : Config := {}

/-- The whole seconds for which a connection waits on a locked database. -/
def busyTimeoutSeconds (c : Config) : Nat := c.database.busyTimeoutMs.toNat / 1000

/-- What is out of range, first things first. -/
def problem? (c : Config) : Option String :=
  let d := c.database
  if d.path = "" then some "database.path must not be empty"
  else if d.poolSize = 0 then some "database.pool-size must be at least 1"
  else if d.busyTimeoutMs = 0 then some "database.busy-timeout-ms must be at least 1"
  else if d.poolSize < d.poolMinIdle then
    some ("database.pool-min-idle (" ++ toString d.poolMinIdle.toNat ++
      ") exceeds database.pool-size (" ++ toString d.poolSize.toNat ++ ")")
  else none

/-- Refuse settings that are out of range. -/
def validate (c : Config) : Except Error Unit :=
  match c.problem? with
  | some problem => .error (.config problem)
  | none => .ok ()

end Config

end CallIndex
