import CLib.Settings.Lines

namespace CLib.Agent
open CLib.Base

/-- The values that `load_connect_config` of the agent sets. -/
structure Config where
  host : Text
  port : ℕ
  db : Text
  user : Text
  password : Text
  socket : Text
  sqlFile : List Text
  idsServers : List Text
  preferredIdsServer : Text
  sqlFileFormat : Text
  checkRe : Bool
  machineLearningOn : Bool
  idsServerPort : ℕ
  deriving DecidableEq

/-- All globals are zero before the file is read. -/
def Config.zero : Config := ⟨[], 0, [], [], [], [], [], [], [], [], false, false, 0⟩

/-- How many SQL files `set_parameter` takes. -/
def maxSqlFileCount : ℕ := 128

/-- How many IDS servers `set_parameter` takes. -/
def maxIdsServerCount : ℕ := 5

/-- A value that starts with neither `0` nor `1` counts as `0`. -/
def flagValue (value : Text) : Bool := value.head? = some '1'

def setParameter (cfg : Config) (parameter value : Text) : Config :=
  if 256 < parameter.length ∨ 256 < value.length then cfg
  else if parameter = "host".toList then { cfg with host := snprintf 63 value }
  else if parameter = "port".toList then { cfg with port := atoiUnsigned value }
  else if parameter = "db".toList then { cfg with db := snprintf 31 value }
  else if parameter = "user".toList then { cfg with user := snprintf 31 value }
  else if parameter = "password".toList then { cfg with password := snprintf 31 value }
  else if parameter = "socket".toList then { cfg with socket := snprintf 255 value }
  else if parameter = "sql_file".toList then
    if cfg.sqlFile.length = maxSqlFileCount then cfg
    else { cfg with sqlFile := cfg.sqlFile ++ [snprintf 127 value] }
  else if parameter = "ids_server".toList then
    if cfg.idsServers.length = maxIdsServerCount then cfg
    else { cfg with idsServers := cfg.idsServers ++ [snprintf 127 value] }
  else if parameter = "preferred_ids_server".toList then
    { cfg with preferredIdsServer := snprintf 127 value }
  else if parameter = "sql_file_format".toList then { cfg with sqlFileFormat := snprintf 15 value }
  else if parameter = "check_re".toList then { cfg with checkRe := flagValue value }
  else if parameter = "g_machine_learning_on".toList then
    { cfg with machineLearningOn := flagValue value }
  else if parameter = "ids_server_port".toList then
    { cfg with idsServerPort := atoiUnsigned value }
  else cfg

/-- The calls of `set_parameter` that `load_connect_config` makes for a line. -/
def lineCalls (line : Text) : Option (List (Text × Text)) := Settings.lineCalls line

/-- `load_connect_config`; `none` is a file that cannot be read, and the result 0, or one with
a line for which there are no calls. -/
def loadConnectConfig (file : Option Text) : Option Config :=
  file.bind fun t => ((getlines t).mapM lineCalls).map fun calls =>
    calls.flatten.foldl (fun cfg s => setParameter cfg s.1 s.2) .zero

end CLib.Agent
