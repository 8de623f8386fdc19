import ControlNode.CommandLine
import ControlNode.Config.Load
import ControlNode.Server
import Std.Async.Signal
import Std.Async.System
import Std.Time.DateTime.Timestamp
import Std.Time.Zoned.Database

/-!
# The program

Reads the command line, the configuration file and the environment, and runs a node until
the process is interrupted or terminated.
-/

namespace ControlNode.Program

/-! ### Surroundings -/

/-- The text of a file. A relative path is looked up in the working directory and then in
those above it. -/
def findText? (path : String) : IO (Option String) := do
  let mut directory ← IO.currentDir
  for _ in [0:256] do
    let file := directory / path
    if ← file.pathExists then return some (← IO.FS.readFile file)
    match directory.parent with
    | some above => directory := above
    | none => return none
  return none

def readText? (path : String) : IO (Option String) := do
  try return some (← IO.FS.readFile path)
  catch
    | .noFileOrDirectory .. => return none
    | e => throw e

def environment : IO (List (String × String)) := do
  return (← Std.Internal.UV.System.osEnviron).toList

def wallTime : IO Int := do
  return (← Std.Time.Timestamp.now).toMillisecondsSinceUnixEpoch.val

/-! ### The time zone -/

/-- The first second behind `low` that has the offset of `high`. -/
def changeBetween (offsetAt : Int → Int) : (fuel : Nat) → (low high : Int) → Int
  | 0, _, high => high
  | fuel + 1, low, high =>
    let middle := (low + high) / 2
    if offsetAt middle = offsetAt high then changeBetween offsetAt fuel low middle
    else changeBetween offsetAt fuel middle high

/-- The days up to the year 2100. -/
def knownDays : Nat := 47482

/-- The zone of the host. Behind the last change that is listed its rule is looked up day by day. -/
def hostZone : IO Zone := do
  let rules ← Std.Time.Database.defaultGetLocalZoneRules
  let offsetAt (second : Int) : Int :=
    (rules.timezoneAt (.ofSecondsSinceUnixEpoch (.ofInt second))).offset.second.val
  let listed := rules.transitions.toList.map fun t =>
    (t.time.val, t.localTimeType.gmtOffset.second.val)
  let last := (listed.getLast?.map Prod.fst).getD 0
  let later := (List.range knownDays).filterMap fun (day : Nat) =>
    let low := 86400 * (day : Int)
    let high := low + 86400
    if last ≤ low && offsetAt low ≠ offsetAt high then
      some (changeBetween offsetAt 17 low high, offsetAt high)
    else none
  return { first := rules.initialLocalTimeType.gmtOffset.second.val, changes := listed ++ later }

/-- The zone that the variables give, or that of the host. -/
def localZone (vars : List (String × String)) : IO Zone := do
  match (vars.find? fun v => v.1 == "TZ").bind fun v => Environment.zone? v.2 with
  | some z => return z
  | none =>
    try hostZone
    catch _ => return .utc

/-! ### Data files -/

def backupPath (path : String) : String := path ++ ".bak"

def tempPath (path : String) : String := path ++ ".tmp"

def loadFiles (path : String) : IO DataFiles := do
  return { data := ← readText? path, backup := ← readText? (backupPath path) }

def storeFiles (path : String) (before after : DataFiles) : IO Unit := do
  if after.data = before.data then return
  match after.data with
  | none => return
  | some text =>
    IO.FS.writeFile (tempPath path) text
    if before.data.isSome then IO.FS.rename path (backupPath path)
    IO.FS.rename (tempPath path) path

def storeTables (path : String) (t : KeyTables) : IO Unit := do
  IO.FS.writeFile (tempPath path) t.fileText
  IO.FS.rename (tempPath path) path

def makeDirectory (path : String) : IO Unit := do
  match ((← IO.currentDir) / path).parent with
  | some directory => IO.FS.createDirAll directory
  | none => return

/-! ### Serving -/

/-- Replaces the data file of a node, or the file of its tables, after it has gone on. -/
def sync (path : String) (before after : Node) : IO Unit := do
  if let (some b, some a) := (Server.dataFiles? before, Server.dataFiles? after) then
    storeFiles path b a
  if let (some b, some a) := (Server.tables? before, Server.tables? after) then
    if a.fileText ≠ b.fileText then storeTables path a

/-- Lets a node go on until one of two signals has come. -/
partial def serveUntil (ends : List (Std.Async.AsyncTask Int)) (path : String) (began : Nat)
    (n : Node) : IO Node := do
  if ← ends.anyM fun t => return (← IO.getTaskState t) == .finished then return n
  let clock := (← IO.monoMsNow) - began
  let later := { n with wall := ← wallTime }.advance (clock - n.agenda.clock)
  -- nothing is stored while no timer fires
  if n.agenda.timers.any (·.deadline ≤ clock) then sync path n later
  IO.sleep 5
  serveUntil ends path began later

/-- Runs a node from its start to its end. -/
def serve (c : Config) : IO UInt32 := do
  let path := c.persist.filePath
  let usesFiles := c.persist.driver != "memory"
  let files : DataFiles ← if usesFiles then loadFiles path else pure {}
  let began ← IO.monoMsNow
  match Server.start c files (← wallTime) with
  | .error e =>
    IO.eprintln ("Error: Failed to open persistence: " ++ e.message)
    return 1
  | .ok (left, n) =>
    if usesFiles then makeDirectory path
    for e in left do IO.eprintln e.message
    let interrupt ← Std.Async.Signal.Waiter.mk .sigint false
    let terminate ← Std.Async.Signal.Waiter.mk .sigterm false
    let ends := [← interrupt.wait, ← terminate.wait]
    match Server.dataFiles? n, Server.tables? n with
    | some after, _ => storeFiles path files after
    | none, some t => storeTables path t
    | none, none => pure ()
    let n ← serveUntil ends path began n
    sync path n (Server.stop n)
    return 0

def runWith (o : CommandLine.Options) : IO UInt32 := do
  let vars ← environment
  match Config.load? (← findText? o.configPath) vars with
  | none =>
    IO.eprintln ("Error: Failed to load configuration from " ++ o.configPath)
    return 1
  | some c =>
    if o.printConfig then
      match c.toToml? with
      | some text =>
        IO.print text
        return 0
      | none =>
        IO.eprintln "Error: Failed to render configuration"
        return 1
    else serve { c with zone := ← localZone vars }

end ControlNode.Program

open ControlNode

def main (args : List String) : IO UInt32 := do
  match CommandLine.parse? {} args with
  | none =>
    IO.eprintln CommandLine.usage
    return 2
  | some .help =>
    IO.print CommandLine.helpText
    return 0
  | some (.run o) =>
    try Program.runWith o
    catch e =>
      IO.eprintln ("Error: " ++ toString e)
      return 1
