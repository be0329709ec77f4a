import Cadence.Adjuster.Policy
import Cadence.ErrorChain
import Cadence.FileTree
import Cadence.Json.Number
import Cadence.Sink
import Cadence.Toml.Reader

/-!
The settings of an agent, read from a TOML file.
-/

namespace Cadence

structure Config where
  monitorId : String
  /-- Where the monitored database is; without it only the host is looked at. -/
  dsn : Option String := none
  /-- The plan to run where no policy chooses one; without a name the first plan. -/
  plan : String := ""
  /-- The plan files, in the order of loading. -/
  plans : List String := []
  concurrency : Nat := 2
  tickMillis : Nat := 1000
  connectTimeout : Duration := .ofSecs 2
  readOnlyTimeout : Duration := .ofSecs 2
  sinks : List String := ["log"]
  policy : Option Policy := none
  deriving DecidableEq, Inhabited

inductive ConfigError where
  /-- The text is not TOML, or a setting has a value of the wrong kind. -/
  | malformed
  | noMonitorId
  | noConcurrency
  | noTick
  | unknownSink (name : String)
  deriving DecidableEq, Repr

namespace ConfigError

/-- The message and what caused it, outermost first. -/
def chain : ConfigError → ErrorChain
  | malformed => ["parsing TOML", "not a table of settings"]
  | noMonitorId => ["monitor_id must not be empty"]
  | noConcurrency => ["collect_concurrency must be at least 1"]
  | noTick => ["tick_ms must be at least 1"]
  | unknownSink name =>
      [s!"unknown sink '{name}', expected one of: " ++ ", ".intercalate (Sink.all.map Sink.name)]

end ConfigError

inductive ConfigFileError where
  | unreadable (path : String) (reason : FileError)
  | invalid (path : String) (reason : ConfigError)
  deriving DecidableEq, Repr

def ConfigFileError.chain : ConfigFileError → ErrorChain
  | unreadable path reason => [s!"reading config {path}", reason.message]
  | invalid path reason => s!"loading config {path}" :: reason.chain

def Json.unsigned? : Json → Option Nat
  | .number n => n.toUnsigned?
  | _ => none

namespace Config

open Json (field?)

def ofJson? (v : Json) : Option Config := do
  let fields ← v.record? ["monitor_id", "dsn", "plan", "plans", "collect_concurrency", "tick_ms",
    "connect_timeout", "read_only_timeout", "sinks", "adjuster"]
  return {
    monitorId := ← field? fields "monitor_id" none Json.text?
    dsn := ← field? fields "dsn" (some none) (fun v => v.text?.map some)
    plan := ← field? fields "plan" (some "") Json.text?
    plans := ← field? fields "plans" (some []) Json.texts?
    concurrency := ← field? fields "collect_concurrency" (some 2) Json.unsigned?
    tickMillis := ← field? fields "tick_ms" (some 1000) Json.unsigned?
    connectTimeout := ← field? fields "connect_timeout" (some (.ofSecs 2)) Json.duration?
    readOnlyTimeout := ← field? fields "read_only_timeout" (some (.ofSecs 2)) Json.duration?
    sinks := ← field? fields "sinks" (some ["log"]) Json.texts?
    policy := ← field? fields "adjuster" (some none) (fun v => (Policy.ofJson? v).map some) }

def validate (c : Config) : Except ConfigError Unit := do
  if Text.trim c.monitorId = "" then throw .noMonitorId
  if c.concurrency = 0 then throw .noConcurrency
  if c.tickMillis = 0 then throw .noTick
  if let some name := c.sinks.find? (fun name => (Sink.ofName? name).isNone) then
    throw (.unknownSink name)

def parse (text : String) : Except ConfigError Config := do
  match (Toml.parse? text).bind (fun v => ofJson? v.toJson) with
  | none => throw .malformed
  | some c => c.validate; return c

def load (tree : FileTree) (path : String) : Except ConfigFileError Config := do
  let text ← (tree.read path).mapError (.unreadable path)
  (parse text).mapError (.invalid path)

def tick (c : Config) : Duration := .ofMillis c.tickMillis

end Config

end Cadence
