import Cadence.Selection
import Cadence.Metric.Basic

/-!
The collectors that look at the host: processor, memory and load.

Each announces a catalogue of metrics.  It goes through them in an order of its own
and answers for those that it is asked for.
-/

namespace Cadence

/-- What the host shows at one moment; memory is in bytes. -/
structure HostReading where
  usage : Float
  /-- The usage of each core. -/
  cores : List Float
  memoryTotal : Nat
  memoryUsed : Nat
  memoryAvailable : Nat
  swapTotal : Nat
  swapUsed : Nat
  load1 : Float
  load5 : Float
  load15 : Float
  /-- Seconds since the host started. -/
  uptime : Nat
  deriving Inhabited

inductive HostDomain where
  | cpu
  | memory
  | load
  deriving DecidableEq, Repr

namespace HostDomain

def name : HostDomain → String
  | cpu => "host.cpu"
  | memory => "host.memory"
  | load => "host.load"

/-- The metrics that are announced. -/
def catalogue : HostDomain → List String
  | cpu => ["usage", "core_usage"]
  | memory => ["total", "used", "available", "used_percent", "swap_total", "swap_used",
      "swap_percent"]
  | load => ["load1", "load5", "load15", "uptime"]

def help (d : HostDomain) : Help where
  domain := d.name
  description := match d with
    | cpu => "CPU usage of the agent host"
    | memory => "Memory and swap usage of the agent host"
    | load => "Load average and uptime of the agent host"
  metrics := d.catalogue

/-- A share in percent; of nothing it is zero. -/
def percent (part total : Nat) : Float :=
  if 0 < total then Float.ofNat part / Float.ofNat total * 100.0 else 0.0

/-- Each metric under its name with the values that a host shows for it, as the collector puts them
together. -/
def measured (r : HostReading) : HostDomain → List (String × List MetricValue)
  | cpu =>
      [("usage", [.gauge "usage" r.usage]),
        ("core_usage", r.cores.mapIdx (fun i usage =>
          (MetricValue.gauge "core_usage" usage).withGroup "core" (toString i)))]
  | memory =>
      [("total", .ofNat r.memoryTotal), ("used", .ofNat r.memoryUsed),
        ("available", .ofNat r.memoryAvailable),
        ("used_percent", percent r.memoryUsed r.memoryTotal), ("swap_total", .ofNat r.swapTotal),
        ("swap_used", .ofNat r.swapUsed), ("swap_percent", percent r.swapUsed r.swapTotal)].map
        (fun (name, value) => (name, [.gauge name value]))
  | load =>
      [("load1", r.load1), ("load5", r.load5), ("load15", r.load15)].map
        (fun (name, value) => (name, [.gauge name value])) ++
        [("uptime", [.counter "uptime" (.ofNat r.uptime)])]

/-- What a level gets; nothing if it selects nothing from the domain. -/
def collect (d : HostDomain) (selected : Option Selected) (r : HostReading) : List MetricValue :=
  match selected with
  | none => []
  | some s => ((measured r d).filter (fun (name, _) => s.wants name)).flatMap (·.2)

end HostDomain

end Cadence
