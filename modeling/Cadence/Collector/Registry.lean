import Cadence.Collector.GlobalStatus
import Cadence.Collector.Host

/-!
Which domains can be collected, and how their collectors come about.
-/

namespace Cadence

/-- Whom a collector is made for, and whether the database can be reached. -/
structure CollectorArgs where
  monitorId : String := ""
  database : Bool := false
  deriving DecidableEq, Repr

/-- A collector, or the chain of errors that kept it from being made. -/
abbrev Factory (α : Type) := CollectorArgs → Except ErrorChain α

/-- A factory for each domain that can be collected. -/
structure Registry (α : Type) where
  factories : Table String (Factory α) := ∅

namespace Registry

variable {α : Type}

def empty : Registry α := {}

/-- Sets the factory of a domain, in place of the one it had. -/
def register (r : Registry α) (domain : String) (factory : Factory α) : Registry α :=
  { factories := r.factories.insert domain factory }

def unknownMessage (domain : String) : String := s!"Unknown collector domain: {domain}"

def make (r : Registry α) (domain : String) (args : CollectorArgs) : Except ErrorChain α :=
  match r.factories[domain]? with
  | some factory => factory args
  | none => .error [unknownMessage domain]

def hasDomain (r : Registry α) (domain : String) : Bool := r.factories.contains domain

def domains (r : Registry α) : List String := r.factories.keys

end Registry

/-- The collectors of this library. -/
inductive BuiltinCollector where
  | host (domain : HostDomain)
  | globalStatus
  deriving DecidableEq, Repr

namespace BuiltinCollector

def help : BuiltinCollector → Help
  | host d => d.help
  | globalStatus => GlobalStatus.help

def domain : BuiltinCollector → String
  | host d => d.name
  | globalStatus => GlobalStatus.domain

/-- The host can always be looked at; the status variables need the database. -/
def factory (c : BuiltinCollector) : Factory BuiltinCollector := fun args =>
  match c with
  | host d => .ok (host d)
  | globalStatus =>
      if args.database then .ok globalStatus
      else .error [GlobalStatus.domain ++ " requires a database connection"]

def all : List BuiltinCollector := [host .cpu, host .memory, host .load, globalStatus]

/-- The registry of this library's collectors, handed on as `wrap` says. -/
def registry {α : Type} (wrap : BuiltinCollector → α) : Registry α :=
  all.foldl (fun r c => r.register c.domain (fun args => (c.factory args).map wrap)) .empty

end BuiltinCollector

end Cadence
