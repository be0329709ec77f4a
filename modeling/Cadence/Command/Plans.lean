import Cadence.Collector.Registry
import Cadence.ErrorChain
import Cadence.Plan.Store

/-!
The command that checks plan files.

It loads the named files, all of them valid or none printed, and prints for each
plan its levels in the order of their frequency with the metrics that each level
collects after inheritance.
-/

namespace Cadence.PlansCommand

inductive Action where
  | help
  | listDomains
  | check (files : List String) (builtin : Bool)
  deriving DecidableEq, Repr

inductive UsageError where
  | unknownOption (option : String)
  | noFiles
  deriving DecidableEq, Repr

def UsageError.message : UsageError → String
  | unknownOption option => s!"unknown option: {option}"
  | noFiles => "no plan files given (see --help)"

/-- Reads the arguments from the left; the first that decides the action wins. -/
def parseArgs (files : List String) (builtin : Bool) : List String → Except UsageError Action
  | [] => if files.isEmpty && !builtin then .error .noFiles else .ok (.check files builtin)
  | arg :: rest =>
      if arg = "-h" || arg = "--help" then .ok .help
      else if arg = "--list-domains" then .ok .listDomains
      else if arg = "--builtin" then parseArgs files true rest
      else if arg.startsWith "--" then .error (.unknownOption arg)
      else parseArgs (files ++ [arg]) builtin rest

def usage : String :=
  "Usage:\n  tidemon-plans [options] <plan.yaml>...\n\n" ++
  "Loads and validates plan files, then prints each plan's levels in tick order\n" ++
  "with the metrics every level collects after inheritance.\n\n" ++
  "Options:\n" ++
  "  --builtin        also print the built-in default plan\n" ++
  "  --list-domains   print the collector domains this agent knows\n" ++
  "  -h, --help       show this help\n"

def helpLines (help : Help) : List String :=
  s!"{help.domain}: {help.description}" ::
    help.options.map (fun (name, what) => s!"  option {name}: {what}") ++
    (if help.metrics.isEmpty then [] else ["  metrics: " ++ ", ".intercalate help.metrics])

/-- The domains that can be collected without a database come with their help. -/
def domainLines : List String :=
  let registry := BuiltinCollector.registry id
  registry.domains.flatMap (fun domain =>
    match registry.make domain {} with
    | .ok c => helpLines c.help
    | .error _ => [s!"{domain}: (needs a database connection)"])

def metricsText (metrics : List String) : String :=
  if metrics.isEmpty then "(all)" else ", ".intercalate metrics

/-- A sorted plan, its levels in the order given. -/
def planLines (levels : List SortedLevel) (plan : Plan) : List String :=
  s!"[plan] {plan.name} ({plan.source})" ::
    levels.flatMap (fun sorted =>
      s!"  {sorted.name} every {sorted.freq}s" ::
        match plan.levels[sorted.name]? with
        | none => []
        | some level =>
            level.collect.toList.map (fun (domain, d) => s!"    {domain}: {metricsText d.metrics}"))

def unlines (lines : List String) : String := String.join (lines.map (· ++ "\n"))

/-- Prints the named plans in turn, behind what is printed already, up to the first error. -/
def printPlans (store : PlanStore) : List String → List String → List String × Option PlanError
  | printed, [] => (printed, none)
  | printed, name :: rest =>
      match (store.find name).bind Plan.sort with
      | .error e => (printed, some e)
      | .ok (levels, plan) => printPlans store (printed ++ planLines levels plan) rest

def loadAll (tree : FileTree) (files : List String) (builtin : Bool) :
    Except PlanError PlanStore := do
  let store ← PlanStore.empty.loadFiles tree files
  if builtin then store.withDefault else return store

def failed (chain : ErrorChain) (printed : List String) : Outcome :=
  { code := 1, stdout := unlines printed, stderr := chain.report }

def check (tree : FileTree) (files : List String) (builtin : Bool) : Outcome :=
  match loadAll tree files builtin with
  | .error e => failed e.chain []
  | .ok store =>
      match printPlans store [] store.names with
      | (printed, none) => { stdout := unlines printed }
      | (printed, some e) => failed e.chain printed

def run (tree : FileTree) (args : List String) : Outcome :=
  match parseArgs [] false args with
  | .error e => failed [e.message] []
  | .ok .help => { stdout := usage }
  | .ok .listDomains => { stdout := unlines domainLines }
  | .ok (.check files builtin) => check tree files builtin

end Cadence.PlansCommand
