import Cadence.ErrorChain
import Cadence.Config
import Cadence.Plan.Store

/-!
The command that runs the agent, up to the point from which it collects.

Settings, plans and database address are checked in this order, and without a
policy the configured plan has to exist.
-/

namespace Cadence.AgentCommand

inductive StartError where
  | config (reason : ConfigFileError)
  | plan (reason : PlanError)
  /-- The database address is none. -/
  | database
  | activation (name : String) (reason : PlanError)
  deriving DecidableEq

/-- What a failed activation was about. -/
def activating (plan : String) : String := s!"activating plan '{plan}'"

def StartError.chain : StartError → ErrorChain
  | config reason => reason.chain
  | plan reason => reason.chain
  | database => ["configuring database connection", "not a database address"]
  | activation name reason => .within (activating name) reason.chain

/-- Behind the host: nothing, or a colon and a port of 16 bits. -/
def isPort (cs : List Char) : Bool :=
  match cs with
  | [] | [':'] => true
  | ':' :: digits =>
      digits.all Char.isDigit && digits.length ≤ 5 &&
        digits.foldl (fun n c => n * 10 + (c.toNat - '0'.toNat)) 0 < 65536
  | _ => false

/-- An address of the form `mysql://[user@]host[:port][/name]`. -/
def isDatabaseAddress (dsn : String) : Bool :=
  let scheme := "mysql://".toList
  let authority := (dsn.toList.drop scheme.length).takeWhile (fun c => c ∉ ['/', '?', '#'])
  let host := (authority.reverse.takeWhile (· ≠ '@')).reverse
  let name := if host.head? = some '[' then host.takeWhile (· ≠ ']') ++ [']']
    else host.takeWhile (· ≠ ':')
  scheme.isPrefixOf dsn.toList && isPort (host.drop name.length) &&
    !name.any (fun c => c ∈ [' ', '<', '>', '\\', '^', '|', '\x00', '\t', '\n', '\r'])

structure Started where
  config : Config
  store : PlanStore
  sinks : List Sink

/-- The file of settings: the first argument, or the usual place. -/
def configPath (args : List String) : String := args.head?.getD "config/agent.toml"

def start (tree : FileTree) (args : List String) : Except StartError Started := do
  let config ← (Config.load tree (configPath args)).mapError .config
  let store ← (PlanStore.empty.loadFiles tree config.plans).mapError .plan
  let store ← store.withDefault.mapError .plan
  if config.dsn.any (fun dsn => !isDatabaseAddress dsn) then throw .database
  if config.policy.isNone then
    let _ ← ((store.find config.plan).bind Plan.sort).mapError (.activation config.plan)
  return { config, store, sinks := config.sinks.filterMap Sink.ofName? }

/-- The end of an agent that cannot start; an agent that starts goes on until it is stopped. -/
def run (tree : FileTree) (args : List String) : Option Outcome :=
  match start tree args with
  | .ok _ => none
  | .error e => some { code := 1, stderr := e.chain.report }

end Cadence.AgentCommand
