import Cadence.Board
import Cadence.Duration.Basic
import Cadence.ErrorChain
import Cadence.Metric.Batch
import Cadence.Selection

/-!
The state of the collection engine.

The engine has one live plan with one collector for each of its domains.
Preparations work towards another live plan, rounds collect a level of the live
one.  Both wait in one queue for the live state: a round and a look at the live
state share it, a swap has it alone, and nobody passes a swap that waits.
-/

namespace Cadence

structure EngineSettings where
  monitorId : String := ""
  /-- How many domains of a round are collected at once; zero counts as one. -/
  concurrency : Nat := 2
  connectTimeout : Duration := .ofSecs 2
  connectRetry : Duration := .ofSecs 2
  deriving DecidableEq, Inhabited

/-- Something left to do for a domain once the plan it was prepared for is replaced. -/
structure Cleanup where
  domain : String
  plan : String
  deriving DecidableEq, Repr

/-- What rounds work with.  Collectors are known by number. -/
structure LiveState where
  plan : Option Plan := none
  collectors : Table String Nat := ∅
  /-- The collectors of each level by domain. -/
  levels : Table String (Table String Nat) := ∅
  cleanups : List Cleanup := []
  deriving DecidableEq, Inhabited

/-- The live state that results from a plan and a collector for each of its domains. -/
def LiveState.ofPlan (plan : Plan) (collectors : Table String Nat) (cleanups : List Cleanup) :
    LiveState where
  plan := some plan
  collectors := collectors
  levels := .ofList (plan.levels.values.map (fun level =>
    (level.name, level.collect.filterMap (fun domain _ => collectors[domain]?))))
  cleanups := cleanups

/-- What a preparation is waiting for or about to do. -/
inductive PrepareStage where
  /-- Waiting for the instance to answer. -/
  | connecting (attempt : Nat)
  /-- Waiting before the next attempt. -/
  | retrying (attempt : Nat)
  /-- In the queue, to look at the live collectors. -/
  | copying
  /-- About to turn to the first of these domains. -/
  | visiting (rest : List String)
  /-- Waiting for a collector to prepare. -/
  | preparing (domain : String) (collector : Nat) (rest : List String)
  /-- In the queue, to replace the live state. -/
  | swapping
  /-- About to run what the replaced plan left behind. -/
  | swapped (cleanups : List Cleanup)
  /-- In the queue, to forget the errors of domains that are gone. -/
  | pruning
  deriving DecidableEq

structure Preparation where
  plan : Plan
  cancelled : Bool := false
  stage : PrepareStage := .connecting 1
  /-- The collectors that were live when the preparation looked. -/
  known : Table String Nat := ∅
  /-- The collectors of the domains visited so far. -/
  collectors : Table String Nat := ∅
  cleanups : List Cleanup := []
  deriving DecidableEq

inductive PrepareOutcome where
  | ready
  | cancelled
  | failed (chain : ErrorChain)
  /-- A collector or a cleanup broke the preparation off. -/
  | panicked
  deriving DecidableEq

/-- How a collector's part in a round ended. -/
inductive CollectResult where
  | values (values : List MetricValue)
  | failed (chain : ErrorChain)
  | panicked (message : String) (trace : Option String)
  /-- The task is gone without a result. -/
  | died
  deriving DecidableEq

inductive TaskStage where
  | waiting
  | collecting
  | finished (result : CollectResult)
  deriving DecidableEq

/-- The part of one collector in a round. -/
structure RoundTask where
  collector : Nat
  /-- What the collector was asked for when it started. -/
  selected : Option Selected := none
  stage : TaskStage := .waiting
  deriving DecidableEq

inductive RoundStage where
  /-- In the queue. -/
  | queued
  /-- Collecting from the live plan of this name. -/
  | collecting (plan : String) (began : Utc) (tasks : Table String RoundTask)
  deriving DecidableEq

structure EngineRound where
  level : String
  stage : RoundStage := .queued
  /-- How many more collectors may be called at once. -/
  permits : Nat := 0
  deriving DecidableEq

inductive Ticket where
  | round (id : Nat)
  | copy (preparation : Nat)
  | swap (preparation : Nat)
  | prune (preparation : Nat)
  deriving DecidableEq, Repr

/-- Whether a preparation may stay here for a while.  Between the other stages it goes on without
waiting, so nobody can give it up there. -/
def PrepareStage.waits : PrepareStage → Bool
  | visiting _ | swapped _ => false
  | _ => true

def Ticket.isSwap : Ticket → Bool
  | swap _ => true
  | _ => false

def RoundStage.isQueued : RoundStage → Bool
  | queued => true
  | collecting .. => false

structure Engine where
  settings : EngineSettings
  live : LiveState := {}
  /-- What each collector has staged and committed. -/
  selections : Table Nat Selection := ∅
  nextCollector : Nat := 0
  /-- The last error of each failing domain. -/
  errors : Table String String := ∅
  /-- The status board, which others write to as well. -/
  board : Board := ∅
  queue : List Ticket := []
  preparations : Table Nat Preparation := ∅
  rounds : Table Nat EngineRound := ∅
  nextId : Nat := 0
  deriving DecidableEq, Inhabited

inductive EngineEvent where
  /-- The registry is asked for a collector of a domain. -/
  | creating (domain : String)
  | preparing (domain plan : String) (collector : Nat)
  /-- The swap of a preparation is about to be waited for. -/
  | before (preparation : Nat)
  | committing (domain : String) (collector : Nat)
  /-- The swap of a preparation is done. -/
  | after (preparation : Nat)
  | cleaning (cleanup : Cleanup)
  | prepared (preparation : Nat) (outcome : PrepareOutcome)
  | collected (round : Nat) (batch : Batch)
  deriving DecidableEq

namespace Engine

def statusKey : String := "engine"

def errorKey (domain : String) : String := "collector/" ++ domain

def say (e : Engine) (text : String) : Engine :=
  { e with board := e.board.set statusKey text }

def create (settings : EngineSettings) (board : Board) : Engine :=
  ({ settings := { settings with concurrency := max 1 settings.concurrency }, board } : Engine).say
    "not prepared"

/-- The name of the live plan; unknown while anybody waits for the live state. -/
def planName? (e : Engine) : Option (Option String) :=
  if e.queue.isEmpty then some (e.live.plan.map (·.name)) else none

/-- Whether some round works with the live state. -/
def inUse (e : Engine) : Bool :=
  e.rounds.values.any (fun r => !r.stage.isQueued)

/-- Whether it is the turn of a ticket. -/
def admits (e : Engine) (t : Ticket) : Bool :=
  if t.isSwap then e.queue.head? = some t && !e.inUse
  else t ∈ e.queue && !(e.queue.takeWhile (· ≠ t)).any Ticket.isSwap

def enqueue (e : Engine) (t : Ticket) : Engine := { e with queue := e.queue ++ [t] }

def dequeue (e : Engine) (t : Ticket) : Engine := { e with queue := e.queue.filter (· ≠ t) }

end Engine

end Cadence
