import Cadence.Engine.Collecting

/-!
The engine as a machine.

`step` says what each action does to the engine and which events it brings
about, or that the action is not possible now.  Actions may come in any order:
whatever can happen with several preparations and rounds at once is a sequence
of them.
-/

namespace Cadence

inductive EngineAction where
  | beginPrepare (plan : Plan) (cancelled : Bool)
  | cancel (preparation : Nat)
  | pinged (preparation : Nat) (result : PingResult)
  | retry (preparation : Nat)
  | noticeCancel (preparation : Nat)
  | copyLive (preparation : Nat)
  | visit (preparation : Nat) (creation : Creation) (noticed : Bool)
  | collectorPrepared (preparation : Nat) (result : CollectorPrepared)
  | conclude (preparation : Nat)
  | swap (preparation : Nat) (commits : Commits)
  | cleanUp (preparation : Nat) (finished : Option Nat)
  | prune (preparation : Nat)
  | dropPreparation (preparation : Nat)
  | beginCollect (level : String)
  | enter (round : Nat) (now : Utc)
  | startTask (round : Nat) (domain : String)
  | finishTask (round : Nat) (domain : String) (result : CollectResult)
  | loseTask (round : Nat) (domain : String)
  | close (round : Nat) (now : Utc)
  | dropRound (round : Nat)
  deriving DecidableEq

namespace Engine

def step (e : Engine) : EngineAction → Option (Engine × List EngineEvent)
  | .beginPrepare plan cancelled => some (e.beginPrepare plan cancelled, [])
  | .cancel id => e.cancelPreparation id
  | .pinged id result => e.pinged id result
  | .retry id => e.retry id
  | .noticeCancel id => e.noticeCancel id
  | .copyLive id => e.copyLive id
  | .visit id creation noticed => e.visit id creation noticed
  | .collectorPrepared id result => e.collectorPrepared id result
  | .conclude id => e.conclude id
  | .swap id commits => e.swap id commits
  | .cleanUp id finished => e.cleanUp id finished
  | .prune id => e.prune id
  | .dropPreparation id => e.dropPreparation id
  | .beginCollect level => some (e.beginCollect level, [])
  | .enter id now => e.enter id now
  | .startTask id domain => e.startTask id domain
  | .finishTask id domain result => e.finishTask id domain result
  | .loseTask id domain => e.loseTask id domain
  | .close id now => e.close id now
  | .dropRound id => if e.rounds.contains id then some (e.dropRound id, []) else none

end Engine

end Cadence
