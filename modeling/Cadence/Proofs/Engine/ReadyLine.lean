import Cadence.Proofs.Engine.Errors

/-!
# What the line of the engine says

On the board the engine has one line of its own.  A preparation writes it when it
begins, after each failure to reach the instance, and when it comes to its end.
Every other way out of a preparation leaves the line as it is.  So the line is
about the last preparation, and it tells the live plan exactly if that one has
come to its end.
-/

namespace Cadence

def EngineEvent.isReady : EngineEvent → Bool
  | prepared _ .ready => true
  | _ => false

/-- The line of an engine that tells its live plan. -/
def LiveState.line (live : LiveState) : String :=
  match live.plan with
  | none => "not prepared"
  | some plan => s!"ready: plan {plan.name}"

namespace Engine

/-- How far a preparation has come, as far as the board is concerned. -/
structure Attempt where
  plan : String
  /-- How often the instance has not answered. -/
  unanswered : Nat := 0
  ready : Bool := false
  deriving DecidableEq

def Attempt.text (a : Attempt) : String :=
  if a.ready then s!"ready: plan {a.plan}"
  else if a.unanswered = 0 then s!"preparing plan {a.plan}"
  else s!"connecting (attempt {a.unanswered})"

/-- The last preparation after a step. -/
def attempted (last : Option Attempt) (x : Step Engine EngineAction EngineEvent) : Option Attempt :=
  match x.action with
  | .beginPrepare plan _ => some { plan := plan.name }
  | .pinged _ result =>
      if result = .answered then last
      else last.map (fun a => { a with unanswered := a.unanswered + 1 })
  | _ => if x.events.any (·.isReady) then last.map (fun a => { a with ready := true }) else last

/-- The preparation that has begun last. -/
def lastAttempt? (history : List (Step Engine EngineAction EngineEvent)) : Option Attempt :=
  history.foldl attempted none

def statusLine? (e : Engine) : Option String := e.board.get? statusKey

variable {e e' : Engine} {id : Nat} {action : EngineAction} {events : List EngineEvent}
variable {x : Step Engine EngineAction EngineEvent} {last : Option Attempt} {a : Attempt}

@[simp] theorem statusLine?_say (e : Engine) (text : String) :
    (e.say text).statusLine? = some text :=
  Table.get?_insert_self ..

theorem statusLine?_of_round (hkind : action.isOfRound = true)
    (taken : e.step action = some (e', events)) : e'.statusLine? = e.statusLine? :=
  get?_board_of_round (fun d => (errorKey_ne_statusKey d).symm) hkind taken

/-! ## What a step makes of the last preparation -/

theorem Ends.eq_prune {p : Preparation} (h : Ends p action .ready) : ∃ id, action = .prune id := by
  cases h with
  | ready => exact ⟨_, rfl⟩
  | @uncreated _ _ _ creation _ _ _ houtcome =>
      cases creation <;> simp [Creation.outcome?] at houtcome
  | @unprepared _ _ _ _ result _ _ houtcome =>
      cases result <;> simp [CollectorPrepared.outcome?] at houtcome

/-- A preparation is ready exactly when it has forgotten the errors of the domains that are gone. -/
theorem isReady_iff (taken : e.step action = some (e', events)) :
    events.any (·.isReady) = true ↔ ∃ id, action = .prune id := by
  constructor
  · intro hany
    obtain ⟨event, hevent, hready⟩ := List.any_eq_true.1 hany
    cases event with
    | prepared id outcome =>
        obtain rfl : outcome = .ready := by cases outcome <;> simp [EngineEvent.isReady] at hready ⊢
        have hprepares := prepares_of_mem taken hevent rfl (by simp)
        rw [← mem_signals rfl] at hevent
        generalize signals events = raised at hprepares hevent
        cases hprepares with
        | ends same hp hends =>
            simp only [List.mem_singleton, EngineEvent.prepared.injEq] at hevent
            obtain ⟨-, rfl⟩ := hevent
            exact hends.eq_prune
        | _ => simp at hevent
    | _ => contradiction
  · rintro ⟨id, rfl⟩
    obtain ⟨p, -, -, -, hnext⟩ := prune_eq_some taken
    cases hnext
    rfl

theorem attempted_of_prune (taken : e.step (.prune id) = some (e', events)) :
    attempted last ⟨e, .prune id, e', events⟩ = last.map (fun a => { a with ready := true }) :=
  if_pos ((isReady_iff taken).2 ⟨id, rfl⟩)

theorem attempted_of_other (taken : e.step action = some (e', events))
    (hbegins : action.begins = false) (hpinged : ∀ id result, action ≠ .pinged id result)
    (hprune : ∀ id, action ≠ .prune id) : attempted last ⟨e, action, e', events⟩ = last := by
  have hunready : events.any (·.isReady) = false := by
    rw [← Bool.not_eq_true, isReady_iff taken]
    rintro ⟨id, h⟩
    exact hprune id h
  cases action with
  | beginPrepare => contradiction
  | pinged id result => exact absurd rfl (hpinged id result)
  | _ => simp [attempted, hunready]

/-! ## What the last preparation says of the line -/

/-- A preparation under way has come as far as its stage tells. -/
structure UnderWay (live : LiveState) (p : Preparation) (a : Attempt) : Prop where
  plan : a.plan = p.plan.name
  ready : a.ready = false
  connecting : ∀ n, p.stage = .connecting n → n = a.unanswered + 1
  retrying : ∀ n, p.stage = .retrying n → n = a.unanswered
  live : p.stage.isSwapped = true → live.plan.map (·.name) = some p.plan.name

/-- Stages that say nothing of the instance or the live plan. -/
theorem UnderWay.goesOn {live live' : LiveState} {p p' : Preparation} (h : UnderWay live p a)
    (hplan : p'.plan = p.plan) (hconnecting : ∀ n, p'.stage ≠ .connecting n)
    (hretrying : ∀ n, p'.stage ≠ .retrying n) (hswapped : p'.stage.isSwapped = false) :
    UnderWay live' p' a where
  plan := hplan ▸ h.plan
  ready := h.ready
  connecting n hn := absurd hn (hconnecting n)
  retrying n hn := absurd hn (hretrying n)
  live h := by simp [hswapped] at h

/-- The line is that of the last preparation, and so is the live plan if that one is ready. -/
structure Tells (e : Engine) (last : Option Attempt) : Prop where
  line : e.statusLine? = some ((last.map Attempt.text).getD "not prepared")
  during : ∀ id p, e.preparations.get? id = some p → ∃ a, last = some a ∧ UnderWay e.live p a
  unprepared : last = none → e.live.plan = none
  ready : ∀ a, last = some a → a.ready = true → e.live.plan.map (·.name) = some a.plan

namespace Tells

theorem create (settings : EngineSettings) (board : Board) :
    Tells (create settings board) none where
  line := statusLine?_say ..
  during id p hp := by contradiction
  unprepared _ := rfl
  ready a ha := by contradiction

theorem of_underWay {p : Preparation} (single : ∀ k q, e.preparations.get? k = some q → q = p)
    (hline : e.statusLine? = some a.text) (underWay : UnderWay e.live p a) : Tells e (some a) where
  line := hline
  during k q hq := ⟨a, rfl, single k q hq ▸ underWay⟩
  unprepared h := by contradiction
  ready b hb hready := by
    cases hb
    simp [underWay.ready] at hready

theorem of_over (hover : ∀ k, e.preparations.get? k = none) (hline : e.statusLine? = some a.text)
    (hready : a.ready = true → e.live.plan.map (·.name) = some a.plan) : Tells e (some a) where
  line := hline
  during k q hq := by simp [hover k] at hq
  unprepared h := by contradiction
  ready b hb := by
    cases hb
    exact hready

section

variable {p p' : Preparation} (h : Tells e last) (hp : e.preparations.get? id = some p)
  (alone : ∀ k q, e.preparations.get? k = some q → k = id)

include alone in
theorem single_of_insert (hnext : e'.preparations = e.preparations.insert id p') (k : Nat)
    (q : Preparation) (hq : e'.preparations.get? k = some q) : q = p' := by
  rw [hnext, Table.get?_insert] at hq
  split at hq
  · exact (Option.some.inj hq).symm
  · next hne => exact absurd (alone k q hq) hne

include alone in
theorem none_of_erase (hnext : e'.preparations = e.preparations.erase id) (k : Nat) :
    e'.preparations.get? k = none := by
  rw [hnext, Table.get?_erase]
  split
  · rfl
  · next hne => exact Option.eq_none_iff_forall_ne_some.2 (fun q hq => hne (alone k q hq))

include h hp alone in
/-- The preparation goes on and says nothing. -/
theorem goesOn (hnext : e'.preparations = e.preparations.insert id p')
    (hline : e'.statusLine? = e.statusLine?)
    (moves : ∀ a, UnderWay e.live p a → UnderWay e'.live p' a) : Tells e' last := by
  obtain ⟨a, rfl, underWay⟩ := h.during id p hp
  exact of_underWay (single_of_insert alone hnext) (hline.trans h.line) (moves a underWay)

include h hp alone in
/-- The preparation is over and has said nothing. -/
theorem ends (hnext : e'.preparations = e.preparations.erase id)
    (hline : e'.statusLine? = e.statusLine?) : Tells e' last := by
  obtain ⟨a, rfl, underWay⟩ := h.during id p hp
  refine of_over (none_of_erase alone hnext) (hline.trans h.line) (fun hready => ?_)
  simp [underWay.ready] at hready

end

theorem begins (idle : e.preparations = ∅) (plan : Plan) (cancelled : Bool) :
    Tells (e.beginPrepare plan cancelled) (some { plan := plan.name }) := by
  have hnext : (e.beginPrepare plan cancelled).preparations =
      e.preparations.insert e.nextId { plan, cancelled } := rfl
  refine of_underWay (single_of_insert (fun k q hq => ?_) hnext) (statusLine?_say ..) ?_
  · simp [idle] at hq
  · exact ⟨rfl, rfl, fun n hn => by cases hn; rfl, by simp, by simp [PrepareStage.isSwapped]⟩

variable (h : Tells e last)
  (alone : ∀ id id' p p', e.preparations.get? id = some p → e.preparations.get? id' = some p' →
    id = id')

include h alone

theorem pinged {result : PingResult} (taken : e.step (.pinged id result) = some (e', events)) :
    Tells e' (attempted last ⟨e, .pinged id result, e', events⟩) := by
  obtain ⟨p, n, hp, hstage, ⟨rfl, hnext⟩ | ⟨hresult, hnext⟩⟩ := pinged_eq_some taken
  · cases hnext
    exact h.goesOn hp (fun k q hq => alone k id q p hq hp) rfl rfl
      (fun a underWay => underWay.goesOn rfl (by simp) (by simp) rfl)
  · obtain ⟨a, rfl, underWay⟩ := h.during id p hp
    obtain rfl := underWay.connecting n hstage
    have hlast : attempted (some a) ⟨e, .pinged id result, e', events⟩ =
        some { a with unanswered := a.unanswered + 1 } := if_neg hresult
    rw [hlast]
    cases hnext
    refine of_underWay (single_of_insert (fun k q hq => alone k id q p hq hp) rfl)
      ((statusLine?_say ..).trans ?_) ?_
    · simp [Attempt.text, underWay.ready]
    · exact ⟨underWay.plan, underWay.ready, by simp, fun m hm => by cases hm; rfl,
        by simp [PrepareStage.isSwapped]⟩

theorem prunes (taken : e.step (.prune id) = some (e', events)) :
    Tells e' (attempted last ⟨e, .prune id, e', events⟩) := by
  rw [attempted_of_prune taken]
  obtain ⟨p, hp, hstage, -, hnext⟩ := prune_eq_some taken
  obtain ⟨a, rfl, underWay⟩ := h.during id p hp
  have hlive := underWay.live (by rw [hstage]; rfl)
  cases hnext
  refine of_over (none_of_erase (fun k q hq => alone k id q p hq hp) rfl)
    ((statusLine?_say ..).trans ?_) (fun _ => ?_)
  · simp [Attempt.text, underWay.plan]
  · exact hlive.trans (congrArg some underWay.plan.symm)

/-- What a step makes of the line it makes of the last preparation. -/
theorem step (oneByOne : OneByOne ⟨e, action, e', events⟩)
    (taken : e.step action = some (e', events)) :
    Tells e' (attempted last ⟨e, action, e', events⟩) := by
  have only : ∀ {id p}, e.preparations.get? id = some p → ∀ k q,
      e.preparations.get? k = some q → k = id :=
    fun hp k q hq => alone k _ q _ hq hp
  cases action with
  | beginPrepare plan cancelled =>
      cases taken
      exact .begins (oneByOne rfl) plan cancelled
  | pinged id result => exact h.pinged alone taken
  | prune id => exact h.prunes alone taken
  | cancel id =>
      rw [attempted_of_other taken rfl (by simp) (by simp)]
      obtain ⟨p, hp, hnext⟩ := cancelPreparation_eq_some taken
      cases hnext
      exact h.goesOn hp (only hp) rfl rfl (fun a underWay => ⟨underWay.plan, underWay.ready,
        underWay.connecting, underWay.retrying, underWay.live⟩)
  | retry id =>
      rw [attempted_of_other taken rfl (by simp) (by simp)]
      obtain ⟨p, n, hp, hstage, hnext⟩ := retry_eq_some taken
      cases hnext
      refine h.goesOn hp (only hp) rfl rfl (fun a underWay => ?_)
      have hn := underWay.retrying n hstage
      exact ⟨underWay.plan, underWay.ready, fun m hm => by cases hm; rw [hn], by simp,
        by simp [PrepareStage.isSwapped]⟩
  | noticeCancel id =>
      rw [attempted_of_other taken rfl (by simp) (by simp)]
      obtain ⟨p, hp, -, -, hnext⟩ := noticeCancel_eq_some taken
      cases hnext
      exact h.ends hp (only hp) rfl rfl
  | copyLive id =>
      rw [attempted_of_other taken rfl (by simp) (by simp)]
      obtain ⟨p, hp, -, -, hnext⟩ := copyLive_eq_some taken
      cases hnext
      exact h.goesOn hp (only hp) rfl rfl
        (fun a underWay => underWay.goesOn rfl (by simp) (by simp) rfl)
  | visit id creation noticed =>
      rw [attempted_of_other taken rfl (by simp) (by simp)]
      obtain ⟨p, domain, rest, made, hp, -, ⟨-, _, -, hnext⟩ | ⟨collector, -, hnext⟩⟩ :=
        visit_eq_some taken
      · cases hnext
        exact h.ends hp (only hp) rfl rfl
      · cases hnext
        exact h.goesOn hp (only hp) rfl rfl
          (fun a underWay => underWay.goesOn rfl (by simp) (by simp) rfl)
  | collectorPrepared id result =>
      rw [attempted_of_other taken rfl (by simp) (by simp)]
      obtain ⟨p, domain, collector, rest, hp, -, ⟨_, -, hnext⟩ | ⟨cleanup, -, hnext⟩⟩ :=
        collectorPrepared_eq_some taken
      · cases hnext
        exact h.ends hp (only hp) rfl rfl
      · cases hnext
        exact h.goesOn hp (only hp) rfl rfl
          (fun a underWay => underWay.goesOn rfl (by simp) (by simp) rfl)
  | conclude id =>
      rw [attempted_of_other taken rfl (by simp) (by simp)]
      obtain ⟨p, hp, -, ⟨-, hnext⟩ | ⟨-, hnext⟩⟩ := conclude_eq_some taken
      · cases hnext
        exact h.ends hp (only hp) rfl rfl
      · cases hnext
        exact h.goesOn hp (only hp) rfl rfl
          (fun a underWay => underWay.goesOn rfl (by simp) (by simp) rfl)
  | swap id commits =>
      rw [attempted_of_other taken rfl (by simp) (by simp)]
      cases commits with
      | all =>
          obtain ⟨p, hp, -, -, hnext⟩ := swap_all_eq_some taken
          cases hnext
          exact h.goesOn hp (only hp) rfl rfl (fun a underWay => ⟨underWay.plan, underWay.ready,
            by simp, by simp, fun _ => rfl⟩)
      | only domains =>
          obtain ⟨p, _, hp, -, hnext⟩ := swap_only_eq_some taken
          cases hnext
          exact h.ends hp (only hp) rfl rfl
  | cleanUp id finished =>
      rw [attempted_of_other taken rfl (by simp) (by simp)]
      obtain ⟨p, cleanups, hp, hstage, ⟨-, hnext⟩ | ⟨n, -, -, hnext⟩⟩ := cleanUp_eq_some taken
      · cases hnext
        refine h.goesOn hp (only hp) rfl rfl (fun a underWay => ?_)
        exact ⟨underWay.plan, underWay.ready, by simp, by simp,
          fun _ => underWay.live (by rw [hstage]; rfl)⟩
      · cases hnext
        exact h.ends hp (only hp) rfl rfl
  | dropPreparation id =>
      rw [attempted_of_other taken rfl (by simp) (by simp)]
      obtain ⟨p, hp, -, hnext⟩ := dropPreparation_eq_some taken
      cases hnext
      exact h.ends hp (only hp) rfl rfl
  | _ =>
      -- rounds change neither the live state nor a preparation, and write other lines
      rw [attempted_of_other taken rfl (by simp) (by simp)]
      obtain ⟨hlive, hpreparations, -⟩ := round_frame rfl taken
      have hline := statusLine?_of_round rfl taken
      exact ⟨hline.trans h.line, hpreparations ▸ hlive ▸ h.during, hlive ▸ h.unprepared,
        hlive ▸ h.ready⟩

end Tells

theorem tells_of_run {settings : EngineSettings} {board : Board}
    {history : List (Step Engine EngineAction EngineEvent)}
    (run : Run step (create settings board) history e)
    (oneByOne : ∀ x ∈ history, OneByOne x) : Tells e (lastAttempt? history) := by
  induction run with
  | nil => exact .create settings board
  | @snoc steps e e' action events run taken ih =>
      have before : ∀ x ∈ steps, OneByOne x :=
        fun x hx => oneByOne x (List.mem_append_left _ hx)
      have hlast : lastAttempt? (steps ++ [⟨e, action, e', events⟩]) =
          attempted (lastAttempt? steps) ⟨e, action, e', events⟩ := by
        rw [lastAttempt?, List.foldl_append]
        rfl
      rw [hlast]
      exact (ih before).step (tended_of_run run before).alone
        (oneByOne _ (List.mem_append_right _ List.mem_cons_self)) taken

/-- No plan is called ready before its preparation is. -/
theorem Attempt.text_ne_line (hready : a.ready = false) (live : LiveState) : a.text ≠ live.line := by
  intro heq
  have hfirst := congrArg (fun text => text.toList.head?) heq
  simp only [Attempt.text, hready, LiveState.line, Bool.false_eq_true, if_false] at hfirst
  split at hfirst <;> split at hfirst <;> simp [toString] at hfirst

/--
At every moment of every sequence of preparations the line of the engine is that
of the last one.  It tells the live plan if none has begun or the last one has
come to its end, and it does not if the last one is still under way or has ended
in any other way.
-/
theorem line_tells_live_plan_iff {settings : EngineSettings} {board : Board}
    {history : List (Step Engine EngineAction EngineEvent)}
    (run : Run step (create settings board) history e)
    (oneByOne : ∀ x ∈ history, OneByOne x) :
    e.statusLine? = some (((lastAttempt? history).map Attempt.text).getD "not prepared") ∧
      (e.statusLine? = some e.live.line ↔ ∀ a, lastAttempt? history = some a → a.ready = true) := by
  have tells := tells_of_run run oneByOne
  refine ⟨tells.line, ?_⟩
  rw [tells.line]
  cases hlast : lastAttempt? history with
  | none =>
      have hnone := tells.unprepared hlast
      simp [LiveState.line, hnone]
  | some a =>
      cases hready : a.ready with
      | false =>
          have hne := Attempt.text_ne_line hready e.live
          simp [hne, hready]
      | true =>
          have hplan := tells.ready a hlast hready
          obtain ⟨plan, hlive, hname⟩ := Option.map_eq_some_iff.1 hplan
          simp [LiveState.line, hlive, hname, Attempt.text, hready]

/-! ## Preparations that do not come to their end -/

/-- A plan goes live, and another one cannot be prepared. -/
def secondFails : List EngineAction :=
  goingLive 0 (planOf "a" "app") ++
    [.beginPrepare (planOf "b" "app") false, .pinged 1 .answered, .copyLive 1,
      .visit 1 .created false, .collectorPrepared 1 (.failed ["cannot prepare"])]

/-- A plan goes live, and the instance does not answer while another one is cancelled. -/
def secondCancelled : List EngineAction :=
  goingLive 0 (planOf "a" "app") ++
    [.beginPrepare (planOf "b" "app") false, .pinged 1 .failed, .cancel 1, .noticeCancel 1]

def runOfPreparations (actions : List EngineAction) :
    List (Step Engine EngineAction EngineEvent) × Engine :=
  Run.follow step (create {} ∅) actions

/-- With no preparation under way and plan a live, the line names a plan that did not go live after
a failure, and an attempt that is over after a cancellation. -/
theorem line_left_by_preparation :
    (∀ actions ∈ [secondFails, secondCancelled],
      Run step (create {} ∅) (runOfPreparations actions).1 (runOfPreparations actions).2 ∧
      (∀ x ∈ (runOfPreparations actions).1, x.action.begins = true → x.before.preparations = ∅) ∧
      (runOfPreparations actions).2.preparations = ∅ ∧
      (runOfPreparations actions).2.live.line = "ready: plan a") ∧
    (runOfPreparations secondFails).2.statusLine? = some "preparing plan b" ∧
    (runOfPreparations secondCancelled).2.statusLine? = some "connecting (attempt 1)" := by
  refine ⟨fun actions hactions => ⟨Run.of_follow .., ?_⟩, by decide +kernel, by decide +kernel⟩
  revert actions
  decide +kernel

/-- The line tells the live plan again once a later preparation has come to its end. -/
theorem line_tells_live_plan_iff_third :
    ∃ history last, Run step (create {} ∅) history last ∧ (∀ x ∈ history, OneByOne x) ∧
      .prepared 1 (.failed ["preparing app collector", "cannot prepare"]) ∈
        history.flatMap (·.events) ∧
      last.statusLine? = some last.live.line ∧ last.live.line = "ready: plan c" := by
  have hrun : Run step (create {} ∅) _ _ :=
    Run.of_follow _ _ (secondFails ++ goingLive 2 (planOf "c" "app"))
  have honeByOne : ∀ x ∈ (Run.follow step (create {} ∅)
      (secondFails ++ goingLive 2 (planOf "c" "app"))).1,
      x.action.begins = true → x.before.preparations = ∅ := by decide +kernel
  have hready : lastAttempt? (Run.follow step (create {} ∅)
      (secondFails ++ goingLive 2 (planOf "c" "app"))).1 =
        some { plan := "c", ready := true } := by decide +kernel
  refine ⟨_, _, hrun, honeByOne, by decide +kernel,
    (line_tells_live_plan_iff hrun honeByOne).2.2 (fun a ha => ?_), by decide +kernel⟩
  rw [hready] at ha
  cases ha
  rfl

end Engine

end Cadence
