import Cadence.Proofs.Engine.OnePlan
import Cadence.Proofs.Engine.Signals

/-!
# The tasks of a round

A task waits, collects and ends, or ends without a result at any time.  So the
stage it is at tells what the history says of it: how often its collector has
been called and with which result, if any, the task has ended.
-/

namespace Cadence

namespace EngineAction

/-- Whether an action may change the task of a domain in a round. -/
def isOfTask (id : Nat) (domain : String) : EngineAction → Bool
  | .enter k _ => k = id
  | .startTask k d | .finishTask k d _ | .loseTask k d => k = id ∧ d = domain
  | _ => false

/-- How an action ends the task of a domain in a round, if it does. -/
def outcome? (id : Nat) (domain : String) : EngineAction → Option CollectResult
  | .finishTask k d result => if k = id ∧ d = domain then some result else none
  | .loseTask k d => if k = id ∧ d = domain then some .died else none
  | _ => none

end EngineAction

namespace Engine

section

variable (id : Nat) (domain : String) (history : List (Step Engine EngineAction EngineEvent))

/-- How often the collector of a domain has been called in a round. -/
def calls : Nat := history.countP (fun x => x.action = .startTask id domain)

/-- The results with which the task of a domain has ended in a round. -/
def outcomes : List CollectResult := history.filterMap (fun x => x.action.outcome? id domain)

end

/-! ## What a step does to a task -/

/-- What becomes of the task of a domain in a round that is still there after the step. -/
inductive TaskMove (e : Engine) (id : Nat) (domain : String) :
    EngineAction → Option RoundTask → Option RoundTask → Prop
  | stays {action : EngineAction} {t : Option RoundTask} :
      action.isOfTask id domain = false → TaskMove e id domain action t t
  | appears {now : Utc} {r : EngineRound} : e.rounds.get? id = some r →
      TaskMove e id domain (.enter id now) none
        ((((e.live.levels.get? r.level).getD ∅).get? domain).map (fun collector => { collector }))
  | starts {t : RoundTask} {selected : Option Selected} : t.stage = .waiting →
      TaskMove e id domain (.startTask id domain) (some t)
        (some { t with stage := .collecting, selected })
  | finishes {t : RoundTask} {result : CollectResult} : t.stage = .collecting → result ≠ .died →
      TaskMove e id domain (.finishTask id domain result) (some t)
        (some { t with stage := .finished result })
  | dies {t : RoundTask} : t.result? = none →
      TaskMove e id domain (.loseTask id domain) (some t)
        (some { t with stage := .finished .died })

variable {e e' : Engine} {id : Nat} {domain : String} {action : EngineAction}
variable {events : List EngineEvent}

theorem task?_setRound {k : Nat} {r : EngineRound} {plan : String} {began : Utc}
    {tasks : Table String RoundTask} {d : String} {t : RoundTask} {permits : Nat}
    (hr : e.rounds.get? k = some r) (hstage : r.stage = .collecting plan began tasks) :
    (e.setRound k { r with
      stage := .collecting plan began (tasks.insert d t), permits }).task? id domain =
      if id = k ∧ domain = d then some t else e.task? id domain := by
  by_cases hid : id = k
  · subst hid
    rw [task?_eq_get? (Table.get?_insert_self (t := e.rounds) id _) rfl, task?_eq_get? hr hstage,
      Table.get?_insert]
    simp
  · rw [if_neg (fun h => hid h.1)]
    exact task?_congr ((Table.get?_insert ..).trans (if_neg hid)) domain

/-- A step that changes one task of an open round moves that task and no other. -/
private theorem taskMove_of_insert {k : Nat} {r : EngineRound} {plan : String} {began : Utc}
    {tasks : Table String RoundTask} {d : String} {t t' : RoundTask} {permits : Nat}
    (hr : e.rounds.get? k = some r) (hstage : r.stage = .collecting plan began tasks)
    (ht : tasks.get? d = some t)
    (own : action.isOfTask id domain = decide (k = id ∧ d = domain))
    (move : k = id → d = domain → TaskMove e id domain action (some t) (some t')) :
    TaskMove e id domain action (e.task? id domain)
      ((e.setRound k { r with
        stage := .collecting plan began (tasks.insert d t'), permits }).task? id domain) := by
  rw [task?_setRound hr hstage]
  by_cases hsame : id = k ∧ domain = d
  · obtain ⟨rfl, rfl⟩ := hsame
    rw [if_pos ⟨rfl, rfl⟩, task?_eq_get? hr hstage, ht]
    exact move rfl rfl
  · rw [if_neg hsame]
    refine .stays (own.trans (decide_eq_false ?_))
    rintro ⟨rfl, rfl⟩
    exact hsame ⟨rfl, rfl⟩

theorem taskMove_of_step (numbered : e.Numbered) (taken : e.step action = some (e', events))
    (there : id ∈ e'.rounds) (domain : String) :
    TaskMove e id domain action (e.task? id domain) (e'.task? id domain) := by
  have idle : action.isOfTask id domain = false → e'.rounds.get? id = e.rounds.get? id →
      TaskMove e id domain action (e.task? id domain) (e'.task? id domain) := by
    intro hother same
    rw [task?_congr same]
    exact .stays hother
  have erased : ∀ k, e'.rounds = e.rounds.erase k →
      id ≠ k ∧ e'.rounds.get? id = e.rounds.get? id := by
    intro k hrounds
    obtain ⟨r, hr⟩ := Table.mem_iff.1 there
    rw [hrounds, Table.get?_erase] at hr
    have hne : id ≠ k := fun h => by simp [h] at hr
    exact ⟨hne, by rw [hrounds, Table.get?_erase, if_neg hne]⟩
  cases hkind : action.isOfRound with
  | false =>
      refine idle ?_ (by rw [(preparing_frame hkind taken).rounds])
      cases action <;> first | rfl | contradiction
  | true =>
    cases action with
    | beginCollect level =>
        cases taken
        by_cases hid : id = e.nextId
        · have habsent : e.rounds.get? id = none := by
            cases hr : e.rounds.get? id with
            | none => rfl
            | some r => exact absurd (numbered.rounds id r hr) (by omega)
          have hnew : (e.beginCollect level).rounds.get? id = some { level } :=
            hid ▸ Table.get?_insert_self ..
          rw [task?_of_absent habsent, task?_of_queued hnew rfl]
          exact .stays rfl
        · exact idle rfl ((Table.get?_insert ..).trans (if_neg hid))
    | enter k now =>
        obtain ⟨r, hr, hqueued, -, ⟨-, hnext⟩ | ⟨-, hnext⟩⟩ := enter_eq_some taken
        · cases hnext
          obtain ⟨hne, same⟩ := erased k rfl
          exact idle (decide_eq_false (Ne.symm hne)) same
        · cases hnext
          by_cases hid : k = id
          · subst hid
            rw [task?_of_queued hr hqueued,
              task?_eq_get? (Table.get?_insert_self (t := e.rounds) k _) rfl, Table.get?_map]
            exact .appears hr
          · exact idle (decide_eq_false hid)
              ((Table.get?_insert ..).trans (if_neg (Ne.symm hid)))
    | startTask k d =>
        obtain ⟨r, plan, began, tasks, t, hr, hstage, ht, hwaiting, -, hnext⟩ :=
          startTask_eq_some taken
        cases hnext
        refine taskMove_of_insert hr hstage ht rfl ?_
        rintro rfl rfl
        exact .starts hwaiting
    | finishTask k d result =>
        obtain ⟨r, plan, began, tasks, t, hr, hstage, ht, hcollecting, halive, hnext⟩ :=
          finishTask_eq_some taken
        cases hnext
        refine taskMove_of_insert hr hstage ht rfl ?_
        rintro rfl rfl
        exact .finishes hcollecting halive
    | loseTask k d =>
        obtain ⟨r, plan, began, tasks, t, hr, hstage, ht, hopen, hnext⟩ := loseTask_eq_some taken
        cases hnext
        refine taskMove_of_insert hr hstage ht rfl ?_
        rintro rfl rfl
        exact .dies hopen
    | close k now =>
        obtain ⟨r, plan, began, tasks, -, -, -, hnext⟩ := close_eq_some taken
        cases hnext
        exact idle rfl (erased k (record_rounds ..)).2
    | dropRound k =>
        cases (step_dropRound_eq_some taken).2
        exact idle rfl (erased k rfl).2
    | _ => contradiction

/-! ## What the history says of a task -/

/-- The calls and outcomes of a task that is at some stage, or of none. -/
inductive Tallies : Option RoundTask → Nat → List CollectResult → Prop
  | absent : Tallies none 0 []
  | waiting {t : RoundTask} : t.stage = .waiting → Tallies (some t) 0 []
  | collecting {t : RoundTask} : t.stage = .collecting → Tallies (some t) 1 []
  | ended {t : RoundTask} {result : CollectResult} {n : Nat} : t.stage = .finished result →
      n ≤ 1 → (result ≠ .died → n = 1) → Tallies (some t) n [result]

variable {history : List (Step Engine EngineAction EngineEvent)}
variable {x : Step Engine EngineAction EngineEvent}

theorem calls_snoc :
    calls id domain (history ++ [x]) =
      calls id domain history + if x.action = .startTask id domain then 1 else 0 := by
  simp [calls, List.countP_append, List.countP_cons]

theorem outcomes_snoc :
    outcomes id domain (history ++ [x]) =
      outcomes id domain history ++ (x.action.outcome? id domain).toList := by
  rw [outcomes, List.filterMap_append, outcomes]
  cases hx : x.action.outcome? id domain <;> simp [hx]

/-- An action that is not of a task neither calls its collector nor ends it. -/
theorem tallies_snoc_of_not (history : List (Step Engine EngineAction EngineEvent))
    (hother : x.action.isOfTask id domain = false) :
    calls id domain (history ++ [x]) = calls id domain history ∧
      outcomes id domain (history ++ [x]) = outcomes id domain history := by
  rw [calls_snoc, outcomes_snoc]
  constructor
  · rw [if_neg, Nat.add_zero]
    rintro hstart
    simp [hstart, EngineAction.isOfTask] at hother
  · suffices h : x.action.outcome? id domain = none by simp [h]
    generalize x.action = action at hother
    cases action <;> simp_all [EngineAction.outcome?, EngineAction.isOfTask]

theorem Tallies.moves {t t' : Option RoundTask}
    (h : Tallies t (calls id domain history) (outcomes id domain history))
    (move : TaskMove x.before id domain x.action t t') :
    Tallies t' (calls id domain (history ++ [x])) (outcomes id domain (history ++ [x])) := by
  obtain ⟨before, action, after, events⟩ := x
  dsimp only at move
  cases move with
  | stays hother =>
      obtain ⟨hcalls, houtcomes⟩ := tallies_snoc_of_not history
        (x := ⟨before, action, after, events⟩) hother
      rwa [hcalls, houtcomes]
  | @appears now r hr =>
      rw [calls_snoc, outcomes_snoc]
      generalize calls id domain history = n at h
      generalize outcomes id domain history = results at h
      cases h with
      | absent =>
          cases ((before.live.levels.get? r.level).getD ∅).get? domain with
          | none => exact .absent
          | some collector => exact .waiting rfl
  | starts hwaiting =>
      rw [calls_snoc, outcomes_snoc, if_pos rfl]
      generalize calls id domain history = n at h
      generalize outcomes id domain history = results at h
      cases h with
      | waiting => exact .collecting rfl
      | collecting hstage => simp [hstage] at hwaiting
      | ended hstage => simp [hstage] at hwaiting
  | @finishes t result hcollecting halive =>
      rw [calls_snoc, outcomes_snoc, EngineAction.outcome?,
        if_pos (And.intro rfl rfl)]
      generalize calls id domain history = n at h
      generalize outcomes id domain history = results at h
      cases h with
      | waiting hstage => simp [hstage] at hcollecting
      | collecting => exact .ended rfl (Nat.le_refl _) (fun _ => rfl)
      | ended hstage => simp [hstage] at hcollecting
  | @dies t hopen =>
      rw [calls_snoc, outcomes_snoc, EngineAction.outcome?,
        if_pos (And.intro rfl rfl)]
      generalize calls id domain history = n at h
      generalize outcomes id domain history = results at h
      cases h with
      | waiting => exact .ended rfl (Nat.zero_le _) (fun halive => absurd rfl halive)
      | collecting => exact .ended rfl (Nat.le_refl _) (fun halive => absurd rfl halive)
      | ended hstage => simp [RoundTask.result?, hstage] at hopen

/-- No action is of a round that has not begun. -/
theorem not_isOfTask_of_le (numbered : e.Numbered) (taken : e.step action = some (e', events))
    (hle : e.nextId ≤ id) (domain : String) : action.isOfTask id domain = false := by
  have hother : ∀ {k : Nat} {r : EngineRound}, e.rounds.get? k = some r → k ≠ id := by
    rintro k r hr rfl
    have hlt := numbered.rounds k r hr
    omega
  cases action with
  | enter k now =>
      obtain ⟨r, hr, -⟩ := enter_eq_some taken
      exact decide_eq_false (hother hr)
  | startTask k d =>
      obtain ⟨r, plan, began, tasks, t, hr, -⟩ := startTask_eq_some taken
      exact decide_eq_false (fun h => hother hr h.1)
  | finishTask k d result =>
      obtain ⟨r, plan, began, tasks, t, hr, -⟩ := finishTask_eq_some taken
      exact decide_eq_false (fun h => hother hr h.1)
  | loseTask k d =>
      obtain ⟨r, plan, began, tasks, t, hr, -⟩ := loseTask_eq_some taken
      exact decide_eq_false (fun h => hother hr h.1)
  | _ => rfl

/-- As long as a round is there, and before it begins, the history says of each of its tasks what
the stage of the task says. -/
theorem tallies_of_run {settings : EngineSettings} {board : Board}
    (run : Run step (create settings board) history e) (there : id ∈ e.rounds ∨ e.nextId ≤ id)
    (domain : String) :
    Tallies (e.task? id domain) (calls id domain history) (outcomes id domain history) := by
  induction run with
  | nil =>
      rw [task?_of_absent rfl]
      exact .absent
  | @snoc steps e e' action events run taken ih =>
      have numbered := numbered_of_run run
      rcases there with there | hnew
      · have before : id ∈ e.rounds ∨ e.nextId ≤ id := by
          rcases mem_rounds_before taken there with hmem | hnew
          · exact .inl hmem
          · exact .inr (Nat.le_of_eq hnew.symm)
        exact (ih before).moves (x := ⟨e, action, e', events⟩)
          (taskMove_of_step numbered taken there domain)
      · -- the round has not begun, so no action has been of it
        have hle : e.nextId ≤ id := Nat.le_trans (nextId_le_of_step taken) hnew
        obtain ⟨hcalls, houtcomes⟩ := tallies_snoc_of_not steps
          (x := ⟨e, action, e', events⟩) (not_isOfTask_of_le numbered taken hle domain)
        have habsent : ∀ {f : Engine}, f.Numbered → f.nextId ≤ id → f.task? id domain = none := by
          intro f numbered hle
          refine task?_of_absent ?_ domain
          cases hr : f.rounds.get? id with
          | none => rfl
          | some r => exact absurd (numbered.rounds id r hr) (by omega)
        rw [hcalls, houtcomes, habsent (numbered.step taken) hnew, ← habsent numbered hle]
        exact ih (.inr hle)

end Engine

end Cadence
