import Cadence.Proofs.Engine.OnePlan

/-!
# What rounds record

A round that has ended records for each of its domains either an error or that
the domain has answered, in the errors and on the board.  Nothing else changes
an error or its line, but for the end of a preparation: it forgets the errors of
the domains that are not live any more, and not their lines.
-/

namespace Cadence

/-- What a batch says of a domain: its error, or none if it has answered. -/
def Batch.verdict? (batch : Batch) (domain : String) : Option (Option String) :=
  match batch.errors.get? domain with
  | some error => some (some error)
  | none => if domain ∈ batch.values then some none else none

theorem Batch.mem_of_verdict? {batch : Batch} {domain : String} {verdict : Option String}
    (h : batch.verdict? domain = some verdict) : domain ∈ batch.values ∨ domain ∈ batch.errors := by
  rw [verdict?] at h
  split at h
  · next error herror => exact .inr (Table.mem_iff.2 ⟨error, herror⟩)
  · split at h
    · exact .inl ‹_›
    · contradiction

def EngineEvent.verdict? (domain : String) : EngineEvent → Option (Option String)
  | .collected _ batch => batch.verdict? domain
  | _ => none

namespace Engine

/-- What a step records of a domain. -/
def verdict? (domain : String) (x : Step Engine EngineAction EngineEvent) :
    Option (Option String) :=
  x.events.findSome? (·.verdict? domain)

/-- The line of the board for the errors of a domain. -/
def line? (e : Engine) (domain : String) : Option String := e.board.get? (errorKey domain)

theorem errorKey_inj {d d' : String} : errorKey d = errorKey d' ↔ d = d' := by
  simp [errorKey]

theorem errorKey_ne_statusKey (d : String) : errorKey d ≠ statusKey := by
  intro h
  have hfirst := congrArg (fun key => key.toList.head?) h
  simp [errorKey, statusKey] at hfirst

@[simp] theorem line?_say (e : Engine) (text d : String) : (e.say text).line? d = e.line? d := by
  rw [line?, say, Board.get?, Board.set, Table.getElem?_eq_get?, Table.get?_insert,
    if_neg (errorKey_ne_statusKey d)]
  rfl

theorem get?_clearError (e : Engine) (domain d : String) :
    (e.clearError domain).errors.get? d = if d = domain then none else e.errors.get? d := by
  rw [clearError]
  split
  · exact Table.get?_erase ..
  · next habsent =>
      split
      · next hd =>
          subst hd
          simpa [Table.contains] using habsent
      · rfl

theorem line?_clearError (e : Engine) (domain d : String) :
    (e.clearError domain).line? d =
      if d = domain ∧ domain ∈ e.errors then none else e.line? d := by
  rw [clearError]
  split
  · next hthere =>
      simp only [line?, Board.get?, Board.remove, Table.getElem?_eq_get?, Table.get?_erase,
        errorKey_inj]
      exact if_congr ⟨fun h => ⟨h, hthere⟩, fun h => h.1⟩ rfl rfl
  · next habsent => rw [if_neg (fun h => habsent h.2)]

theorem get?_setError (e : Engine) (domain error d : String) :
    (e.setError domain error).errors.get? d =
      if d = domain then some error else e.errors.get? d :=
  Table.get?_insert ..

theorem line?_setError (e : Engine) (domain error d : String) :
    (e.setError domain error).line? d = if d = domain then some error else e.line? d := by
  simp only [line?, setError, Board.get?, Board.set, Table.getElem?_eq_get?, Table.get?_insert,
    errorKey_inj]

/-- The errors of these domains are cleared, and so are the lines of those that had one. -/
private theorem foldl_clearError (domains : List String) (e : Engine) (d : String) :
    (domains.foldl clearError e).errors.get? d =
        (if d ∈ domains then none else e.errors.get? d) ∧
      (domains.foldl clearError e).line? d =
        (if d ∈ domains ∧ d ∈ e.errors then none else e.line? d) := by
  induction domains generalizing e with
  | nil => simp
  | cons first rest ih =>
      obtain ⟨herrors, hline⟩ := ih (e.clearError first)
      rw [List.foldl_cons, herrors, hline, get?_clearError, line?_clearError]
      by_cases hd : d = first
      · subst hd
        have hgone : d ∉ (e.clearError d).errors := by
          simp [Table.mem_iff, get?_clearError]
        simp [hgone]
      · have hsame : d ∈ (e.clearError first).errors ↔ d ∈ e.errors := by
          simp [Table.mem_iff, get?_clearError, hd]
        simp [hd, hsame]

private theorem foldl_setError {pairs : List (String × String)}
    (sorted : pairs.Pairwise (fun a b => a.1 < b.1)) (e : Engine) (d : String) :
    (pairs.foldl (fun e x => e.setError x.1 x.2) e).errors.get? d =
        (pairs.lookup d).or (e.errors.get? d) ∧
      (pairs.foldl (fun e x => e.setError x.1 x.2) e).line? d =
        (pairs.lookup d).or (e.line? d) := by
  induction pairs generalizing e with
  | nil => simp
  | cons first rest ih =>
      obtain ⟨hfirst, hrest⟩ := List.pairwise_cons.1 sorted
      obtain ⟨herrors, hline⟩ := ih hrest (e.setError first.1 first.2)
      rw [List.foldl_cons, herrors, hline, get?_setError, line?_setError, Table.lookup_cons_ite]
      by_cases hd : d = first.1
      · have hother : rest.lookup d = none := by
          cases hfound : rest.lookup d with
          | none => rfl
          | some error =>
              have hlt := hfirst _ ((Table.lookup_eq_some_iff hrest).1 hfound)
              exact absurd (hd ▸ hlt) (Key.lt_irrefl _)
        simp [hd ▸ hother, hd]
      · simp [hd]

theorem get?_record (e : Engine) (batch : Batch) (d : String) :
    (e.record batch.values batch.errors).errors.get? d =
      (batch.verdict? d).getD (e.errors.get? d) := by
  obtain ⟨hset, -⟩ := foldl_setError batch.errors.sorted (batch.values.keys.foldl clearError e) d
  obtain ⟨hcleared, -⟩ := foldl_clearError batch.values.keys e d
  refine hset.trans ?_
  rw [hcleared, Batch.verdict?]
  change (batch.errors.get? d).or _ = _
  cases batch.errors.get? d with
  | some error => rfl
  | none => by_cases hd : d ∈ batch.values <;> simp [hd, Table.mem_keys]

theorem line?_record (e : Engine) (batch : Batch) (d : String) :
    (e.record batch.values batch.errors).line? d =
      match batch.verdict? d with
      | some (some error) => some error
      | some none => if d ∈ e.errors then none else e.line? d
      | none => e.line? d := by
  obtain ⟨-, hset⟩ := foldl_setError batch.errors.sorted (batch.values.keys.foldl clearError e) d
  obtain ⟨-, hcleared⟩ := foldl_clearError batch.values.keys e d
  refine hset.trans ?_
  rw [hcleared, Batch.verdict?]
  change (batch.errors.get? d).or _ = _
  cases batch.errors.get? d with
  | some error => rfl
  | none => by_cases hd : d ∈ batch.values <;> simp [hd, Table.mem_keys]

/-! ## Steps -/

/-- What a step does to the error of a domain and to its line, and the verdict of the step. -/
inductive Notes (e e' : Engine) (d : String) : EngineAction → Option (Option String) → Prop
  | nothing {action : EngineAction} : e'.errors.get? d = e.errors.get? d → e'.line? d = e.line? d →
      (∀ id, action = .prune id → d ∈ e.live.collectors) → Notes e e' d action none
  | failure {id : Nat} {now : Utc} {error : String} : e'.errors.get? d = some error →
      e'.line? d = some error → Notes e e' d (.close id now) (some (some error))
  | success {id : Nat} {now : Utc} : e'.errors.get? d = none →
      e'.line? d = (if d ∈ e.errors then none else e.line? d) →
      Notes e e' d (.close id now) (some none)
  | forgets {id : Nat} : d ∉ e.live.collectors → e'.errors.get? d = none →
      e'.line? d = e.line? d → Notes e e' d (.prune id) none

variable {e e' : Engine} {id : Nat} {action : EngineAction} {events : List EngineEvent}

theorem verdict?_eq_none {x : Step Engine EngineAction EngineEvent} (d : String)
    (h : ∀ k batch, .collected k batch ∉ x.events) : verdict? d x = none := by
  refine List.findSome?_eq_none_iff.2 (fun event hevent => ?_)
  cases event with
  | collected k batch => exact absurd hevent (h k batch)
  | _ => rfl

theorem verdict?_emptyBatch (e : Engine) (level : String) (now : Utc) (d : String) :
    (e.emptyBatch level now).verdict? d = none := by
  simp [Batch.verdict?, emptyBatch, Batch.empty, Table.mem_iff]

theorem line?_frame (hkind : action.isOfRound = false) (taken : e.step action = some (e', events))
    (d : String) : e'.line? d = e.line? d := by
  rcases (preparing_frame hkind taken).board with hboard | ⟨text, hboard⟩
  · rw [line?, hboard]
    rfl
  · rw [line?, hboard]
    exact line?_say e text d

section Board

variable {key : String}

theorem get?_board_record (herror : ∀ d, key ≠ errorKey d) (e : Engine)
    (values : Table String (List MetricValue)) (errors : Table String String) :
    (e.record values errors).board.get? key = e.board.get? key := by
  refine record_eq (·.board.get? key) (fun e domain => ?_) (fun e domain error => ?_) e values errors
  · unfold clearError
    split
    · exact (Table.get?_erase ..).trans (if_neg (herror domain))
    · rfl
  · exact (Table.get?_insert ..).trans (if_neg (herror domain))

/-- A round writes on the board only the lines of the domains. -/
theorem get?_board_of_round (herror : ∀ d, key ≠ errorKey d) (hkind : action.isOfRound = true)
    (taken : e.step action = some (e', events)) : e'.board.get? key = e.board.get? key := by
  cases action with
  | beginCollect level =>
      cases taken
      rfl
  | enter id now =>
      obtain ⟨r, -, -, -, ⟨-, ⟨⟩⟩ | ⟨-, ⟨⟩⟩⟩ := enter_eq_some taken <;> rfl
  | startTask id domain =>
      obtain ⟨r, plan, began, tasks, task, -, -, -, -, -, ⟨⟩⟩ := startTask_eq_some taken
      rfl
  | finishTask id domain result =>
      obtain ⟨r, plan, began, tasks, task, -, -, -, -, -, ⟨⟩⟩ := finishTask_eq_some taken
      rfl
  | loseTask id domain =>
      obtain ⟨r, plan, began, tasks, task, -, -, -, -, ⟨⟩⟩ := loseTask_eq_some taken
      rfl
  | close id now =>
      obtain ⟨r, plan, began, tasks, -, -, -, ⟨⟩⟩ := close_eq_some taken
      exact get?_board_record herror ..
  | dropRound id =>
      cases (step_dropRound_eq_some taken).2
      rfl
  | _ => contradiction

end Board

theorem notes_prune (taken : e.step (.prune id) = some (e', events)) (d : String) :
    Notes e e' d (.prune id) none := by
  have hline := line?_frame rfl taken d
  obtain ⟨p, -, -, -, hnext⟩ := prune_eq_some taken
  cases hnext
  have herrors : (e.errors.filter (fun domain _ => e.live.collectors.contains domain)).get? d =
      (e.errors.get? d).filter (fun _ => e.live.collectors.contains d) := Table.get?_filter ..
  by_cases hlive : d ∈ e.live.collectors
  · refine .nothing (herrors.trans ?_) hline (fun _ _ => hlive)
    cases e.errors.get? d with
    | none => rfl
    | some error => exact if_pos hlive
  · refine .forgets hlive (herrors.trans ?_) hline
    cases e.errors.get? d with
    | none => rfl
    | some error => exact if_neg hlive

theorem notes_close {now : Utc} (taken : e.step (.close id now) = some (e', events)) (d : String) :
    Notes e e' d (.close id now) (verdict? d ⟨e, .close id now, e', events⟩) := by
  obtain ⟨r, plan, began, tasks, -, -, -, hnext⟩ := close_eq_some taken
  cases hnext
  generalize e.batchOf r.level plan began now tasks = batch
  have hverdict : verdict? d ⟨e, .close id now,
      (e.dropRound id).record batch.values batch.errors, [.collected id batch]⟩ =
        batch.verdict? d := by
    cases h : batch.verdict? d <;> simp [verdict?, EngineEvent.verdict?, h]
  have herrors := get?_record (e.dropRound id) batch d
  have hline := line?_record (e.dropRound id) batch d
  rw [hverdict]
  generalize batch.verdict? d = verdict at herrors hline
  cases verdict with
  | none => exact .nothing herrors hline (by simp)
  | some result =>
      cases result with
      | none => exact .success herrors hline
      | some error => exact .failure herrors hline

theorem notes_of_step (x : Step Engine EngineAction EngineEvent)
    (taken : x.before.step x.action = some (x.after, x.events)) (d : String) :
    Notes x.before x.after d x.action (verdict? d x) := by
  obtain ⟨e, action, e', events⟩ := x
  dsimp only at taken ⊢
  have quiet : (∀ id, action ≠ .prune id) → (∀ k batch, .collected k batch ∉ events) →
      e'.errors = e.errors ∧ e'.line? d = e.line? d →
      Notes e e' d action (verdict? d ⟨e, action, e', events⟩) := by
    intro hprune hnone hsame
    rw [verdict?_eq_none d hnone]
    exact .nothing (by rw [hsame.1]) hsame.2 (fun id h => absurd h (hprune id))
  cases hkind : action.isOfRound with
  | false =>
      have hnone := (preparing_frame hkind taken).collected
      by_cases hprune : ∃ id, action = .prune id
      · obtain ⟨id, rfl⟩ := hprune
        rw [verdict?_eq_none d hnone]
        exact notes_prune taken d
      · have hprune : ∀ id, action ≠ .prune id := fun id h => hprune ⟨id, h⟩
        exact quiet hprune hnone
          ⟨(preparing_frame hkind taken).errors hprune, line?_frame hkind taken d⟩
  | true =>
    cases action with
    | beginCollect level =>
        cases taken
        exact quiet (by simp) (by simp) ⟨rfl, rfl⟩
    | enter id now =>
        obtain ⟨r, -, -, -, ⟨-, hnext⟩ | ⟨-, hnext⟩⟩ := enter_eq_some taken
        · -- the batch of a level without collectors says nothing of any domain
          cases hnext
          have hverdict : verdict? d ⟨e, .enter id now, e.dropRound id,
              [.collected id (e.emptyBatch r.level now)]⟩ = none := by
            simp [verdict?, EngineEvent.verdict?, verdict?_emptyBatch]
          rw [hverdict]
          exact .nothing rfl rfl (by simp)
        · cases hnext
          exact quiet (by simp) (by simp) ⟨rfl, rfl⟩
    | startTask id domain =>
        obtain ⟨r, plan, began, tasks, task, -, -, -, -, -, hnext⟩ := startTask_eq_some taken
        cases hnext
        exact quiet (by simp) (by simp) ⟨rfl, rfl⟩
    | finishTask id domain result =>
        obtain ⟨r, plan, began, tasks, task, -, -, -, -, -, hnext⟩ := finishTask_eq_some taken
        cases hnext
        exact quiet (by simp) (by simp) ⟨rfl, rfl⟩
    | loseTask id domain =>
        obtain ⟨r, plan, began, tasks, task, -, -, -, -, hnext⟩ := loseTask_eq_some taken
        cases hnext
        exact quiet (by simp) (by simp) ⟨rfl, rfl⟩
    | close id now => exact notes_close taken d
    | dropRound id =>
        cases (step_dropRound_eq_some taken).2
        exact quiet (by simp) (by simp) ⟨rfl, rfl⟩
    | _ => contradiction

/-! ## Scenarios with one domain -/

def planOf (name domain : String) : Plan :=
  .ofLevels name "inline" (.ofList [("kpi", { freq := "1s", collect := .ofList [(domain, {})] })])

def goingLive (id : Nat) (plan : Plan) : List EngineAction :=
  [.beginPrepare plan false, .pinged id .answered, .copyLive id, .visit id .created false,
    .collectorPrepared id (.prepared false), .conclude id, .swap id .all, .cleanUp id none, .prune id]

def roundOf (id : Nat) (domain : String) (result : CollectResult) : List EngineAction :=
  [.beginCollect "kpi", .enter id .epoch, .startTask id domain, .finishTask id domain result,
    .close id .epoch]

end Engine

end Cadence
