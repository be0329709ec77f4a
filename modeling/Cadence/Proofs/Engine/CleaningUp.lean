import Cadence.Proofs.Engine.Errors

/-!
# What a replaced plan leaves behind

A collector may leave something to be done once the plan it prepares for is
replaced.  What the collectors of a preparation have left waits in the live state
for as long as their plan is live, and the preparation that replaces it runs it,
in the order of the domains, after its swap.  The steps of the engine say which
preparations have gone live one after the other and what was returned to each, so
what is run, by whom and how often can be read off them, however many
preparations are under way and however they end.
-/

namespace Cadence

/-- Whether something is returned for later, passed on or run. -/
def EngineAction.concernsCleanups : EngineAction → Bool
  | collectorPrepared _ (.prepared _) | swap _ .all | cleanUp .. => true
  | _ => false

def EngineAction.cleansUp? : EngineAction → Option Nat
  | cleanUp id _ => some id
  | _ => none

def EngineEvent.cleanup? : EngineEvent → Option Cleanup
  | cleaning cleanup => some cleanup
  | _ => none

/-- What is left to be done by the collector that is asked to prepare. -/
def Preparation.asked? (p : Preparation) : Option Cleanup :=
  match p.stage with
  | .preparing domain _ _ => some ⟨domain, p.plan.name⟩
  | _ => none

namespace Engine

abbrev History := List (Step Engine EngineAction EngineEvent)

def cleaned (events : List EngineEvent) : List Cleanup := events.filterMap EngineEvent.cleanup?

/-- What a collector returns to the preparation numbered `id` with a step. -/
def returnedIn? (id : Nat) (x : Step Engine EngineAction EngineEvent) : Option Cleanup :=
  match x.action with
  | .collectorPrepared k (.prepared true) =>
      if k = id then (x.before.preparations.get? id).bind Preparation.asked? else none
  | _ => none

/-- What the collectors have returned to the preparation numbered `id`. -/
def returned (history : History) (id : Nat) : List Cleanup := history.filterMap (returnedIn? id)

/-- The preparations that have replaced the live state, the latest last. -/
def swaps (history : History) : List Nat := history.filterMap (·.action.swapped?)

/-- The preparations that have run, or begun to run, what was left behind for them. -/
def cleanUps (history : History) : List Nat := history.filterMap (·.action.cleansUp?)

/-- The one before `id` in a list. -/
def previous? (ids : List Nat) (id : Nat) : Option Nat := (ids.takeWhile (· ≠ id)).getLast?

/-- What was returned to whoever went live right before the preparation numbered `id`. -/
def leftFor (history : History) (id : Nat) : List Cleanup :=
  (previous? (swaps history) id).elim [] (returned history)

/-- What was returned to whoever has gone live last. -/
def leftByLive (history : History) : List Cleanup :=
  (swaps history).getLast?.elim [] (returned history)

variable {e e' : Engine} {id k : Nat} {action : EngineAction} {events : List EngineEvent}
variable {history : History} {x : Step Engine EngineAction EngineEvent}

/-! ## The lists that the steps make up -/

theorem returned_snoc (history : History) (x : Step Engine EngineAction EngineEvent) (id : Nat) :
    returned (history ++ [x]) id = returned history id ++ (returnedIn? id x).toList := by
  rw [returned, List.filterMap_append]
  cases h : returnedIn? id x <;> simp [h, returned]

theorem swaps_snoc (history : History) (x : Step Engine EngineAction EngineEvent) :
    swaps (history ++ [x]) = swaps history ++ x.action.swapped?.toList := by
  rw [swaps, List.filterMap_append]
  cases h : x.action.swapped? <;> simp [h, swaps]

theorem cleanUps_snoc (history : History) (x : Step Engine EngineAction EngineEvent) :
    cleanUps (history ++ [x]) = cleanUps history ++ x.action.cleansUp?.toList := by
  rw [cleanUps, List.filterMap_append]
  cases h : x.action.cleansUp? <;> simp [h, cleanUps]

theorem returnedIn?_of_quiet (quiet : x.action.concernsCleanups = false) (id : Nat) :
    returnedIn? id x = none := by
  unfold returnedIn?
  split
  · next haction =>
      rw [haction] at quiet
      contradiction
  · rfl

theorem swapped?_of_quiet (quiet : action.concernsCleanups = false) : action.swapped? = none := by
  unfold EngineAction.swapped?
  split
  · contradiction
  · rfl

theorem cleansUp?_of_quiet (quiet : action.concernsCleanups = false) : action.cleansUp? = none := by
  unfold EngineAction.cleansUp?
  split
  · contradiction
  · rfl

theorem previous?_split {pre post : List Nat} (hnew : id ∉ pre) :
    previous? (pre ++ id :: post) id = pre.getLast? := by
  have hall : ∀ k ∈ pre, decide (k ≠ id) = true := by
    intro k hk
    simpa using fun h : k = id => hnew (h ▸ hk)
  rw [previous?, List.takeWhile_append_of_pos hall]
  simp

theorem previous?_append_of_mem {ids : List Nat} (more : List Nat) (hmem : id ∈ ids) :
    previous? (ids ++ more) id = previous? ids id := by
  obtain ⟨pre, post, rfl, hnew⟩ := List.eq_append_cons_of_mem hmem
  rw [List.append_assoc, List.cons_append, previous?_split hnew, previous?_split hnew]

theorem mem_of_previous? {ids : List Nat} (h : previous? ids id = some k) : k ∈ ids :=
  (List.takeWhile_prefix _).subset (List.mem_of_getLast? h)

theorem split_of_previous? {ids : List Nat} (hmem : id ∈ ids) (h : previous? ids id = some k) :
    ∃ pre post, ids = pre ++ k :: id :: post := by
  obtain ⟨pre, post, rfl, hnew⟩ := List.eq_append_cons_of_mem hmem
  rw [previous?_split hnew] at h
  obtain ⟨pre, rfl⟩ := List.getLast?_eq_some_iff.1 h
  exact ⟨pre, post, by simp⟩

theorem eq_of_previous? {ids : List Nat} {id' : Nat} (distinct : ids.Nodup) (hid : id ∈ ids)
    (hid' : id' ∈ ids) (h : previous? ids id = some k) (h' : previous? ids id' = some k) :
    id = id' := by
  obtain ⟨pre, post, rfl⟩ := split_of_previous? hid h
  obtain ⟨pre', post', hsplit⟩ := split_of_previous? hid' h'
  have hk : k ∉ pre ∧ k ∉ id :: post := by
    obtain ⟨-, hrest, hapart⟩ := List.nodup_append.1 distinct
    exact ⟨fun hk => hapart k hk k List.mem_cons_self rfl, (List.nodup_cons.1 hrest).1⟩
  obtain ⟨-, -, hrest⟩ := (List.append_cons_inj_of_notMem hk.1 hk.2).1 hsplit
  exact (List.cons.inj hrest).1

theorem previous?_ne_getLast? {ids : List Nat} (distinct : ids.Nodup) (hid : id ∈ ids)
    (h : previous? ids id = some k) : ids.getLast? ≠ some k := by
  obtain ⟨pre, post, rfl⟩ := split_of_previous? hid h
  obtain ⟨-, hrest, -⟩ := List.nodup_append.1 distinct
  intro hlast
  rw [List.getLast?_append_cons, List.getLast?_cons_cons] at hlast
  exact (List.nodup_cons.1 hrest).1 (List.mem_of_getLast? hlast)

/-! ## What a step does with what is left behind -/

/-- A step, as far as it concerns preparations and what is left behind. -/
inductive Handles (e e' : Engine) : EngineAction → List EngineEvent → Prop
  | aside {action : EngineAction} {events : List EngineEvent} :
      action.concernsCleanups = false → cleaned events = [] → e.nextId ≤ e'.nextId →
      e'.live = e.live → e'.preparations = e.preparations → Handles e e' action events
  | begins {plan : Plan} {cancelled : Bool} : e'.nextId = e.nextId + 1 → e'.live = e.live →
      e'.preparations = e.preparations.insert e.nextId { plan, cancelled } →
      Handles e e' (.beginPrepare plan cancelled) []
  | goesOn {action : EngineAction} {events : List EngineEvent} {id : Nat} {p p' : Preparation} :
      action.concernsCleanups = false → cleaned events = [] → Steady e e' →
      e.preparations.get? id = some p → e'.preparations = e.preparations.insert id p' →
      p'.plan = p.plan → p'.cleanups = p.cleanups → p'.ahead = p.ahead →
      (p'.stage = p.stage ∨ p'.stage.isSwapped = false ∧ p.stage.isSwapped = false) →
      Handles e e' action events
  | returns {id : Nat} {p : Preparation} {domain : String} {collector : Nat} {rest : List String}
      {cleanup : Bool} : Steady e e' → e.preparations.get? id = some p →
      p.stage = .preparing domain collector rest →
      e'.preparations = e.preparations.insert id { p with
        collectors := p.collectors.insert domain collector
        cleanups := p.cleanups ++ (if cleanup then [⟨domain, p.plan.name⟩] else [])
        stage := .visiting rest } →
      Handles e e' (.collectorPrepared id (.prepared cleanup)) []
  | swaps {id : Nat} {p : Preparation} {events : List EngineEvent} : cleaned events = [] →
      Steady { e with live := .ofPlan p.plan p.collectors p.cleanups } e' →
      e.preparations.get? id = some p → p.stage = .swapping →
      e'.preparations = e.preparations.insert id { p with stage := .swapped e.live.cleanups } →
      Handles e e' (.swap id .all) events
  | cleansUp {id : Nat} {p : Preparation} {cleanups : List Cleanup} : Steady e e' →
      e.preparations.get? id = some p → p.stage = .swapped cleanups →
      e'.preparations = e.preparations.insert id { p with stage := .pruning } →
      Handles e e' (.cleanUp id none) (.after id :: cleanups.map .cleaning)
  | breaksOff {id n : Nat} {p : Preparation} {cleanups : List Cleanup} : Steady e e' →
      e.preparations.get? id = some p → p.stage = .swapped cleanups → n < cleanups.length →
      e'.preparations = e.preparations.erase id →
      Handles e e' (.cleanUp id (some n))
        (.after id :: (cleanups.take n).map .cleaning ++ [.prepared id .panicked])
  | ends {action : EngineAction} {events : List EngineEvent} {id : Nat} :
      action.concernsCleanups = false → cleaned events = [] → Steady e e' →
      e'.preparations = e.preparations.erase id → Handles e e' action events

@[simp] theorem cleaned_append (events more : List EngineEvent) :
    cleaned (events ++ more) = cleaned events ++ cleaned more :=
  List.filterMap_append

@[simp] theorem cleaned_commitEvents (collectors : Table String Nat) :
    cleaned (commitEvents collectors) = [] := by
  simp [cleaned, commitEvents, EngineEvent.cleanup?]

@[simp] theorem cleaned_cleaning (cleanups : List Cleanup) :
    cleaned (cleanups.map .cleaning) = cleanups := by
  induction cleanups with
  | nil => rfl
  | cons first rest ih => simpa [cleaned, EngineEvent.cleanup?] using ih

@[simp] theorem cleaned_requested (p : Preparation) (domain : String) :
    cleaned (requested p domain) = [] := by
  unfold requested
  split <;> rfl

theorem cleaned_of_round (hkind : action.isOfRound = true)
    (taken : e.step action = some (e', events)) : cleaned events = [] := by
  obtain rfl | ⟨id, batch, rfl⟩ := events_of_round hkind taken <;> rfl

theorem handles_of_step (taken : e.step action = some (e', events)) :
    Handles e e' action events := by
  have aside (hkind : action.isOfRound = true) : Handles e e' action events := by
    obtain ⟨hlive, hpreparations, -⟩ := round_frame hkind taken
    refine .aside ?_ (cleaned_of_round hkind taken) (nextId_le_of_step taken) hlive hpreparations
    cases action <;> first | rfl | contradiction
  cases action with
  | beginPrepare plan cancelled =>
      cases taken
      exact .begins rfl rfl rfl
  | cancel id =>
      obtain ⟨p, hp, hnext⟩ := cancelPreparation_eq_some taken
      cases hnext
      exact .goesOn rfl rfl ⟨rfl, rfl, rfl⟩ hp rfl rfl rfl rfl (.inl rfl)
  | pinged id result =>
      obtain ⟨p, attempt, hp, hstage, ⟨-, hnext⟩ | ⟨-, hnext⟩⟩ := pinged_eq_some taken <;>
        cases hnext <;>
        exact .goesOn rfl rfl ⟨rfl, rfl, rfl⟩ hp rfl rfl rfl (by simp [Preparation.ahead, hstage])
          (.inr ⟨rfl, by rw [hstage]; rfl⟩)
  | retry id =>
      obtain ⟨p, attempt, hp, hstage, hnext⟩ := retry_eq_some taken
      cases hnext
      exact .goesOn rfl rfl ⟨rfl, rfl, rfl⟩ hp rfl rfl rfl (by simp [Preparation.ahead, hstage])
        (.inr ⟨rfl, by rw [hstage]; rfl⟩)
  | noticeCancel id =>
      obtain ⟨p, -, -, -, hnext⟩ := noticeCancel_eq_some taken
      cases hnext
      exact .ends rfl rfl ⟨rfl, rfl, rfl⟩ rfl
  | copyLive id =>
      obtain ⟨p, hp, hstage, -, hnext⟩ := copyLive_eq_some taken
      cases hnext
      exact .goesOn rfl rfl ⟨rfl, rfl, rfl⟩ hp rfl rfl rfl (by simp [Preparation.ahead, hstage])
        (.inr ⟨rfl, by rw [hstage]; rfl⟩)
  | visit id creation noticed =>
      obtain ⟨p, domain, rest, made, hp, hstage, ⟨-, outcome, -, hnext⟩ | ⟨collector, -, hnext⟩⟩ :=
        visit_eq_some taken <;> cases hnext
      · exact .ends rfl (by rw [cleaned_append, cleaned_requested]; rfl) ⟨rfl, rfl, rfl⟩ rfl
      · exact .goesOn rfl (by rw [cleaned_append, cleaned_requested]; rfl) ⟨rfl, rfl, rfl⟩ hp rfl rfl rfl
          (by simp [Preparation.ahead, hstage]) (.inr ⟨rfl, by rw [hstage]; rfl⟩)
  | collectorPrepared id result =>
      obtain ⟨p, domain, collector, rest, hp, hstage, ⟨outcome, houtcome, hnext⟩ |
        ⟨cleanup, rfl, hnext⟩⟩ := collectorPrepared_eq_some taken <;> cases hnext
      · have hquiet : (EngineAction.collectorPrepared id result).concernsCleanups = false := by
          cases result with
          | prepared cleanup => simp [CollectorPrepared.outcome?] at houtcome
          | _ => rfl
        exact .ends hquiet rfl ⟨rfl, rfl, rfl⟩ rfl
      · exact .returns ⟨rfl, rfl, rfl⟩ hp hstage rfl
  | conclude id =>
      obtain ⟨p, hp, hstage, ⟨-, hnext⟩ | ⟨-, hnext⟩⟩ := conclude_eq_some taken <;> cases hnext
      · exact .ends rfl rfl ⟨rfl, rfl, rfl⟩ rfl
      · exact .goesOn rfl rfl ⟨rfl, rfl, rfl⟩ hp rfl rfl rfl (by simp [Preparation.ahead, hstage])
          (.inr ⟨rfl, by rw [hstage]; rfl⟩)
  | swap id commits =>
      cases commits with
      | all =>
          obtain ⟨p, hp, hstage, -, hnext⟩ := swap_all_eq_some taken
          cases hnext
          exact .swaps (by simp) ⟨rfl, rfl, rfl⟩ hp hstage rfl
      | only domains =>
          obtain ⟨p, done, -, -, hnext⟩ := swap_only_eq_some taken
          cases hnext
          exact .ends rfl (by rw [cleaned_append, cleaned_commitEvents]; rfl) ⟨rfl, rfl, rfl⟩ rfl
  | cleanUp id finished =>
      obtain ⟨p, cleanups, hp, hstage, ⟨rfl, hnext⟩ | ⟨n, rfl, hlt, hnext⟩⟩ :=
        cleanUp_eq_some taken <;> cases hnext
      · exact .cleansUp ⟨rfl, rfl, rfl⟩ hp hstage rfl
      · exact .breaksOff ⟨rfl, rfl, rfl⟩ hp hstage hlt rfl
  | prune id =>
      obtain ⟨p, -, -, -, hnext⟩ := prune_eq_some taken
      cases hnext
      exact .ends rfl rfl ⟨rfl, rfl, rfl⟩ rfl
  | dropPreparation id =>
      obtain ⟨p, -, -, hnext⟩ := dropPreparation_eq_some taken
      cases hnext
      exact .ends rfl rfl ⟨rfl, rfl, rfl⟩ rfl
  | _ => exact aside rfl

/-! ## What the steps so far have left behind -/

/-- What has come of one preparation so far. -/
structure Accounted (history : History) (id : Nat) (p : Preparation) : Prop where
  kept : p.cleanups = returned history id
  visited : ∃ visited, p.plan.domains = visited ++ p.ahead ∧
    (p.cleanups.map (·.domain)).Sublist visited
  swapped : p.stage.isSwapped = true ↔ id ∈ swaps history
  left : ∀ cleanups, p.stage = .swapped cleanups →
    cleanups = leftFor history id ∧ id ∉ cleanUps history
  pruning : p.stage = .pruning → ∃ y ∈ history, y.action = .cleanUp id none

/-- What is returned to a preparation waits with it and then in the live state, until it is run. -/
structure LeavesBehind (history : History) (e : Engine) : Prop where
  preparations : ∀ id p, e.preparations.get? id = some p → Accounted history id p
  fresh : ∀ id, e.nextId ≤ id → returned history id = [] ∧ id ∉ swaps history
  ascending : ∀ id, ((returned history id).map (·.domain)).Pairwise (· < ·)
  distinct : (swaps history).Nodup
  live : e.live.cleanups = leftByLive history
  once : (cleanUps history).Nodup
  behind : ∀ id ∈ cleanUps history, id ∈ swaps history

variable {p p' : Preparation}

/-- Nothing is returned to a preparation that has gone live. -/
theorem LeavesBehind.settled (h : LeavesBehind history x.before) (hid : id ∈ swaps history) :
    returnedIn? id x = none := by
  unfold returnedIn?
  split
  · next k haction =>
      split
      · next hk =>
          cases hp : x.before.preparations.get? id with
          | none => rfl
          | some p =>
              have hswapped := ((h.preparations id p hp).swapped).2 hid
              cases hstage : p.stage <;> simp_all [Preparation.asked?, PrepareStage.isSwapped]
      · rfl
  · rfl

theorem leftFor_snoc (settled : ∀ k ∈ swaps history, returnedIn? k x = none)
    (hid : id ∈ swaps history) : leftFor (history ++ [x]) id = leftFor history id := by
  rw [leftFor, leftFor, swaps_snoc, previous?_append_of_mem _ hid]
  cases hprevious : previous? (swaps history) id with
  | none => rfl
  | some k =>
      rw [Option.elim_some, Option.elim_some, returned_snoc, settled k (mem_of_previous? hprevious),
        Option.toList_none, List.append_nil]

theorem leftByLive_snoc (settled : ∀ k ∈ swaps history, returnedIn? k x = none)
    (hswapped : x.action.swapped? = none) : leftByLive (history ++ [x]) = leftByLive history := by
  rw [leftByLive, leftByLive, swaps_snoc, hswapped, Option.toList_none, List.append_nil]
  cases hlast : (swaps history).getLast? with
  | none => rfl
  | some k =>
      rw [Option.elim_some, Option.elim_some, returned_snoc, settled k (List.mem_of_getLast? hlast),
        Option.toList_none, List.append_nil]

/-- A step for others. -/
theorem Accounted.other (h : Accounted history id p)
    (settled : ∀ k ∈ swaps history, returnedIn? k x = none) (hreturned : returnedIn? id x = none)
    (hswapped : x.action.swapped? ≠ some id) (hcleansUp : x.action.cleansUp? ≠ some id) :
    Accounted (history ++ [x]) id p where
  kept := by rw [returned_snoc, hreturned, Option.toList_none, List.append_nil, h.kept]
  visited := h.visited
  swapped := by
    rw [swaps_snoc, List.mem_append, Option.mem_toList, h.swapped]
    exact ⟨.inl, fun hmem => hmem.resolve_right hswapped⟩
  left := by
    intro cleanups hstage
    obtain ⟨hleft, hnot⟩ := h.left cleanups hstage
    have hid : id ∈ swaps history := h.swapped.1 (by rw [hstage]; rfl)
    rw [leftFor_snoc settled hid, cleanUps_snoc, List.mem_append, Option.mem_toList]
    exact ⟨hleft, fun hmem => hmem.elim hnot hcleansUp⟩
  pruning := by
    intro hstage
    obtain ⟨y, hy, hcleanUp⟩ := h.pruning hstage
    exact ⟨y, List.mem_append_left _ hy, hcleanUp⟩

theorem Accounted.quiet (h : Accounted history id p)
    (settled : ∀ k ∈ swaps history, returnedIn? k x = none)
    (quiet : x.action.concernsCleanups = false) : Accounted (history ++ [x]) id p :=
  h.other settled (returnedIn?_of_quiet quiet id) (by simp [swapped?_of_quiet quiet])
    (by simp [cleansUp?_of_quiet quiet])

/-- A preparation that goes on towards its swap or, behind it, is left as it is. -/
theorem Accounted.congr (h : Accounted history id p) (hplan : p'.plan = p.plan)
    (hcleanups : p'.cleanups = p.cleanups) (hahead : p'.ahead = p.ahead)
    (hstage : p'.stage = p.stage ∨ p'.stage.isSwapped = false ∧ p.stage.isSwapped = false) :
    Accounted history id p' where
  kept := hcleanups ▸ h.kept
  visited := by
    rw [hplan, hcleanups, hahead]
    exact h.visited
  swapped := by
    rcases hstage with hsame | ⟨hafter, hbefore⟩
    · rw [hsame, h.swapped]
    · rw [hafter, ← hbefore, h.swapped]
  left := by
    intro cleanups hswapped
    rcases hstage with hsame | ⟨hafter, -⟩
    · exact h.left cleanups (hsame ▸ hswapped)
    · rw [hswapped] at hafter
      contradiction
  pruning := by
    intro hpruning
    rcases hstage with hsame | ⟨hafter, -⟩
    · exact h.pruning (hsame ▸ hpruning)
    · rw [hpruning] at hafter
      contradiction

/-- A step that concerns nothing left behind. -/
theorem LeavesBehind.quiet (h : LeavesBehind history x.before)
    (quiet : x.action.concernsCleanups = false) (hnext : x.before.nextId ≤ x.after.nextId)
    (hlive : x.after.live = x.before.live)
    (preparations : ∀ id p, x.after.preparations.get? id = some p →
      Accounted (history ++ [x]) id p) : LeavesBehind (history ++ [x]) x.after where
  preparations := preparations
  fresh := by
    intro id hid
    rw [returned_snoc, swaps_snoc, returnedIn?_of_quiet quiet, swapped?_of_quiet quiet]
    simpa using h.fresh id (Nat.le_trans hnext hid)
  ascending := by
    intro id
    rw [returned_snoc, returnedIn?_of_quiet quiet]
    simpa using h.ascending id
  distinct := by
    rw [swaps_snoc, swapped?_of_quiet quiet]
    simpa using h.distinct
  live := by
    rw [hlive, leftByLive_snoc (fun k => h.settled) (swapped?_of_quiet quiet), h.live]
  once := by
    rw [cleanUps_snoc, cleansUp?_of_quiet quiet]
    simpa using h.once
  behind := by
    rw [cleanUps_snoc, swaps_snoc, cleansUp?_of_quiet quiet, swapped?_of_quiet quiet]
    simpa using h.behind

theorem Accounted.ascending (h : Accounted history id p) :
    ((returned history id).map (·.domain)).Pairwise (· < ·) := by
  obtain ⟨visited, hdomains, hsublist⟩ := h.visited
  have hall : (visited ++ p.ahead).Pairwise (· < ·) := hdomains ▸ Table.pairwise_keys _
  rw [← h.kept]
  exact (List.pairwise_append.1 hall).1.sublist hsublist

theorem accounted_insert {history : History} (hnext : e'.preparations = e.preparations.insert id p')
    (own : Accounted history id p')
    (others : ∀ k p, k ≠ id → e.preparations.get? k = some p → Accounted history k p) :
    ∀ k p, e'.preparations.get? k = some p → Accounted history k p := by
  intro k p hp
  rw [hnext, Table.get?_insert] at hp
  split at hp
  · next hk =>
      obtain rfl := Option.some.inj hp
      exact hk ▸ own
  · next hk => exact others k p hk hp

theorem returnedIn?_of_ne {cleanup : Bool}
    (haction : x.action = .collectorPrepared id (.prepared cleanup)) (hk : k ≠ id) :
    returnedIn? k x = none := by
  rw [returnedIn?, haction]
  cases cleanup with
  | true => exact if_neg (Ne.symm hk)
  | false => rfl

theorem returnedIn?_self {cleanup : Bool} {domain : String} {collector : Nat} {rest : List String}
    (haction : x.action = .collectorPrepared id (.prepared cleanup))
    (hp : x.before.preparations.get? id = some p)
    (hstage : p.stage = .preparing domain collector rest) :
    (returnedIn? id x).toList = if cleanup then [⟨domain, p.plan.name⟩] else [] := by
  rw [returnedIn?, haction]
  cases cleanup with
  | true => simp [hp, Preparation.asked?, hstage]
  | false => rfl

theorem LeavesBehind.returning {domain : String} {collector : Nat} {rest : List String}
    {cleanup : Bool} (h : LeavesBehind history x.before)
    (haction : x.action = .collectorPrepared id (.prepared cleanup)) (same : Steady x.before x.after)
    (hp : x.before.preparations.get? id = some p) (hid : id < x.before.nextId)
    (hstage : p.stage = .preparing domain collector rest)
    (hnext : x.after.preparations = x.before.preparations.insert id { p with
      collectors := p.collectors.insert domain collector
      cleanups := p.cleanups ++ (if cleanup then [⟨domain, p.plan.name⟩] else [])
      stage := .visiting rest }) : LeavesBehind (history ++ [x]) x.after := by
  have hswapped : x.action.swapped? = none := by rw [haction]; rfl
  have hcleansUp : x.action.cleansUp? = none := by rw [haction]; rfl
  have account := h.preparations id p hp
  have hnotSwapped : id ∉ swaps history := by
    rw [← account.swapped, hstage]
    exact Bool.false_ne_true
  have own : Accounted (history ++ [x]) id { p with
      collectors := p.collectors.insert domain collector
      cleanups := p.cleanups ++ (if cleanup then [⟨domain, p.plan.name⟩] else [])
      stage := .visiting rest } := by
    refine ⟨?_, ?_, ?_, by simp, by simp⟩
    · rw [returned_snoc, returnedIn?_self haction hp hstage, account.kept]
    · obtain ⟨visited, hdomains, hsublist⟩ := account.visited
      refine ⟨visited ++ [domain], by simp [hdomains, Preparation.ahead, hstage], ?_⟩
      rw [List.map_append]
      refine hsublist.append ?_
      cases cleanup <;> simp
    · rw [swaps_snoc, hswapped]
      simpa [PrepareStage.isSwapped] using hnotSwapped
  have preparations := accounted_insert hnext own fun k q hk hq =>
    (h.preparations k q hq).other (fun k => h.settled) (returnedIn?_of_ne haction hk)
      (by simp [hswapped]) (by simp [hcleansUp])
  constructor
  · exact preparations
  · intro k hk
    rw [same.nextId] at hk
    rw [returned_snoc, returnedIn?_of_ne haction (by omega), swaps_snoc, hswapped]
    simpa using h.fresh k hk
  · intro k
    by_cases hk : k = id
    · exact hk ▸ own.ascending
    · rw [returned_snoc, returnedIn?_of_ne haction hk]
      simpa using h.ascending k
  · rw [swaps_snoc, hswapped]
    simpa using h.distinct
  · rw [same.live, h.live, leftByLive_snoc (fun k => h.settled) hswapped]
  · rw [cleanUps_snoc, hcleansUp]
    simpa using h.once
  · rw [cleanUps_snoc, swaps_snoc, hcleansUp, hswapped]
    simpa using h.behind

theorem LeavesBehind.swapping (h : LeavesBehind history x.before) (haction : x.action = .swap id .all)
    (same : Steady { x.before with live := .ofPlan p.plan p.collectors p.cleanups } x.after)
    (hp : x.before.preparations.get? id = some p) (hid : id < x.before.nextId)
    (hstage : p.stage = .swapping)
    (hnext : x.after.preparations = x.before.preparations.insert id
      { p with stage := .swapped x.before.live.cleanups }) :
    LeavesBehind (history ++ [x]) x.after := by
  have hreturned : ∀ k, returnedIn? k x = none := by
    intro k
    rw [returnedIn?, haction]
  have hswaps : swaps (history ++ [x]) = swaps history ++ [id] := by
    rw [swaps_snoc, haction]
    rfl
  have hcleanUps : cleanUps (history ++ [x]) = cleanUps history := by
    rw [cleanUps_snoc, haction]
    simp [EngineAction.cleansUp?]
  have hsame : returned (history ++ [x]) = returned history := by
    funext k
    rw [returned_snoc, hreturned, Option.toList_none, List.append_nil]
  have account := h.preparations id p hp
  have hnew : id ∉ swaps history := by
    rw [← account.swapped, hstage]
    exact Bool.false_ne_true
  have hleft : leftFor (history ++ [x]) id = leftByLive history := by
    rw [leftFor, hswaps, hsame, previous?_split hnew, leftByLive]
  have own : Accounted (history ++ [x]) id
      { p with stage := .swapped x.before.live.cleanups } := by
    refine ⟨by rw [hsame, account.kept], ?_, by simp [hswaps, PrepareStage.isSwapped], ?_, by simp⟩
    · obtain ⟨visited, hdomains, hsublist⟩ := account.visited
      exact ⟨visited, by simpa [Preparation.ahead, hstage] using hdomains, hsublist⟩
    · intro cleanups hcleanups
      rw [hleft, ← h.live, hcleanUps]
      exact ⟨(PrepareStage.swapped.inj hcleanups).symm, fun hmem => hnew (h.behind id hmem)⟩
  constructor
  · refine accounted_insert hnext own fun k q hk hq => ?_
    refine (h.preparations k q hq).other (fun k => h.settled) (hreturned k) ?_ ?_
    · simpa [haction, EngineAction.swapped?] using Ne.symm hk
    · simp [haction, EngineAction.cleansUp?]
  · intro k hk
    have hk : x.before.nextId ≤ k := same.nextId ▸ hk
    rw [hsame, hswaps, List.mem_append, List.mem_singleton]
    exact ⟨(h.fresh k hk).1, fun hmem => hmem.elim (h.fresh k hk).2 (by omega)⟩
  · rw [hsame]
    exact h.ascending
  · rw [hswaps, List.nodup_append]
    refine ⟨h.distinct, List.pairwise_singleton _ _, fun a ha b hb => ?_⟩
    rw [List.mem_singleton.1 hb]
    exact fun heq => hnew (heq ▸ ha)
  · rw [same.live, leftByLive, hswaps, List.getLast?_concat, Option.elim_some, hsame,
      ← account.kept]
    rfl
  · rw [hcleanUps]
    exact h.once
  · rw [hcleanUps, hswaps]
    exact fun k hk => List.mem_append_left _ (h.behind k hk)

/-- What was left behind is run, to its end or not. -/
theorem LeavesBehind.cleaningUp {cleanups : List Cleanup} {finished : Option Nat}
    (h : LeavesBehind history x.before) (haction : x.action = .cleanUp id finished)
    (same : Steady x.before x.after) (hp : x.before.preparations.get? id = some p)
    (hstage : p.stage = .swapped cleanups)
    (preparations : ∀ k q, x.after.preparations.get? k = some q → k ≠ id →
      x.before.preparations.get? k = some q)
    (own : ∀ q, x.after.preparations.get? id = some q →
      q = { p with stage := .pruning } ∧ finished = none) :
    LeavesBehind (history ++ [x]) x.after := by
  have hreturned : ∀ k, returnedIn? k x = none := by
    intro k
    rw [returnedIn?, haction]
  have hswapped : x.action.swapped? = none := by rw [haction]; rfl
  have hsame : returned (history ++ [x]) = returned history := by
    funext k
    rw [returned_snoc, hreturned, Option.toList_none, List.append_nil]
  have hswaps : swaps (history ++ [x]) = swaps history := by
    rw [swaps_snoc, hswapped, Option.toList_none, List.append_nil]
  have hcleanUps : cleanUps (history ++ [x]) = cleanUps history ++ [id] := by
    rw [cleanUps_snoc, haction]
    rfl
  have account := h.preparations id p hp
  have hgone : id ∈ swaps history := account.swapped.1 (by rw [hstage]; rfl)
  constructor
  · intro k q hq
    by_cases hk : k = id
    · subst hk
      obtain ⟨rfl, rfl⟩ := own q hq
      refine ⟨by rw [hsame, account.kept], ?_, by simpa [hswaps, PrepareStage.isSwapped],
        by simp, fun _ => ⟨x, by simp, haction⟩⟩
      obtain ⟨visited, hdomains, hsublist⟩ := account.visited
      exact ⟨visited, by simpa [Preparation.ahead, hstage] using hdomains, hsublist⟩
    · refine (h.preparations k q (preparations k q hq hk)).other (fun k => h.settled) (hreturned k)
        (by simp [hswapped]) ?_
      simpa [haction, EngineAction.cleansUp?] using Ne.symm hk
  · intro k hk
    rw [same.nextId] at hk
    rw [hsame, hswaps]
    exact h.fresh k hk
  · rw [hsame]
    exact h.ascending
  · rw [hswaps]
    exact h.distinct
  · rw [same.live, h.live, leftByLive_snoc (fun k => h.settled) hswapped]
  · have hnew : id ∉ cleanUps history := (account.left cleanups hstage).2
    rw [hcleanUps, List.nodup_append]
    refine ⟨h.once, List.pairwise_singleton _ _, fun a ha b hb => ?_⟩
    rw [List.mem_singleton.1 hb]
    exact fun heq => hnew (heq ▸ ha)
  · rw [hcleanUps, hswaps]
    intro k hk
    rcases List.mem_append.1 hk with hk | hk
    · exact h.behind k hk
    · exact List.mem_singleton.1 hk ▸ hgone

theorem LeavesBehind.step (h : LeavesBehind history x.before) (numbered : x.before.Numbered)
    (taken : x.before.step x.action = some (x.after, x.events)) :
    LeavesBehind (history ++ [x]) x.after := by
  have handles := handles_of_step taken
  have others (quiet : x.action.concernsCleanups = false) :
      ∀ k q, x.before.preparations.get? k = some q → Accounted (history ++ [x]) k q :=
    fun k q hq => (h.preparations k q hq).quiet (fun k => h.settled) quiet
  generalize haction : x.action = action, hevents : x.events = events at handles
  cases handles with
  | aside quiet _ hnext hlive hpreparations =>
      rw [← haction] at quiet
      exact h.quiet quiet hnext hlive (hpreparations ▸ others quiet)
  | @begins plan cancelled hnextId hlive hnext =>
      have quiet : x.action.concernsCleanups = false := by rw [haction]; rfl
      refine h.quiet quiet (by omega) hlive (accounted_insert hnext ?_ fun k q _ => others quiet k q)
      obtain ⟨hreturned, hswapped⟩ := h.fresh _ (Nat.le_refl _)
      have fresh : Accounted history x.before.nextId { plan, cancelled } :=
        ⟨hreturned.symm, ⟨[], rfl, .slnil⟩, by simpa [PrepareStage.isSwapped] using hswapped,
          by simp, by simp⟩
      exact fresh.quiet (fun k => h.settled) quiet
  | @goesOn _ _ id p p' quiet _ same hp hnext hplan hcleanups hahead hstage =>
      rw [← haction] at quiet
      refine h.quiet quiet (Nat.le_of_eq same.nextId.symm) same.live
        (accounted_insert hnext ?_ fun k q _ => others quiet k q)
      exact (others quiet id p hp).congr hplan hcleanups hahead hstage
  | returns same hp hstage hnext =>
      exact h.returning haction same hp (numbered.preparations _ _ hp) hstage hnext
  | swaps _ same hp hstage hnext =>
      exact h.swapping haction same hp (numbered.preparations _ _ hp) hstage hnext
  | @cleansUp id p cleanups same hp hstage hnext =>
      refine h.cleaningUp haction same hp hstage (fun k q hq hk => ?_) fun q hq => ?_
      · rwa [hnext, Table.get?_insert, if_neg hk] at hq
      · rw [hnext, Table.get?_insert_self] at hq
        exact ⟨(Option.some.inj hq).symm, rfl⟩
  | @breaksOff id n p cleanups same hp hstage _ hnext =>
      refine h.cleaningUp haction same hp hstage (fun k q hq hk => ?_) fun q hq => ?_
      · exact Table.get?_of_get?_erase (hnext ▸ hq)
      · rw [hnext, Table.get?_erase, if_pos rfl] at hq
        contradiction
  | ends quiet _ same hnext =>
      rw [← haction] at quiet
      refine h.quiet quiet (Nat.le_of_eq same.nextId.symm) same.live fun k q hq => ?_
      exact others quiet k q (Table.get?_of_get?_erase (hnext ▸ hq))

theorem leavesBehind_of_run {settings : EngineSettings} {board : Board} {last : Engine}
    (run : Run step (create settings board) history last) : LeavesBehind history last := by
  induction run with
  | nil =>
      refine ⟨by simp [create, say], by simp [returned, swaps], by simp [returned], .nil, rfl,
        .nil, by simp [cleanUps]⟩
  | snoc run taken ih => exact ih.step (x := ⟨_, _, _, _⟩) (numbered_of_run run) taken

/-! ## Runs -/

variable {settings : EngineSettings} {board : Board} {last : Engine} {earlier later : History}

theorem returned_of_swapped (run : Run step (create settings board) (earlier ++ later) last)
    (hid : id ∈ swaps earlier) : returned (earlier ++ later) id = returned earlier id := by
  induction later using List.reverseRecOn generalizing last with
  | nil => rw [List.append_nil]
  | append_singleton later x ih =>
      rw [← List.append_assoc] at run ⊢
      obtain ⟨before, -, -⟩ := Run.snoc_iff.1 run
      have hmem : id ∈ swaps (earlier ++ later) := by
        rw [swaps, List.filterMap_append]
        exact List.mem_append_left _ hid
      rw [returned_snoc, (leavesBehind_of_run before).settled hmem, ih before, Option.toList_none,
        List.append_nil]

theorem leftFor_of_swapped (run : Run step (create settings board) (earlier ++ later) last)
    (hid : id ∈ swaps earlier) : leftFor (earlier ++ later) id = leftFor earlier id := by
  have hswaps : swaps (earlier ++ later) = swaps earlier ++ swaps later := List.filterMap_append
  rw [leftFor, leftFor, hswaps, previous?_append_of_mem _ hid]
  cases hprevious : previous? (swaps earlier) id with
  | none => rfl
  | some k => exact returned_of_swapped run (mem_of_previous? hprevious)

theorem plan_of_handles (handles : Handles e e' action events) :
    e'.live.plan = action.swapped?.elim e.live.plan
      (fun id => (e.preparations.get? id).map (·.plan)) := by
  cases handles with
  | aside quiet _ _ hlive => rw [swapped?_of_quiet quiet, hlive, Option.elim_none]
  | begins _ hlive => rw [hlive]; rfl
  | goesOn quiet _ same => rw [swapped?_of_quiet quiet, same.live, Option.elim_none]
  | returns same => rw [same.live]; rfl
  | swaps _ same hp => simp [same.live, EngineAction.swapped?, hp, LiveState.ofPlan]
  | cleansUp same => rw [same.live]; rfl
  | breaksOff same => rw [same.live]; rfl
  | ends quiet _ same => rw [swapped?_of_quiet quiet, same.live, Option.elim_none]

theorem cleaned_of_handles (handles : Handles e e' action events)
    (hother : action.cleansUp? = none) : cleaned events = [] := by
  cases handles with
  | cleansUp => contradiction
  | breaksOff => contradiction
  | begins => rfl
  | returns => rfl
  | aside _ hnone => exact hnone
  | goesOn _ hnone => exact hnone
  | swaps hnone => exact hnone
  | ends _ hnone => exact hnone

/-- Every plan that is replaced has what its collectors have returned run once, in the order of
their domains, by the preparation that has replaced it, behind the swap; if a cleanup panics it is
broken off there.  Whoever is ready has come so far, and until then, whatever else fails or is given
up, it waits in the live state. -/
theorem cleaned_up_once (run : Run step (create settings board) history last) :
    last.live.cleanups = leftByLive history ∧ (swaps history).Nodup ∧ (cleanUps history).Nodup ∧
      (∀ id, ((returned history id).map (·.domain)).Pairwise (· < ·)) ∧
      (∀ id ∈ swaps history, ∀ id' ∈ swaps history, ∀ k, previous? (swaps history) id = some k →
        previous? (swaps history) id' = some k → id = id') ∧
      ∀ earlier x later, history = earlier ++ x :: later →
        x.after.live.plan = x.action.swapped?.elim x.before.live.plan
          (fun id => (x.before.preparations.get? id).map (·.plan)) ∧
        (x.action.cleansUp? = none → cleaned x.events = []) ∧
        (∀ id finished, x.action = .cleanUp id finished →
          id ∈ swaps earlier ∧
          (∀ k, previous? (swaps history) id = some k → (swaps earlier).getLast? ≠ some k) ∧
          x.events.head? = some (.after id) ∧
          cleaned x.events =
            (leftFor history id).take (finished.getD (leftFor history id).length)) ∧
        ∀ id, .prepared id .ready ∈ x.events → ∃ y ∈ earlier, y.action = .cleanUp id none := by
  have h := leavesBehind_of_run run
  refine ⟨h.live, h.distinct, h.once, h.ascending,
    fun id hid id' hid' k => eq_of_previous? h.distinct hid hid', ?_⟩
  rintro earlier x later rfl
  obtain ⟨before, taken, -⟩ := run.taken
  have hbefore := leavesBehind_of_run before
  have handles := handles_of_step taken
  refine ⟨plan_of_handles handles, cleaned_of_handles handles, fun id finished haction => ?_,
    fun id hready => ?_⟩
  · rw [haction] at taken
    obtain ⟨p, cleanups, hp, hstage, hends⟩ := cleanUp_eq_some taken
    have hid : id ∈ swaps earlier :=
      (hbefore.preparations id p hp).swapped.1 (by rw [hstage]; rfl)
    have hleft : cleanups = leftFor (earlier ++ x :: later) id := by
      rw [leftFor_of_swapped run hid]
      exact ((hbefore.preparations id p hp).left cleanups hstage).1
    have hswaps : swaps (earlier ++ x :: later) = swaps earlier ++ swaps (x :: later) :=
      List.filterMap_append
    rw [hswaps, previous?_append_of_mem _ hid, ← hleft]
    refine ⟨hid, fun k => previous?_ne_getLast? hbefore.distinct hid, ?_⟩
    rcases hends with ⟨rfl, hnext⟩ | ⟨n, rfl, -, hnext⟩
    · obtain ⟨-, hevents⟩ := Prod.mk.inj hnext
      rw [hevents]
      refine ⟨rfl, ?_⟩
      rw [Option.getD_none, List.take_length]
      exact cleaned_cleaning cleanups
    · obtain ⟨-, hevents⟩ := Prod.mk.inj hnext
      rw [hevents]
      refine ⟨rfl, ?_⟩
      rw [cleaned_append, Option.getD_some]
      exact (List.append_nil _).trans (cleaned_cleaning (cleanups.take n))
  · have prepares := prepares_of_mem taken hready rfl (by simp)
    rw [← mem_signals rfl] at hready
    generalize signals x.events = raised at prepares hready
    generalize x.action = action at prepares
    cases prepares with
    | ends _ hp hends =>
        obtain ⟨rfl, rfl⟩ := EngineEvent.prepared.inj (List.mem_singleton.1 hready)
        exact (hbefore.preparations _ _ hp).pruning hends.was_pruning
    | _ => simp at hready

/-- The second plan is refused, the third replaces the first one. -/
def runOfReplacement : History × Engine :=
  Run.follow step (create {} ∅)
    [.beginPrepare (onePlan "a" "usage") false, .pinged 0 .answered, .copyLive 0,
      .visit 0 .created false, .collectorPrepared 0 (.prepared true), .conclude 0, .swap 0 .all,
      .cleanUp 0 none, .prune 0,
      .beginPrepare (onePlan "b" "load") false, .pinged 1 .answered, .copyLive 1,
      .visit 1 .created false, .collectorPrepared 1 (.failed ["refused"]),
      .beginPrepare (onePlan "c" "steal") false, .pinged 2 .answered, .copyLive 2,
      .visit 2 .created false, .collectorPrepared 2 (.prepared true), .conclude 2, .swap 2 .all,
      .cleanUp 2 none, .prune 2]

private theorem length_runOfReplacement : 21 < runOfReplacement.1.length := by
  decide +kernel

theorem cleaned_up_once_refusedInBetween :
    Run step (create {} ∅) runOfReplacement.1 runOfReplacement.2 ∧
      swaps runOfReplacement.1 = [0, 2] ∧
      runOfReplacement.2.live.cleanups = [⟨"cpu", "c"⟩] ∧
      ∃ earlier x later, runOfReplacement.1 = earlier ++ x :: later ∧ x.action = .cleanUp 2 none ∧
        (swaps earlier).getLast? ≠ some 0 ∧ cleaned x.events = [⟨"cpu", "a"⟩] := by
  have hrun : Run step (create {} ∅) runOfReplacement.1 runOfReplacement.2 := Run.of_follow ..
  have hsplit : runOfReplacement.1 = runOfReplacement.1.take 21 ++
      runOfReplacement.1.get ⟨21, length_runOfReplacement⟩ :: runOfReplacement.1.drop 22 := by
    rw [List.get_eq_getElem, ← List.drop_eq_getElem_cons, List.take_append_drop]
  have haction : (runOfReplacement.1.get ⟨21, length_runOfReplacement⟩).action =
      .cleanUp 2 none := by decide +kernel
  have hleft : leftFor runOfReplacement.1 2 = [⟨"cpu", "a"⟩] := by decide +kernel
  obtain ⟨hlive, -, -, -, -, hsteps⟩ := cleaned_up_once hrun
  obtain ⟨-, -, hcleanUp, -⟩ := hsteps _ _ _ hsplit
  obtain ⟨-, hreplaced, -, hcleaned⟩ := hcleanUp 2 none haction
  refine ⟨hrun, by decide +kernel, ?_, _, _, _, hsplit, haction,
    hreplaced 0 (by decide +kernel), ?_⟩
  · rw [hlive]
    decide +kernel
  · rw [hcleaned, hleft]
    rfl

end Engine

end Cadence
