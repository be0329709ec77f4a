import Cadence.Proofs.Engine.CleaningUp
import Cadence.Proofs.Engine.FailedPreparations

/-!
# One collector for each domain

A preparation passes through the domains of its plan in ascending order.  It
takes the live collector of a domain and has one made if there is none, and what
it has at the end is what rounds work with from then on.  With preparations one
after the other nobody else replaces the live state meanwhile.  So a domain keeps
its collector for as long as it stays live, and a collector that was made for an
attempt that failed never comes into use.
-/

namespace Cadence

namespace PrepareStage

/-- The domain that the preparation is about to turn to. -/
def next? : PrepareStage → Option String
  | visiting (domain :: _) => some domain
  | _ => none

/-- The domains that the preparation has still to turn to, once it has looked at the live
collectors. -/
def rest? : PrepareStage → Option (List String)
  | connecting _ | retrying _ | copying => none
  | visiting rest | preparing _ _ rest => some rest
  | swapping | swapped _ | pruning => some []

end PrepareStage

def EngineAction.visits? : EngineAction → Option Nat
  | visit id .. => some id
  | _ => none

def EngineEvent.created? : EngineEvent → Option String
  | creating domain => some domain
  | _ => none

namespace Engine

/-- The domains that the registry is asked for collectors of. -/
def created (events : List EngineEvent) : List String := events.filterMap EngineEvent.created?

/-- The domain that a preparation turns to with a step. -/
def visited? (x : Step Engine EngineAction EngineEvent) : Option String :=
  x.action.visits?.bind fun id => (x.before.preparations.get? id).bind (·.stage.next?)

/-- The domains that the preparation numbered `id` has turned to, the latest last. -/
def visits (history : History) (id : Nat) : List String :=
  (history.filter (·.action.visits? = some id)).filterMap visited?

variable {e e' : Engine} {id k : Nat} {action : EngineAction} {events : List EngineEvent}
variable {history : History} {x start : Step Engine EngineAction EngineEvent} {p : Preparation}
variable {live : LiveState} {plan : Plan} {d : String} {c : Nat}

/-- The collector of a domain was live when the preparation began or, if none was, has been made for
the preparation. -/
def Sourced (history : History) (start : Step Engine EngineAction EngineEvent) (d : String)
    (c : Nat) : Prop :=
  start.before.live.collectors.get? d = some c ∨
    start.before.live.collectors.get? d = none ∧ ∃ y ∈ history,
      y.action.visits? = some start.before.nextId ∧ created y.events = [d] ∧
        y.before.nextCollector = c ∧ y.after.nextCollector = c + 1

theorem Sourced.append (h : Sourced history start d c) (more : History) :
    Sourced (history ++ more) start d c := by
  apply h.imp_right
  rintro ⟨hnone, y, hy, hmade⟩
  exact ⟨hnone, y, List.mem_append_left _ hy, hmade⟩

theorem visits_append (history more : History) (id : Nat) :
    visits (history ++ more) id = visits history id ++ visits more id := by
  rw [visits, List.filter_append, List.filterMap_append]
  rfl

theorem visits_single (x : Step Engine EngineAction EngineEvent) (id : Nat) :
    visits [x] id = if x.action.visits? = some id then (visited? x).toList else [] := by
  unfold visits
  split
  · next hid => cases h : visited? x <;> simp [hid, h]
  · next hid => simp [hid]

theorem visited?_eq {rest : List String} (hvisits : x.action.visits? = some id)
    (hp : x.before.preparations.get? id = some p) (hstage : p.stage = .visiting (d :: rest)) :
    visited? x = some d := by
  rw [visited?, hvisits, Option.bind_some, hp, Option.bind_some, hstage]
  rfl

/-! ## What a step asks the registry for -/

@[simp] theorem created_append (events more : List EngineEvent) :
    created (events ++ more) = created events ++ created more :=
  List.filterMap_append

@[simp] theorem created_commitEvents (collectors : Table String Nat) :
    created (commitEvents collectors) = [] := by
  simp [created, commitEvents, EngineEvent.created?]

@[simp] theorem created_cleaning (cleanups : List Cleanup) :
    created (cleanups.map .cleaning) = [] := by
  simp [created, EngineEvent.created?]

theorem created_requested (p : Preparation) (d : String) :
    created (requested p d) = if d ∈ p.known then [] else [d] := by
  cases h : p.known.get? d with
  | some c =>
      rw [requested, if_pos (Option.isSome_of_eq_some h), if_pos (Table.mem_iff.2 ⟨c, h⟩)]
      rfl
  | none =>
      have habsent : d ∉ p.known := by simp [Table.mem_iff, h]
      rw [requested, if_neg (Option.not_isSome_iff_eq_none.2 h), if_neg habsent]
      rfl

theorem visit_of_visits? (h : action.visits? = some id) :
    ∃ creation noticed, action = .visit id creation noticed := by
  cases action with
  | visit k creation noticed =>
      obtain rfl := Option.some.inj h
      exact ⟨creation, noticed, rfl⟩
  | _ => contradiction

theorem created_of_others (hvisits : action.visits? = none)
    (taken : e.step action = some (e', events)) : created events = [] := by
  cases action with
  | beginPrepare plan cancelled =>
      cases taken
      rfl
  | cancel id =>
      obtain ⟨p, -, hnext⟩ := cancelPreparation_eq_some taken
      cases hnext
      rfl
  | pinged id result =>
      obtain ⟨p, attempt, -, -, ⟨-, hnext⟩ | ⟨-, hnext⟩⟩ := pinged_eq_some taken <;>
        cases hnext <;> rfl
  | retry id =>
      obtain ⟨p, attempt, -, -, hnext⟩ := retry_eq_some taken
      cases hnext
      rfl
  | noticeCancel id =>
      obtain ⟨p, -, -, -, hnext⟩ := noticeCancel_eq_some taken
      cases hnext
      rfl
  | copyLive id =>
      obtain ⟨p, -, -, -, hnext⟩ := copyLive_eq_some taken
      cases hnext
      rfl
  | visit id creation noticed => contradiction
  | collectorPrepared id result =>
      obtain ⟨p, domain, collector, rest, -, -, ⟨_, -, hnext⟩ | ⟨cleanup, -, hnext⟩⟩ :=
        collectorPrepared_eq_some taken <;> cases hnext <;> rfl
  | conclude id =>
      obtain ⟨p, -, -, ⟨-, hnext⟩ | ⟨-, hnext⟩⟩ := conclude_eq_some taken <;> cases hnext <;> rfl
  | swap id commits =>
      cases commits with
      | all =>
          obtain ⟨p, -, -, -, hnext⟩ := swap_all_eq_some taken
          cases hnext
          exact created_commitEvents _
      | only domains =>
          obtain ⟨p, done, -, -, hnext⟩ := swap_only_eq_some taken
          cases hnext
          rw [created_append, created_commitEvents]
          rfl
  | cleanUp id finished =>
      obtain ⟨p, cleanups, -, -, ⟨-, hnext⟩ | ⟨n, -, -, hnext⟩⟩ := cleanUp_eq_some taken
      · cases hnext
        exact created_cleaning cleanups
      · cases hnext
        rw [created_append]
        exact congrArg (· ++ _) (created_cleaning (cleanups.take n))
  | prune id =>
      obtain ⟨p, -, -, -, hnext⟩ := prune_eq_some taken
      cases hnext
      rfl
  | dropPreparation id =>
      obtain ⟨p, -, -, hnext⟩ := dropPreparation_eq_some taken
      cases hnext
      rfl
  | _ => obtain rfl | ⟨id, batch, rfl⟩ := events_of_round rfl taken <;> rfl

/-- A collector is made for a domain that a preparation turns to and does not know. -/
theorem created_of_visit {creation : Creation} {noticed : Bool}
    (taken : e.step (.visit id creation noticed) = some (e', events)) :
    ∃ p d rest, e.preparations.get? id = some p ∧ p.stage = .visiting (d :: rest) ∧
      created events = if d ∈ p.known then [] else [d] := by
  obtain ⟨p, d, rest, made, hp, hstage, ⟨-, outcome, -, hnext⟩ | ⟨collector, -, hnext⟩⟩ :=
    visit_eq_some taken
  · cases hnext
    refine ⟨p, d, rest, hp, hstage, ?_⟩
    rw [created_append, created_requested]
    exact List.append_nil _
  · cases hnext
    refine ⟨p, d, rest, hp, hstage, ?_⟩
    rw [created_append, created_requested]
    exact List.append_nil _

theorem visit_of_fails {creation : Creation} {rest : List String}
    (hp : e.preparations.get? id = some p) (hstage : p.stage = .visiting (d :: rest))
    (hunknown : p.known.get? d = none) (hfails : creation ≠ .created) (noticed : Bool) :
    ∃ outcome, outcome ≠ .ready ∧ e.visit id creation noticed =
      some ((e.endPreparation id outcome).1, [.creating d, .prepared id outcome]) := by
  cases creation with
  | created => contradiction
  | failed chain =>
      refine ⟨.failed (.within s!"creating {d} collector" chain), by simp, ?_⟩
      simp [Engine.visit, withPreparation, hp, hstage, hunknown, endPreparation]
  | panicked =>
      refine ⟨.panicked, by simp, ?_⟩
      simp [Engine.visit, withPreparation, hp, hstage, hunknown, endPreparation]

/-- A preparation that cannot get a collector, or whose collector cannot prepare, is over. -/
theorem refused_of_fails (taken : x.before.step x.action = some (x.after, x.events))
    (hid : x.action.preparation? x.before.nextId = some id) (hfails : x.action.fails = true)
    (hcreated : ∀ d, visited? x = some d → created x.events ≠ []) :
    ∃ outcome, outcome ≠ .ready ∧ .prepared id outcome ∈ x.events := by
  cases haction : x.action with
  | visit k creation noticed =>
      rw [haction] at taken hid hfails
      obtain rfl := Option.some.inj hid
      obtain ⟨p, d, rest, hp, hstage, hmade⟩ := created_of_visit taken
      have hturned : visited? x = some d := visited?_eq (by rw [haction]; rfl) hp hstage
      have hunknown : p.known.get? d = none := by
        by_contra hknown
        have hmem : d ∈ p.known := Table.mem_iff.2 (Option.ne_none_iff_exists'.1 hknown)
        exact hcreated d hturned (by rw [hmade, if_pos hmem])
      have hfails : creation ≠ .created := by simpa [EngineAction.fails] using hfails
      obtain ⟨outcome, hready, hend⟩ := visit_of_fails hp hstage hunknown hfails noticed
      obtain ⟨-, hevents⟩ := Prod.mk.inj (Option.some.inj (taken.symm.trans hend))
      refine ⟨outcome, hready, ?_⟩
      rw [hevents]
      exact List.mem_cons_of_mem _ List.mem_cons_self
  | collectorPrepared k result =>
      rw [haction] at taken hid hfails
      obtain rfl := Option.some.inj hid
      obtain ⟨p, domain, collector, rest, -, -, ⟨outcome, houtcome, hnext⟩ | ⟨cleanup, rfl, -⟩⟩ :=
        collectorPrepared_eq_some taken
      · obtain ⟨-, hevents⟩ := Prod.mk.inj hnext
        refine ⟨outcome, ?_, by rw [hevents]; exact List.mem_singleton_self _⟩
        rintro rfl
        cases result <;> simp [CollectorPrepared.outcome?] at houtcome
      · contradiction
  | _ => simp [haction, EngineAction.fails] at hfails

/-! ## The way of a preparation -/

/-- What has come of the preparation that began with the step `start`. -/
structure Tour (history : History) (start : Step Engine EngineAction EngineEvent)
    (live : LiveState) (id : Nat) (p : Preparation) : Prop where
  started : start ∈ history
  begins : ∃ cancelled, start.action = .beginPrepare p.plan cancelled
  number : start.before.nextId = id
  visited : visits history id ++ p.stage.rest?.getD p.plan.domains = p.plan.domains
  known : ∀ rest, p.stage.rest? = some rest → p.known = start.before.live.collectors
  live : live =
    if p.stage.isSwapped then .ofPlan p.plan p.collectors p.cleanups else start.before.live
  sourced : ∀ d c, p.Holds d c → Sourced history start d c

namespace Tour

theorem snoc (h : Tour history start live id p) (hvisits : x.action.visits? ≠ some id) :
    Tour (history ++ [x]) start live id p where
  started := List.mem_append_left _ h.started
  begins := h.begins
  number := h.number
  visited := by rw [visits_append, visits_single, if_neg hvisits, List.append_nil, h.visited]
  known := h.known
  live := h.live
  sourced d c hd := (h.sourced d c hd).append [x]

theorem cancel (h : Tour history start live id p) :
    Tour history start live id { p with cancelled := true } :=
  ⟨h.started, h.begins, h.number, h.visited, h.known, h.live, h.sourced⟩

/-- The preparation goes on and turns to no domain. -/
theorem goOn (h : Tour history start live id p) {stage : PrepareStage}
    (hrest : stage.rest? = p.stage.rest?) (hswapped : stage.isSwapped = p.stage.isSwapped)
    (hstage : ∀ d c rest, stage ≠ .preparing d c rest) :
    Tour history start live id { p with stage } where
  started := h.started
  begins := h.begins
  number := h.number
  visited := by rw [hrest, h.visited]
  known rest hlooked := h.known rest (hrest ▸ hlooked)
  live := by
    rw [hswapped]
    exact h.live
  sourced d c hd := h.sourced d c (hd.of_stage hstage)

theorem live_of_open (h : Tour history start live id p) (hopen : p.stage.isSwapped = false) :
    live = start.before.live := by
  have hlive := h.live
  rwa [hopen, if_neg Bool.false_ne_true] at hlive

/-- The preparation goes on before it has replaced the live state. -/
theorem of_open (h : Tour history start live id p) (hopen : p.stage.isSwapped = false)
    {p' : Preparation} (hplan : p'.plan = p.plan)
    (hrest : p'.stage.rest?.getD p.plan.domains = p.stage.rest?.getD p.plan.domains)
    (hopen' : p'.stage.isSwapped = false) (hknown : p'.known = start.before.live.collectors)
    (holds : ∀ d c, p'.Holds d c → Sourced history start d c) : Tour history start live id p' where
  started := h.started
  begins := by
    rw [hplan]
    exact h.begins
  number := h.number
  visited := by rw [hplan, hrest, h.visited]
  known _ _ := hknown
  live := by
    rw [hopen', if_neg Bool.false_ne_true]
    exact h.live_of_open hopen
  sourced := holds

theorem look (h : Tour history start live id p) (hstage : p.stage = .copying) :
    Tour history start live id
      { p with known := live.collectors, stage := .visiting p.plan.domains } := by
  have hopen : p.stage.isSwapped = false := by rw [hstage]; rfl
  have hlive := h.live_of_open hopen
  refine h.of_open hopen rfl ?_ rfl (congrArg (·.collectors) hlive) fun d c hd => ?_
  · rw [hstage]
    rfl
  · rcases hd with hknown | hcollected | ⟨rest, hasked⟩
    · left
      rw [← hlive, ← hknown]
    · exact h.sourced d c (.inr (.inl hcollected))
    · contradiction

theorem collect (h : Tour history start live id p) {rest : List String}
    (hstage : p.stage = .preparing d c rest) (cleanups : List Cleanup) :
    Tour history start live id
      { p with collectors := p.collectors.insert d c, cleanups, stage := .visiting rest } := by
  have hopen : p.stage.isSwapped = false := by rw [hstage]; rfl
  have hrest : p.stage.rest? = some rest := by rw [hstage]; rfl
  refine h.of_open hopen rfl ?_ rfl (h.known rest hrest) fun d' c' hd => ?_
  · rw [hrest]
    rfl
  · rcases hd with hknown | hcollected | ⟨rest', hasked⟩
    · exact h.sourced d' c' (.inl hknown)
    · rw [Table.get?_insert] at hcollected
      split at hcollected
      · next hsame =>
          obtain rfl := Option.some.inj hcollected
          exact h.sourced d' c (.inr (.inr ⟨rest, hsame ▸ hstage⟩))
      · exact h.sourced d' c' (.inr (.inl hcollected))
    · contradiction

theorem swap (h : Tour history start live id p) (hstage : p.stage = .swapping)
    (cleanups : List Cleanup) :
    Tour history start (.ofPlan p.plan p.collectors p.cleanups) id
      { p with stage := .swapped cleanups } where
  started := h.started
  begins := h.begins
  number := h.number
  visited := by
    have hvisited := h.visited
    rwa [hstage] at hvisited
  known rest hrest := h.known rest (by rwa [hstage])
  live := rfl
  sourced d c hd := h.sourced d c (hd.of_stage (by simp))

/-- The preparation turns to a domain and asks the collector that it knows, or a new one. -/
theorem visit (h : Tour history start x.before.live id p) (hvisits : x.action.visits? = some id)
    {rest : List String} (hstage : p.stage = .visiting (d :: rest))
    (hp : x.before.preparations.get? id = some p)
    (hcreated : created x.events = if d ∈ p.known then [] else [d])
    (hsource : p.known.get? d = some c ∨
      p.known.get? d = none ∧ c = x.before.nextCollector ∧
        x.after.nextCollector = x.before.nextCollector + 1) :
    Tour (history ++ [x]) start x.before.live id { p with stage := .preparing d c rest } where
  started := List.mem_append_left _ h.started
  begins := h.begins
  number := h.number
  visited := by
    have hvisited := h.visited
    rw [hstage] at hvisited
    rw [visits_append, visits_single, if_pos hvisits, visited?_eq hvisits hp hstage,
      List.append_assoc]
    exact hvisited
  known _ _ := h.known (d :: rest) (by rw [hstage]; rfl)
  live := h.live_of_open (by rw [hstage]; rfl)
  sourced d' c' := by
    rintro (hknown | hcollected | ⟨rest', hasked⟩)
    · exact (h.sourced d' c' (.inl hknown)).append [x]
    · exact (h.sourced d' c' (.inr (.inl hcollected))).append [x]
    · obtain ⟨rfl, rfl, -⟩ : d = d' ∧ c = c' ∧ rest = rest' := by simpa using hasked
      rcases hsource with hknown | ⟨hunknown, rfl, hmade⟩
      · exact (h.sourced d c (.inl hknown)).append [x]
      · have habsent : d ∉ p.known := by simp [Table.mem_iff, hunknown]
        rw [if_neg habsent] at hcreated
        rw [h.known (d :: rest) (by rw [hstage]; rfl)] at hunknown
        refine .inr ⟨hunknown, x, List.mem_append_right _ List.mem_cons_self, ?_, hcreated, rfl, hmade⟩
        rw [hvisits, h.number]

end Tour

/-- Every preparation under way began with some step and has come this far since. -/
def Touring (history : History) (e : Engine) : Prop :=
  ∀ id p, e.preparations.get? id = some p → ∃ start, Tour history start e.live id p

theorem Touring.others (h : Touring history e)
    (hvisits : x.action.visits? = none ∨ x.action.visits? = some id) {k : Nat} {q : Preparation}
    (hk : k ≠ id) (hq : e.preparations.get? k = some q) :
    ∃ start, Tour (history ++ [x]) start e.live k q := by
  obtain ⟨start, tour⟩ := h k q hq
  refine ⟨start, tour.snoc ?_⟩
  rcases hvisits with hnone | hsome
  · simp [hnone]
  · simpa [hsome] using Ne.symm hk

theorem touring_insert (hnext : e'.preparations = e.preparations.insert id p)
    (hp : ∃ start, Tour history start e'.live id p)
    (others : ∀ {k q}, k ≠ id → e.preparations.get? k = some q →
      ∃ start, Tour history start e'.live k q) : Touring history e' := by
  intro k q hq
  rw [hnext, Table.get?_insert] at hq
  split at hq
  · next hk =>
      obtain rfl := Option.some.inj hq
      exact hk ▸ hp
  · next hk => exact others hk hq

/-- One preparation goes on, and the live state stays. -/
theorem Touring.goesOn {p' : Preparation} (h : Touring history e) (hvisits : x.action.visits? = none)
    (hp : e.preparations.get? id = some p) (hlive : e'.live = e.live)
    (hnext : e'.preparations = e.preparations.insert id p')
    (tour : ∀ {start}, Tour (history ++ [x]) start e.live id p →
      Tour (history ++ [x]) start e.live id p') : Touring (history ++ [x]) e' := by
  obtain ⟨start, before⟩ := h id p hp
  refine touring_insert hnext ⟨start, ?_⟩ fun hk hq => ?_
  · rw [hlive]
    exact tour (before.snoc (by simp [hvisits]))
  · rw [hlive]
    exact h.others (.inl hvisits) hk hq

theorem Touring.ends (h : Touring history e)
    (hvisits : x.action.visits? = none ∨ x.action.visits? = some id) (hlive : e'.live = e.live)
    (hnext : e'.preparations = e.preparations.erase id) : Touring (history ++ [x]) e' := by
  intro k q hq
  rw [hnext, Table.get?_erase] at hq
  split at hq
  · contradiction
  · next hk =>
      rw [hlive]
      exact h.others hvisits hk hq

theorem Touring.step (h : Touring history e) (fresh : visits history e.nextId = [])
    (alone : ∀ id id' p p', e.preparations.get? id = some p → e.preparations.get? id' = some p' →
      id = id')
    (taken : e.step action = some (e', events)) :
    Touring (history ++ [⟨e, action, e', events⟩]) e' := by
  cases action with
  | beginPrepare plan cancelled =>
      cases taken
      refine touring_insert rfl ⟨_, List.mem_append_right _ List.mem_cons_self, ⟨cancelled, rfl⟩, rfl,
        ?_, nofun, rfl, ?_⟩ (h.others (.inl rfl))
      · rw [visits_append, fresh, visits_single]
        rfl
      · rintro d c (hknown | hcollected | ⟨rest, hasked⟩) <;> contradiction
  | cancel id =>
      obtain ⟨p, hp, hnext⟩ := cancelPreparation_eq_some taken
      cases hnext
      exact h.goesOn rfl hp rfl rfl Tour.cancel
  | pinged id result =>
      obtain ⟨p, attempt, hp, hstage, ⟨-, hnext⟩ | ⟨-, hnext⟩⟩ := pinged_eq_some taken
      · cases hnext
        exact h.goesOn rfl hp rfl rfl (.goOn · (by rw [hstage]; rfl) (by rw [hstage]; rfl) nofun)
      · cases hnext
        exact h.goesOn rfl hp rfl rfl (.goOn · (by rw [hstage]; rfl) (by rw [hstage]; rfl) nofun)
  | retry id =>
      obtain ⟨p, attempt, hp, hstage, hnext⟩ := retry_eq_some taken
      cases hnext
      exact h.goesOn rfl hp rfl rfl (.goOn · (by rw [hstage]; rfl) (by rw [hstage]; rfl) nofun)
  | noticeCancel id =>
      obtain ⟨p, -, -, -, hnext⟩ := noticeCancel_eq_some taken
      cases hnext
      exact h.ends (.inl rfl) rfl rfl
  | copyLive id =>
      obtain ⟨p, hp, hstage, -, hnext⟩ := copyLive_eq_some taken
      cases hnext
      exact h.goesOn rfl hp rfl rfl (.look · hstage)
  | visit id creation noticed =>
      obtain ⟨q, d', rest', hq, hstage', hcreated⟩ := created_of_visit taken
      obtain ⟨p, d, rest, made, hp, hstage, ⟨-, outcome, -, hnext⟩ | ⟨c, hsource, hnext⟩⟩ :=
        visit_eq_some taken
      · cases hnext
        exact h.ends (.inr rfl) rfl rfl
      · obtain rfl := Option.some.inj (hp.symm.trans hq)
        obtain ⟨rfl, rfl⟩ : d = d' ∧ rest = rest' := by simpa using hstage.symm.trans hstage'
        obtain ⟨start, tour⟩ := h id p hp
        cases hnext
        refine touring_insert rfl ⟨start, tour.visit (x := ⟨e, _, _, _⟩) rfl hstage hp hcreated ?_⟩
          (h.others (.inr rfl))
        rcases hsource with ⟨hknown, -⟩ | ⟨hunknown, rfl, rfl⟩
        · exact .inl hknown
        · exact .inr ⟨hunknown, rfl, rfl⟩
  | collectorPrepared id result =>
      obtain ⟨p, domain, collector, rest, hp, hstage, ⟨_, -, hnext⟩ | ⟨cleanup, -, hnext⟩⟩ :=
        collectorPrepared_eq_some taken
      · cases hnext
        exact h.ends (.inl rfl) rfl rfl
      · cases hnext
        exact h.goesOn rfl hp rfl rfl (.collect · hstage _)
  | conclude id =>
      obtain ⟨p, hp, hstage, ⟨-, hnext⟩ | ⟨-, hnext⟩⟩ := conclude_eq_some taken
      · cases hnext
        exact h.ends (.inl rfl) rfl rfl
      · cases hnext
        exact h.goesOn rfl hp rfl rfl (.goOn · (by rw [hstage]; rfl) (by rw [hstage]; rfl) nofun)
  | swap id commits =>
      cases commits with
      | all =>
          obtain ⟨p, hp, hstage, -, hnext⟩ := swap_all_eq_some taken
          cases hnext
          obtain ⟨start, tour⟩ := h id p hp
          refine touring_insert rfl ⟨start, (tour.swap hstage _).snoc nofun⟩ fun {k q} hk hq => ?_
          -- nobody else is under way, who would have to get by with the new live state
          exact absurd (alone k id q p hq hp) hk
      | only domains =>
          obtain ⟨p, done, -, -, hnext⟩ := swap_only_eq_some taken
          cases hnext
          exact h.ends (.inl rfl) rfl rfl
  | cleanUp id finished =>
      obtain ⟨p, cleanups, hp, hstage, ⟨-, hnext⟩ | ⟨n, -, -, hnext⟩⟩ := cleanUp_eq_some taken
      · cases hnext
        exact h.goesOn rfl hp rfl rfl (.goOn · (by rw [hstage]; rfl) (by rw [hstage]; rfl) nofun)
      · cases hnext
        exact h.ends (.inl rfl) rfl rfl
  | prune id =>
      obtain ⟨p, -, -, -, hnext⟩ := prune_eq_some taken
      cases hnext
      exact h.ends (.inl rfl) rfl rfl
  | dropPreparation id =>
      obtain ⟨p, -, -, hnext⟩ := dropPreparation_eq_some taken
      cases hnext
      exact h.ends (.inl rfl) rfl rfl
  | _ =>
      obtain ⟨hlive, hpreparations, -⟩ := round_frame rfl taken
      intro k q hq
      obtain ⟨start, tour⟩ := h k q (hpreparations ▸ hq)
      rw [hlive]
      exact ⟨start, tour.snoc nofun⟩

/-! ## Runs -/

section Runs

variable {settings : EngineSettings} {board : Board} {last : Engine} {cancelled : Bool}

theorem visits_of_gone (gone : e.Gone id) (run : Run step e history last) :
    visits history id = [] := by
  have hnone : history.filter (·.action.visits? = some id) = [] := by
    rw [List.filter_eq_nil_iff]
    intro y hy hvisits
    obtain ⟨hgone, taken⟩ := run.invariant_before gone (fun taken h => h.step taken) hy
    obtain ⟨creation, noticed, haction⟩ := visit_of_visits? (of_decide_eq_true hvisits)
    rw [haction] at taken
    obtain ⟨p, -, -, hp, -⟩ := created_of_visit taken
    simp [hgone.2] at hp
  rw [visits, hnone]
  rfl

theorem visits_of_new (run : Run step (create settings board) history e) (hid : e.nextId ≤ id) :
    visits history id = [] := by
  induction run with
  | nil => rfl
  | @snoc history e e' action events run taken ih =>
      have hle := nextId_le_of_step taken
      rw [visits_append, ih (Nat.le_trans hle hid), visits_single, List.nil_append]
      split
      · next hvisits =>
          obtain ⟨creation, noticed, rfl⟩ := visit_of_visits? hvisits
          obtain ⟨p, -, -, hp, -⟩ := created_of_visit taken
          have hlt := (numbered_of_run run).preparations id p hp
          omega
      · rfl

theorem touring_of_run (run : Run step (create settings board) history e)
    (oneByOne : ∀ x ∈ history, OneByOne x) : Touring history e := by
  induction run with
  | nil => intro id p hp; simp [create, say] at hp
  | snoc run taken ih =>
      have before := fun x hx => oneByOne x (List.mem_append_left _ hx)
      exact (ih before).step (visits_of_new run (Nat.le_refl _)) (tended_of_run run before).alone taken

theorem eq_of_begins {y : Step Engine EngineAction EngineEvent} (run : Run step e history last)
    (hx : x ∈ history) (hy : y ∈ history) (hbegins : x.action.begins = true)
    (hbegins' : y.action.begins = true) (same : y.before.nextId = x.before.nextId) : y = x := by
  have grows : ∀ z ∈ history, z.action.begins = true → z.before.nextId < z.after.nextId := by
    intro z hz hbegins
    obtain ⟨pre, post, rfl⟩ := List.append_of_mem hz
    have taken := run.taken.2.1
    cases haction : z.action with
    | beginPrepare plan cancelled =>
        rw [haction] at taken
        obtain ⟨hafter, -⟩ := Prod.mk.inj (Option.some.inj taken)
        rw [← hafter]
        exact Nat.lt_succ_self _
    | _ => simp [haction, EngineAction.begins] at hbegins
  exact run.eq_of_grows nextId_le_of_step hx hy (grows x hx hbegins) (grows y hy hbegins') same

/-- The tour of a preparation is the one that began with its first step. -/
theorem tour_of_begins {pre post : History} (run : Run step (create settings board) (pre ++ post) last)
    (before : Run step (create settings board) pre e) (oneByOne : ∀ x ∈ pre, OneByOne x)
    (hstart : start ∈ pre ++ post) (hbegins : start.action = .beginPrepare plan cancelled)
    (hp : e.preparations.get? start.before.nextId = some p) :
    p.plan = plan ∧ Tour pre start e.live start.before.nextId p := by
  obtain ⟨start', tour⟩ := touring_of_run before oneByOne _ p hp
  obtain ⟨cancelled', hbegins'⟩ := tour.begins
  obtain rfl : start' = start :=
    eq_of_begins run hstart (List.mem_append_left _ tour.started) (by rw [hbegins]; rfl)
      (by rw [hbegins']; rfl) tour.number
  rw [hbegins'] at hbegins
  exact ⟨(EngineAction.beginPrepare.inj hbegins).1, tour⟩

theorem prefix_of_run (run : Run step (create settings board) history e)
    (oneByOne : ∀ x ∈ history, OneByOne x) (hstart : start ∈ history)
    (hbegins : start.action = .beginPrepare plan cancelled) :
    visits history start.before.nextId <+: plan.domains := by
  induction run with
  | nil => contradiction
  | @snoc history e e' action events run taken ih =>
      have before := fun x hx => oneByOne x (List.mem_append_left _ hx)
      rw [visits_append, visits_single]
      split
      · next hvisits =>
          obtain ⟨creation, noticed, rfl⟩ := visit_of_visits? hvisits
          obtain ⟨p, d, rest, hp, hstage, -⟩ := created_of_visit taken
          obtain ⟨rfl, tour⟩ := tour_of_begins (run.snoc taken) run before hstart hbegins hp
          refine ⟨rest, ?_⟩
          rw [← tour.visited, hstage, visited?_eq hvisits hp hstage, List.append_assoc]
          rfl
      · rw [List.append_nil]
        rcases List.mem_append.1 hstart with hstart | hstart
        · exact ih before hstart
        · obtain rfl := List.mem_singleton.1 hstart
          rw [visits_of_new run (Nat.le_refl _)]
          exact List.nil_prefix

/-- The registry is asked for a collector exactly if the domain that a preparation turns to is not
live. -/
theorem created_of_run (run : Run step (create settings board) history e)
    (oneByOne : ∀ x ∈ history, OneByOne x) (hx : x ∈ history) :
    created x.events = (visited? x).toList.filter (· ∉ x.before.live.domains) := by
  obtain ⟨pre, post, rfl⟩ := List.append_of_mem hx
  obtain ⟨before, taken, -⟩ := run.taken
  cases hvisits : x.action.visits? with
  | none => simp [created_of_others hvisits taken, visited?, hvisits]
  | some id =>
      obtain ⟨creation, noticed, haction⟩ := visit_of_visits? hvisits
      rw [haction] at taken
      obtain ⟨p, d, rest, hp, hstage, hcreated⟩ := created_of_visit taken
      obtain ⟨start, tour⟩ := touring_of_run before
        (fun y hy => oneByOne y (List.mem_append_left _ hy)) id p hp
      have hknown : p.known = x.before.live.collectors := by
        rw [tour.known (d :: rest) (by rw [hstage]; rfl),
          tour.live_of_open (by rw [hstage]; rfl)]
      have hlive := (complete_of_run before).live.collectors d
      rw [hcreated, visited?_eq hvisits hp hstage, hknown]
      by_cases hd : d ∈ x.before.live.collectors
      · simp [hd, hlive.1 hd]
      · have hgone : d ∉ x.before.live.domains := fun h => hd (hlive.2 h)
        simp [hd, hgone]

/-- What a plan works with once it is live. -/
structure Equipped (history : History) (start : Step Engine EngineAction EngineEvent) (plan : Plan)
    (live : LiveState) : Prop where
  installed : live.plan = some plan
  domains : ∀ d, d ∈ live.collectors ↔ d ∈ plan.domains
  sourced : ∀ d c, live.collectors.get? d = some c → Sourced history start d c
  levels : ∀ name d c, (live.levels.get? name).bind (·.get? d) = some c ↔
    (∃ level, plan.levelNamed? name = some level ∧ d ∈ level.collect) ∧
      live.collectors.get? d = some c

theorem Equipped.append (h : Equipped history start plan live) (more : History) :
    Equipped (history ++ more) start plan live where
  installed := h.installed
  domains := h.domains
  sourced d c hc := (h.sourced d c hc).append more
  levels := h.levels

theorem Tour.equipped (tour : Tour history start live id p) (hswapped : p.stage.isSwapped = true)
    (complete : live.Complete) : Equipped history start p.plan live := by
  have hlive := tour.live
  rw [if_pos hswapped] at hlive
  have hplan : live.plan = some p.plan := by rw [hlive]; rfl
  refine ⟨hplan, fun d => ?_, fun d c hc => ?_, fun name d c => ?_⟩
  · rw [complete.collectors, LiveState.domains, hplan]
    rfl
  · rw [hlive] at hc
    exact tour.sourced d c (.inr (.inl hc))
  · rw [complete.levels, hplan, Option.bind_some, LiveState.get?_levels_ofPlan]
    cases p.plan.levelNamed? name with
    | none => simp
    | some level =>
        simp only [Option.map_some, Option.bind_some, Table.get?_filterMap, Table.getElem?_eq_get?,
          Option.bind_eq_some_iff, Option.some.injEq, exists_eq_left', Table.mem_iff,
          exists_and_right]

theorem live_of_ready (taken : e.step action = some (e', events))
    (hready : .prepared id .ready ∈ events) :
    ∃ p, e.preparations.get? id = some p ∧ p.stage = .pruning ∧ e'.live = e.live := by
  have hprepares := prepares_of_mem taken hready rfl (by simp)
  rw [← mem_signals rfl] at hready
  generalize signals events = raised at hready hprepares
  cases hprepares with
  | ends same hp hends =>
      obtain ⟨rfl, rfl⟩ : id = _ ∧ PrepareOutcome.ready = _ := by simpa using hready
      exact ⟨_, hp, hends.was_pruning, same.live⟩
  | _ => simp at hready

/-- With preparations one after the other, each turns to the domains of its plan in ascending order.
The registry is asked for a collector whenever a preparation turns to a domain that is not live then,
and at no other time.  A collector that cannot be made or cannot prepare is the last thing that a
preparation turns to.  A preparation that succeeds has turned to all domains of its plan, which are
live afterwards with one collector each: the one that was live before or, if none was, one that was
made for this preparation. -/
theorem one_instance_per_domain (run : Run step (create settings board) history e)
    (oneByOne : ∀ x ∈ history, OneByOne x) (hstart : start ∈ history)
    (hbegins : start.action = .beginPrepare plan cancelled) (hid : start.before.nextId = id) :
    (visits history id).Pairwise (· < ·) ∧ visits history id <+: plan.domains ∧
      (∀ x ∈ history, created x.events = (visited? x).toList.filter (· ∉ x.before.live.domains)) ∧
      (∀ earlier x later, history = earlier ++ x :: later →
        x.action.preparation? x.before.nextId = some id → x.action.fails = true →
        (∀ d, visited? x = some d → d ∉ x.before.live.domains) →
        (∃ outcome, outcome ≠ .ready ∧ .prepared id outcome ∈ x.events) ∧
          visits history id = visits (earlier ++ [x]) id) ∧
      ∀ x ∈ history, .prepared id .ready ∈ x.events →
        visits history id = plan.domains ∧ Equipped history start plan x.after.live := by
  subst hid
  have hprefix := prefix_of_run run oneByOne hstart hbegins
  have hascending : plan.domains.Pairwise (· < ·) := Table.pairwise_keys _
  refine ⟨hascending.sublist hprefix.sublist, hprefix, fun x => created_of_run run oneByOne, ?_, ?_⟩
  · rintro earlier x later rfl hfor hfails hgone
    obtain ⟨before, taken, rest⟩ := run.taken
    have hcreated := created_of_run run oneByOne (x := x) (by simp)
    obtain ⟨outcome, hready, hevent⟩ := refused_of_fails taken hfor hfails fun d hd => by
      simp [hcreated, hd, hgone d hd]
    refine ⟨⟨outcome, hready, hevent⟩, ?_⟩
    rw [List.append_cons, visits_append,
      visits_of_gone (gone_of_prepared (numbered_of_run before) taken hevent) rest, List.append_nil]
  · intro x hx hready
    obtain ⟨earlier, later, rfl⟩ := List.append_of_mem hx
    obtain ⟨before, taken, rest⟩ := run.taken
    obtain ⟨p, hp, hstage, hlive⟩ := live_of_ready taken hready
    obtain ⟨rfl, tour⟩ := tour_of_begins run before (fun y hy => oneByOne y (List.mem_append_left _ hy))
      hstart hbegins hp
    have hvisited := tour.visited
    rw [hstage] at hvisited
    have hquiet : x.action.visits? ≠ some start.before.nextId := by
      intro hvisits
      obtain ⟨creation, noticed, haction⟩ := visit_of_visits? hvisits
      rw [haction] at taken
      obtain ⟨q, d, rest, hq, hvisiting, -⟩ := created_of_visit taken
      obtain rfl := Option.some.inj (hp.symm.trans hq)
      simp [hstage] at hvisiting
    constructor
    · rw [List.append_cons, visits_append, visits_append, visits_single, if_neg hquiet,
        visits_of_gone (gone_of_prepared (numbered_of_run before) taken hready) rest, List.append_nil]
      exact hvisited
    · rw [hlive]
      exact (tour.equipped (by rw [hstage]; rfl) (complete_of_run before).live).append _

end Runs

def asking (name : String) (domains : List String) : Plan :=
  .ofLevels name "inline" (.ofList [("kpi", {
    freq := "1s"
    collect := .ofList (domains.map (·, {})) })])

/-- The preparation begins and turns to `n` domains, whose collectors prepare. -/
def turning (id : Nat) (plan : Plan) (n : Nat) : List EngineAction :=
  [.beginPrepare plan false, .pinged id .answered, .copyLive id] ++
    (List.replicate n
      [.visit id .created false, .collectorPrepared id (.prepared false)]).flatten

/-- The second preparation has a collector made and is then refused another one, and the third one
asks for the same domain again. -/
def retried : History × Engine :=
  Run.follow step (create {} ∅)
    (turning 0 (asking "a" ["cpu", "disk"]) 2 ++
      [.conclude 0, .swap 0 .all, .cleanUp 0 none, .prune 0] ++
      turning 1 (asking "b" ["cpu", "mem", "net"]) 2 ++ [.visit 1 (.failed ["refused"]) false] ++
      turning 2 (asking "c" ["disk", "mem"]) 2 ++
      [.conclude 2, .swap 2 .all, .cleanUp 2 none, .prune 2])

theorem one_instance_per_domain_retried :
    Run step (create {} ∅) retried.1 retried.2 ∧ (∀ x ∈ retried.1, OneByOne x) ∧
      (∃ x ∈ retried.1, visited? x = some "mem" ∧ x.before.nextCollector = 2) ∧
      ∃ start ∈ retried.1, start.action = .beginPrepare (asking "c" ["disk", "mem"]) false ∧
        start.before.nextId = 2 ∧ visits retried.1 2 = ["disk", "mem"] ∧
        ∃ x ∈ retried.1, x.after.live.collectors.get? "disk" = some 1 ∧
          x.after.live.collectors.get? "mem" = some 3 ∧
          Equipped retried.1 start (asking "c" ["disk", "mem"]) x.after.live := by
  have hrun : Run step (create {} ∅) retried.1 retried.2 := Run.of_follow ..
  have honeByOne : ∀ x ∈ retried.1, OneByOne x := by decide +kernel
  have hbegins : ∃ x ∈ retried.1, x.action = .beginPrepare (asking "c" ["disk", "mem"]) false ∧
      x.before.nextId = 2 := by decide +kernel
  have hready : ∃ x ∈ retried.1, .prepared 2 .ready ∈ x.events ∧
      x.after.live.collectors.get? "disk" = some 1 ∧
      x.after.live.collectors.get? "mem" = some 3 := by decide +kernel
  obtain ⟨start, hstart, haction, hid⟩ := hbegins
  obtain ⟨x, hx, hevent, hdisk, hmem⟩ := hready
  obtain ⟨-, -, -, -, hequipped⟩ := one_instance_per_domain hrun honeByOne hstart haction hid
  obtain ⟨hvisits, equipped⟩ := hequipped x hx hevent
  have hdomains : (asking "c" ["disk", "mem"]).domains = ["disk", "mem"] := by decide +kernel
  exact ⟨hrun, honeByOne, by decide +kernel, start, hstart, haction, hid, hdomains ▸ hvisits, x, hx,
    hdisk, hmem, equipped⟩

end Engine

end Cadence
