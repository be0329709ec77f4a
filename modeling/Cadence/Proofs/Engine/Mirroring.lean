import Cadence.Proofs.Engine.Recording
import Cadence.Proofs.Engine.Renumbering

/-!
# An engine that has been spared some preparations

Of two engines the second has been asked for less: it lacks the preparations
whose numbers are omitted and the collectors made for them.  As far as the others
go the two are alike, up to the numbers; but the first may have staged selections
in collectors that they share.  Whatever the first engine can do for a
preparation or a round that both have, the second can do as well, and the two
are alike again.
-/

namespace Cadence

/-- The collector has been asked to prepare. -/
def Preparation.Asks (p : Preparation) (collector : Nat) : Prop :=
  ∃ domain, p.collectors.get? domain = some collector ∨
    ∃ rest, p.stage = .preparing domain collector rest

theorem Preparation.Asks.of_stage {p : Preparation} {stage : PrepareStage}
    (hstage : ∀ d c rest, stage ≠ .preparing d c rest) {collector : Nat}
    (h : { p with stage }.Asks collector) : p.Asks collector := by
  obtain ⟨domain, hprepared | ⟨rest, hpreparing⟩⟩ := h
  · exact ⟨domain, .inl hprepared⟩
  · exact absurd hpreparing (hstage domain collector rest)

theorem Preparation.Asks.holds {p : Preparation} {collector : Nat} (h : p.Asks collector) :
    ∃ domain, p.Holds domain collector := by
  obtain ⟨domain, hdomain⟩ := h
  exact ⟨domain, .inr hdomain⟩

/-- The preparation that an action is for; a new one takes the next number. -/
def EngineAction.preparation? (nextId : Nat) : EngineAction → Option Nat
  | beginPrepare .. => some nextId
  | cancel id | pinged id _ | retry id | noticeCancel id | copyLive id | visit id ..
  | collectorPrepared id _ | conclude id | swap id _ | cleanUp id _ | prune id
  | dropPreparation id => some id
  | _ => none

namespace Renumbering

variable (κ : Renumbering)

/-- The same live state under new numbers, all of them kept. -/
structure OfLive (live live' : LiveState) : Prop where
  eq : live' = live.renumber κ
  collectors : ∀ d c, live.collectors.get? d = some c → κ.Keeps c
  levels : ∀ level d c, ((live.levels.get? level).getD ∅).get? d = some c → κ.Keeps c

structure OfPreparation (p p' : Preparation) : Prop where
  eq : p' = p.renumber κ
  holds : ∀ d c, p.Holds d c → κ.Keeps c

structure OfRound (r r' : EngineRound) : Prop where
  eq : r' = r.renumber κ
  tasks : ∀ plan began tasks d t, r.stage = .collecting plan began tasks → tasks.get? d = some t →
    κ.Keeps t.collector

end Renumbering

namespace Engine

/-- Up to the numbers the second engine is the first without what has been omitted. -/
structure Mirrors (ρ κ : Renumbering) (e e' : Engine) : Prop where
  settings : e'.settings = e.settings
  live : κ.OfLive e.live e'.live
  selected : ∀ c, κ.Keeps c → (e'.selection (κ c)).live = (e.selection c).live
  /-- What a preparation that both have has had staged is staged in both. -/
  staged : ∀ id p, e.preparations.get? id = some p → ρ.Keeps id → ∀ c, p.Asks c →
    (e'.selection (κ c)).staged = (e.selection c).staged
  errors : e'.errors = e.errors
  queue : e'.queue = e.queue.filterMap (·.under? ρ)
  preparations : ρ.Carries κ.OfPreparation e.preparations e'.preparations
  rounds : ρ.Carries κ.OfRound e.rounds e'.rounds
  kept : ∀ id ∈ e.rounds, ρ.Keeps id
  single : ∀ id ∈ e.preparations, ∀ other ∈ e.preparations, id = other
  nextId : e'.nextId = ρ e.nextId
  nextCollector : e'.nextCollector = κ e.nextCollector

variable {ρ κ : Renumbering} {e e' e₁ : Engine} {id : Nat} {p p₁ p₁' : Preparation}
  {events : List EngineEvent}

namespace Mirrors

/-! ## What the two engines show -/

theorem livePlanName (h : Mirrors ρ κ e e') : e'.livePlanName = e.livePlanName := by
  rw [Engine.livePlanName, h.live.eq]
  rfl

theorem emptyBatch (h : Mirrors ρ κ e e') (level : String) (now : Utc) :
    e'.emptyBatch level now = e.emptyBatch level now := by
  rw [Engine.emptyBatch, h.settings, h.livePlanName]
  rfl

theorem batchOf (h : Mirrors ρ κ e e') (level plan : String) (began ended : Utc)
    (tasks : Table String RoundTask) :
    e'.batchOf level plan began ended (tasks.map (fun _ t => t.renumber κ)) =
      e.batchOf level plan began ended tasks := by
  have hresults : results (tasks.map (fun _ t => t.renumber κ)) = results tasks :=
    Table.filterMap_map ..
  rw [Engine.batchOf, h.settings, Table.keys_map, hresults]
  rfl

theorem inUse (h : Mirrors ρ κ e e') (hfree : e.inUse = false) : e'.inUse = false := by
  rw [Engine.inUse, List.any_eq_false] at hfree ⊢
  intro r' hr'
  obtain ⟨k, hk⟩ := Table.mem_values.1 hr'
  obtain ⟨id, r, -, hr, hof⟩ := h.rounds.of_get? hk
  rw [hof.eq, EngineRound.isQueued_renumber]
  exact hfree r (Table.mem_values.2 ⟨id, hr⟩)

theorem admits (h : Mirrors ρ κ e e') {t : Ticket} (ht : ρ.Keeps t.number)
    (hadmits : e.admits t = true) : e'.admits (t.renumber ρ) = true := by
  unfold Engine.admits at hadmits ⊢
  rw [Ticket.isSwap_renumber, h.queue]
  cases hswap : t.isSwap with
  | true =>
      simp only [hswap, if_true, Bool.and_eq_true, decide_eq_true_eq, Bool.not_eq_true']
        at hadmits ⊢
      obtain ⟨hhead, hfree⟩ := hadmits
      refine ⟨?_, h.inUse hfree⟩
      obtain ⟨rest, hqueue⟩ := List.head?_eq_some_iff.1 hhead
      rw [hqueue, List.filterMap_cons_some (Ticket.under?_of_keeps ht), List.head?_cons]
  | false =>
      simp only [hswap, Bool.false_eq_true, if_false, Bool.and_eq_true, decide_eq_true_eq,
        Bool.not_eq_true'] at hadmits ⊢
      obtain ⟨hmem, hahead⟩ := hadmits
      refine ⟨mem_under ht hmem, ?_⟩
      rw [takeWhile_under ht, List.any_eq_false]
      intro u hu
      obtain ⟨v, hv, hunder⟩ := List.mem_filterMap.1 hu
      unfold Ticket.under? at hunder
      split at hunder
      · obtain rfl := Option.some.inj hunder
        rw [Ticket.isSwap_renumber]
        exact List.any_eq_false.1 hahead v hv
      · contradiction

theorem get?_preparation (h : Mirrors ρ κ e e') (hid : ρ.Keeps id)
    (hp : e.preparations.get? id = some p) :
    e'.preparations.get? (ρ id) = some (p.renumber κ) ∧ ∀ d c, p.Holds d c → κ.Keeps c := by
  obtain ⟨p', hp', hof⟩ := h.preparations.get? hid hp
  exact ⟨hof.eq ▸ hp', hof.holds⟩

theorem only (h : Mirrors ρ κ e e') (hp : e.preparations.get? id = some p) :
    ∀ other ∈ e.preparations, other = id :=
  fun other hother => h.single other hother id (Table.mem_iff.2 ⟨p, hp⟩)

theorem get?_round (h : Mirrors ρ κ e e') {r : EngineRound} (hr : e.rounds.get? id = some r) :
    ρ.Keeps id ∧ e'.rounds.get? (ρ id) = some (r.renumber κ) ∧ κ.OfRound r (r.renumber κ) := by
  have hid := h.kept id (Table.mem_iff.2 ⟨r, hr⟩)
  obtain ⟨r', hr', hof⟩ := h.rounds.get? hid hr
  obtain rfl := hof.eq
  exact ⟨hid, hr', hof⟩

/-! ## Both engines do the same -/

theorem say (h : Mirrors ρ κ e e') (text : String) : Mirrors ρ κ (e.say text) (e'.say text) :=
  { h with }

theorem withErrors (h : Mirrors ρ κ e e') {errors errors' : Table String String}
    (herrors : errors' = errors) (board board' : Board) :
    Mirrors ρ κ { e with errors, board } { e' with errors := errors', board := board' } :=
  { h with errors := herrors }

theorem withNextId (h : Mirrors ρ κ e e') (hid : ρ.Keeps e.nextId) :
    Mirrors ρ κ { e with nextId := e.nextId + 1 } { e' with nextId := e'.nextId + 1 } :=
  { h with nextId := (congrArg (· + 1) h.nextId).trans (Renumbering.apply_succ hid).symm }

theorem withNextCollector (h : Mirrors ρ κ e e') (hc : κ.Keeps e.nextCollector) :
    Mirrors ρ κ { e with nextCollector := e.nextCollector + 1 }
      { e' with nextCollector := e'.nextCollector + 1 } :=
  { h with
    nextCollector := (congrArg (· + 1) h.nextCollector).trans (Renumbering.apply_succ hc).symm }

theorem withLive (h : Mirrors ρ κ e e') {live live' : LiveState} (hlive : κ.OfLive live live') :
    Mirrors ρ κ { e with live } { e' with live := live' } :=
  { h with live := hlive }

theorem enqueue (h : Mirrors ρ κ e e') {t : Ticket} (ht : ρ.Keeps t.number) :
    Mirrors ρ κ (e.enqueue t) (e'.enqueue (t.renumber ρ)) :=
  { h with
    queue := by
      simp only [Engine.enqueue, List.filterMap_append, h.queue, List.filterMap_cons,
        Ticket.under?_of_keeps ht, List.filterMap_nil] }

theorem dequeue (h : Mirrors ρ κ e e') {t : Ticket} (ht : ρ.Keeps t.number) :
    Mirrors ρ κ (e.dequeue t) (e'.dequeue (t.renumber ρ)) :=
  { h with
    queue := by
      simp only [Engine.dequeue, h.queue]
      exact (filterMap_dequeue ht e.queue).symm }

theorem setPreparation (h : Mirrors ρ κ e e') (hid : ρ.Keeps id)
    (single : ∀ other ∈ e.preparations, other = id) (hp : κ.OfPreparation p₁ p₁')
    (hstaged : ∀ c, p₁.Asks c → (e'.selection (κ c)).staged = (e.selection c).staged) :
    Mirrors ρ κ (e.setPreparation id p₁) (e'.setPreparation (ρ id) p₁') :=
  { h with
    preparations := h.preparations.insert hid hp
    staged := by
      intro k p hk hkeeps c hc
      have hk : (e.preparations.insert id p₁).get? k = some p := hk
      rw [Table.get?_insert] at hk
      split at hk
      · obtain rfl := Option.some.inj hk
        exact hstaged c hc
      · exact h.staged k p hk hkeeps c hc
    single := by
      have same : ∀ k ∈ (e.setPreparation id p₁).preparations, k = id := fun k hk =>
        (Table.mem_insert.1 hk).elim (·) (single k)
      intro k hk other hother
      exact (same k hk).trans (same other hother).symm }

theorem erasePreparation (h : Mirrors ρ κ e e') (hid : ρ.Keeps id) :
    Mirrors ρ κ { e with preparations := e.preparations.erase id }
      { e' with preparations := e'.preparations.erase (ρ id) } :=
  { h with
    preparations := h.preparations.erase hid
    staged := fun k p hk => h.staged k p (Table.get?_of_get?_erase hk)
    single := by
      have there : ∀ k ∈ e.preparations.erase id, k ∈ e.preparations := fun k hk => by
        obtain ⟨p, hp⟩ := Table.mem_iff.1 hk
        exact Table.mem_iff.2 ⟨p, Table.get?_of_get?_erase hp⟩
      exact fun k hk other hother => h.single k (there k hk) other (there other hother) }

theorem stageSelection (h : Mirrors ρ κ e e') {collector : Nat} (hc : κ.Keeps collector)
    (plan : Plan) (domain : String) :
    Mirrors ρ κ (e.stageSelection collector plan domain)
      (e'.stageSelection (κ collector) plan domain) := by
  refine { h with selected := fun c hkeeps => ?_, staged := fun k p hk hkeeps c hasks => ?_ }
  · rw [live_stageSelection, live_stageSelection]
    exact h.selected c hkeeps
  · obtain ⟨d, hholds⟩ := hasks.holds
    have same : κ c = κ collector ↔ c = collector :=
      Renumbering.apply_eq_iff ((h.get?_preparation hkeeps hk).2 d c hholds) hc
    rw [selection_stageSelection, selection_stageSelection, if_congr same rfl rfl]
    split
    · rfl
    · exact h.staged k p hk hkeeps c hasks

theorem commitAll (h : Mirrors ρ κ e e') {collectors : Table String Nat}
    (hkeeps : ∀ d c, collectors.get? d = some c → κ.Keeps c)
    (hstaged : ∀ d c, collectors.get? d = some c →
      (e'.selection (κ c)).staged = (e.selection c).staged) :
    Mirrors ρ κ (e.commitAll collectors)
      (e'.commitAll (collectors.map (fun _ c => κ c))) := by
  have same : ∀ c, κ.Keeps c →
      (κ c ∈ (collectors.map (fun _ c => κ c)).values ↔ c ∈ collectors.values) := by
    intro c hc
    rw [Table.values_map, List.mem_map]
    constructor
    · rintro ⟨other, hother, heq⟩
      obtain ⟨d, hd⟩ := Table.mem_values.1 hother
      exact Renumbering.eq_of_apply (hkeeps d other hd) hc heq ▸ hother
    · exact fun hmem => ⟨c, hmem, rfl⟩
  refine { h with selected := fun c hc => ?_, staged := fun k p hk hid c hasks => ?_ }
  · rw [selection_commitAll, selection_commitAll, if_congr (same c hc) rfl rfl]
    split
    · next hmem =>
        obtain ⟨d, hd⟩ := Table.mem_values.1 hmem
        rw [Selection.commit_live, Selection.commit_live, hstaged d c hd, h.selected c hc]
    · exact h.selected c hc
  · obtain ⟨d, hholds⟩ := hasks.holds
    have hckeeps := (h.get?_preparation hid hk).2 d c hholds
    rw [selection_commitAll, selection_commitAll, if_congr (same c hckeeps) rfl rfl]
    split
    · rw [Selection.commit_staged, Selection.commit_staged]
    · exact h.staged k p hk hid c hasks

theorem setRound (h : Mirrors ρ κ e e') (hid : ρ.Keeps id) {r r' : EngineRound}
    (hr : κ.OfRound r r') : Mirrors ρ κ (e.setRound id r) (e'.setRound (ρ id) r') :=
  { h with
    rounds := h.rounds.insert hid hr
    kept := fun k hk => (Table.mem_insert.1 hk).elim (fun heq => heq ▸ hid) (h.kept k) }

theorem dropRound (h : Mirrors ρ κ e e') (hid : ρ.Keeps id) :
    Mirrors ρ κ (e.dropRound id) (e'.dropRound (ρ id)) :=
  { h.dequeue (t := .round id) hid with
    rounds := h.rounds.erase hid
    kept := fun k hk => by
      obtain ⟨r, hr⟩ := Table.mem_iff.1 hk
      exact h.kept k (Table.mem_iff.2 ⟨r, Table.get?_of_get?_erase hr⟩) }

/-- A preparation that neither holds nor has asked more collectors than before goes on. -/
theorem goesOn (h : Mirrors ρ κ e e') (hid : ρ.Keeps id) (hp : e.preparations.get? id = some p)
    (holds : ∀ d c, p₁.Holds d c → p.Holds d c) (asks : ∀ c, p₁.Asks c → p.Asks c) :
    Mirrors ρ κ (e.setPreparation id p₁) (e'.setPreparation (ρ id) (p₁.renumber κ)) :=
  h.setPreparation hid (h.only hp)
    ⟨rfl, fun d c hd => (h.get?_preparation hid hp).2 d c (holds d c hd)⟩
    (fun c hc => h.staged id p hp hid c (asks c hc))

theorem toStage (h : Mirrors ρ κ e e') (hid : ρ.Keeps id) (hp : e.preparations.get? id = some p)
    (stage : PrepareStage) (hstage : ∀ d c rest, stage ≠ .preparing d c rest) :
    Mirrors ρ κ (e.setPreparation id { p with stage })
      (e'.setPreparation (ρ id) ({ p with stage }.renumber κ)) :=
  h.goesOn hid hp (fun _ _ => .of_stage hstage) (fun _ => .of_stage hstage)

end Mirrors

/-! ## The steps of preparations -/

/-- The second engine takes the same step, to the like of where the first one gets. -/
def Echoes (ρ κ : Renumbering) (e' : Engine) (action : EngineAction)
    (next : Engine × List EngineEvent) : Prop :=
  ∃ e₁', e'.step (action.renumber ρ) = some (e₁', next.2.map (·.renumber ρ κ)) ∧
    Mirrors ρ κ next.1 e₁'

theorem withPreparation_of_some {step : Preparation → Next}
    (hp : e.preparations.get? id = some p) : e.withPreparation id step = step p := by
  rw [withPreparation, Table.getElem?_eq_get?, hp, Option.bind_some]

theorem withRound_of_some {step : EngineRound → Next} {r : EngineRound}
    (hr : e.rounds.get? id = some r) : e.withRound id step = step r := by
  rw [withRound, Table.getElem?_eq_get?, hr, Option.bind_some]

namespace Mirrors

variable {next : Engine × List EngineEvent}

theorem beginPrepare (h : Mirrors ρ κ e e') (idle : e.preparations = ∅) (hid : ρ.Keeps e.nextId)
    (plan : Plan) (cancelled : Bool) :
    Echoes ρ κ e' (.beginPrepare plan cancelled) (e.beginPrepare plan cancelled, []) := by
  have hfresh : κ.OfPreparation { plan, cancelled } { plan, cancelled } :=
    ⟨rfl, by simp [Preparation.Holds]⟩
  have hbegun : e'.beginPrepare plan cancelled =
      { (e'.say s!"preparing plan {plan.name}").setPreparation (ρ e.nextId) { plan, cancelled } with
        nextId := e'.nextId + 1 } := by
    rw [Engine.beginPrepare, h.nextId]
  refine ⟨_, congrArg (fun e => some (e, [])) hbegun, ?_⟩
  exact ((h.say _).setPreparation hid (by simp [Engine.say, idle, Table.mem_iff]) hfresh
    (by simp [Preparation.Asks])).withNextId hid

theorem cancel (h : Mirrors ρ κ e e') (hid : ρ.Keeps id)
    (taken : e.cancelPreparation id = some next) : Echoes ρ κ e' (.cancel id) next := by
  obtain ⟨p, hp, rfl⟩ := cancelPreparation_eq_some taken
  exact ⟨_, withPreparation_of_some (h.get?_preparation hid hp).1,
    h.goesOn hid hp (fun _ _ hd => hd) (fun _ hc => hc)⟩

theorem pinged (h : Mirrors ρ κ e e') (hid : ρ.Keeps id) {result : PingResult}
    (taken : e.pinged id result = some next) : Echoes ρ κ e' (.pinged id result) next := by
  obtain ⟨p, attempt, hp, hstage, hnext⟩ := pinged_eq_some taken
  have hp' := (h.get?_preparation hid hp).1
  have hstage' : (p.renumber κ).stage = .connecting attempt := congrArg (·.renumber κ) hstage
  rcases hnext with ⟨rfl, rfl⟩ | ⟨hresult, rfl⟩
  · refine ⟨_, (withPreparation_of_some hp').trans ?_,
      (h.toStage hid hp .copying (by simp)).enqueue (t := .copy id) hid⟩
    simp only [hstage']
    rfl
  · refine ⟨_, (withPreparation_of_some hp').trans ?_,
      (h.say _).toStage hid hp (.retrying attempt) (by simp)⟩
    cases result with
    | answered => contradiction
    | failed =>
      simp only [hstage']
      rfl
    | timedOut =>
      simp only [hstage']
      rfl

theorem retry (h : Mirrors ρ κ e e') (hid : ρ.Keeps id) (taken : e.retry id = some next) :
    Echoes ρ κ e' (.retry id) next := by
  obtain ⟨p, attempt, hp, hstage, rfl⟩ := retry_eq_some taken
  have hstage' : (p.renumber κ).stage = .retrying attempt := congrArg (·.renumber κ) hstage
  refine ⟨_, (withPreparation_of_some (h.get?_preparation hid hp).1).trans ?_,
    h.toStage hid hp (.connecting (attempt + 1)) (by simp)⟩
  simp only [hstage']
  rfl

theorem noticeCancel (h : Mirrors ρ κ e e') (hid : ρ.Keeps id)
    (taken : e.noticeCancel id = some next) : Echoes ρ κ e' (.noticeCancel id) next := by
  obtain ⟨p, hp, hcancelled, hstage, rfl⟩ := noticeCancel_eq_some taken
  have hcancelled' : (p.renumber κ).cancelled = true := hcancelled
  refine ⟨_, (withPreparation_of_some (h.get?_preparation hid hp).1).trans ?_,
    h.erasePreparation hid⟩
  rcases hstage with ⟨attempt, hstage | hstage⟩ | ⟨domain, collector, rest, hstage⟩
  all_goals
    simp only [hcancelled', Preparation.renumber_stage, hstage, PrepareStage.renumber]
    rfl

theorem copyLive (h : Mirrors ρ κ e e') (hid : ρ.Keeps id)
    (taken : e.copyLive id = some next) : Echoes ρ κ e' (.copyLive id) next := by
  obtain ⟨p, hp, hstage, hadmits, rfl⟩ := copyLive_eq_some taken
  have hstage' : (p.renumber κ).stage = .copying := congrArg (·.renumber κ) hstage
  have hlive : e'.live.collectors = e.live.collectors.map (fun _ c => κ c) := by
    rw [h.live.eq]
    rfl
  refine ⟨_, (withPreparation_of_some (h.get?_preparation hid hp).1).trans
    (if_pos ⟨hstage', h.admits (t := .copy id) hid hadmits⟩), ?_⟩
  rw [hlive]
  refine (h.dequeue (t := .copy id) hid).setPreparation hid (h.only hp) ⟨rfl, ?_⟩ ?_
  · rintro d c (hknown | hprepared | ⟨rest, hasks⟩)
    · exact h.live.collectors d c hknown
    · exact (h.get?_preparation hid hp).2 d c (.inr (.inl hprepared))
    · contradiction
  · rintro c ⟨d, hprepared | ⟨rest, hasks⟩⟩
    · exact h.staged id p hp hid c ⟨d, .inl hprepared⟩
    · contradiction

theorem askCollector (h : Mirrors ρ κ e e') (hid : ρ.Keeps id)
    (hp : e.preparations.get? id = some p) {domain : String} {collector : Nat}
    (hc : κ.Keeps collector) {rest : List String} {noticed : Bool}
    (hasked : e.askCollector id p domain collector rest noticed = some next) :
    ∃ e₁', e'.askCollector (ρ id) (p.renumber κ) domain (κ collector) rest noticed =
      some (e₁', next.2.map (·.renumber ρ κ)) ∧ Mirrors ρ κ next.1 e₁' := by
  rcases askCollector_eq_some hasked with ⟨rfl, hcancelled, rfl⟩ | ⟨rfl, rfl⟩
  · have hcancelled' : (p.renumber κ).cancelled = true := hcancelled
    refine ⟨_, ?_, h.erasePreparation hid⟩
    rw [Engine.askCollector, if_pos rfl, if_pos hcancelled']
    rfl
  · refine ⟨_, rfl,
      (h.stageSelection hc p.plan domain).setPreparation hid (h.only hp) ⟨rfl, ?_⟩ ?_⟩
    · rintro d c (hknown | hprepared | ⟨others, hasks⟩)
      · exact (h.get?_preparation hid hp).2 d c (.inl hknown)
      · exact (h.get?_preparation hid hp).2 d c (.inr (.inl hprepared))
      · obtain ⟨-, rfl, -⟩ := PrepareStage.preparing.inj hasks
        exact hc
    · rintro c ⟨d, hprepared | ⟨others, hasks⟩⟩
      · exact (h.stageSelection hc p.plan domain).staged id p hp hid c ⟨d, .inl hprepared⟩
      · obtain ⟨-, rfl, -⟩ := PrepareStage.preparing.inj hasks
        rw [selection_stageSelection, selection_stageSelection, if_pos rfl, if_pos rfl]
        rfl

theorem visit (h : Mirrors ρ κ e e') (hid : ρ.Keeps id)
    (made : e.nextCollector < next.1.nextCollector → κ.Keeps e.nextCollector) {creation : Creation}
    {noticed : Bool} (taken : e.visit id creation noticed = some next) :
    Echoes ρ κ e' (.visit id creation noticed) next := by
  obtain ⟨p, hp, hnext⟩ := withPreparation_eq_some.1 taken
  obtain ⟨hp', hholds⟩ := h.get?_preparation hid hp
  split at hnext
  · next domain rest hstage =>
      have hstage' : (p.renumber κ).stage = .visiting (domain :: rest) :=
        congrArg (·.renumber κ) hstage
      split at hnext
      · next collector hknown =>
          have hknown' : (p.renumber κ).known[domain]? = some (κ collector) := by
            simp only [Preparation.renumber, Table.getElem?_eq_get?, Table.get?_map]
            exact congrArg (Option.map κ) hknown
          obtain ⟨e₁', hasked, hmirrors⟩ :=
            h.askCollector hid hp (hholds domain collector (.inl hknown)) hnext
          refine ⟨e₁', (withPreparation_of_some hp').trans ?_, hmirrors⟩
          simp only [hstage', hknown']
          exact hasked
      · next hknown =>
          have hknown' : (p.renumber κ).known[domain]? = none := by
            simp only [Preparation.renumber, Table.getElem?_eq_get?, Table.get?_map]
            exact congrArg (Option.map κ) hknown
          cases creation with
          | failed chain =>
              obtain rfl := Option.some.inj hnext
              refine ⟨_, (withPreparation_of_some hp').trans ?_, h.erasePreparation hid⟩
              simp only [hstage', hknown']
              rfl
          | panicked =>
              obtain rfl := Option.some.inj hnext
              refine ⟨_, (withPreparation_of_some hp').trans ?_, h.erasePreparation hid⟩
              simp only [hstage', hknown']
              rfl
          | created =>
              obtain ⟨asked, hasked, rfl⟩ := Option.map_eq_some_iff.1 hnext
              have hmade : asked.1.nextCollector = e.nextCollector + 1 := by
                rcases askCollector_eq_some hasked with ⟨-, -, rfl⟩ | ⟨-, rfl⟩ <;> rfl
              have hc : κ.Keeps e.nextCollector := made (hmade ▸ Nat.lt_succ_self _)
              obtain ⟨e₁', hasked', hmirrors⟩ :=
                (h.withNextCollector hc).askCollector hid hp hc hasked
              refine ⟨e₁', (withPreparation_of_some hp').trans ?_, hmirrors⟩
              simp only [hstage', hknown', h.nextCollector] at hasked' ⊢
              rw [hasked']
              rfl
  · contradiction

theorem collectorPrepared (h : Mirrors ρ κ e e') (hid : ρ.Keeps id) {result : CollectorPrepared}
    (taken : e.collectorPrepared id result = some next) :
    Echoes ρ κ e' (.collectorPrepared id result) next := by
  obtain ⟨p, domain, collector, rest, hp, hstage, hnext⟩ := collectorPrepared_eq_some taken
  have hp' := (h.get?_preparation hid hp).1
  have hstage' : (p.renumber κ).stage = .preparing domain (κ collector) rest :=
    congrArg (·.renumber κ) hstage
  rcases hnext with ⟨outcome, houtcome, rfl⟩ | ⟨cleanup, rfl, rfl⟩
  · refine ⟨_, (withPreparation_of_some hp').trans ?_, h.erasePreparation hid⟩
    simp only [hstage']
    cases result with
    | prepared cleanup => simp [CollectorPrepared.outcome?] at houtcome
    | failed chain =>
        obtain rfl := Option.some.inj houtcome
        rfl
    | panicked =>
        obtain rfl := Option.some.inj houtcome
        rfl
  · have hprepared : (p.renumber κ).collectors.insert domain (κ collector) =
        (p.collectors.insert domain collector).map (fun _ c => κ c) :=
      (Table.map_insert ..).symm
    have hasked : ∀ d c, (p.collectors.insert domain collector).get? d = some c →
        p.collectors.get? d = some c ∨ ∃ rest, p.stage = .preparing d c rest := by
      intro d c hd
      rw [Table.get?_insert] at hd
      split at hd
      · next heq =>
          obtain rfl := Option.some.inj hd
          exact .inr ⟨rest, heq ▸ hstage⟩
      · exact .inl hd
    refine ⟨_, (withPreparation_of_some hp').trans ?_, h.goesOn hid hp ?_ ?_⟩
    · simp only [hstage', hprepared]
      rfl
    · rintro d c (hknown | hd | ⟨others, hasks⟩)
      · exact .inl hknown
      · exact .inr (hasked d c hd)
      · contradiction
    · rintro c ⟨d, hd | ⟨others, hasks⟩⟩
      · exact ⟨d, hasked d c hd⟩
      · contradiction

theorem conclude (h : Mirrors ρ κ e e') (hid : ρ.Keeps id)
    (taken : e.conclude id = some next) : Echoes ρ κ e' (.conclude id) next := by
  obtain ⟨p, hp, hstage, hnext⟩ := conclude_eq_some taken
  have hp' := (h.get?_preparation hid hp).1
  have hstage' : (p.renumber κ).stage = .visiting [] := congrArg (·.renumber κ) hstage
  rcases hnext with ⟨hcancelled, rfl⟩ | ⟨hcancelled, rfl⟩
  · have hcancelled' : (p.renumber κ).cancelled = true := hcancelled
    refine ⟨_, (withPreparation_of_some hp').trans ?_, h.erasePreparation hid⟩
    simp only [hstage']
    exact if_pos hcancelled'
  · have hcancelled' : (p.renumber κ).cancelled = false := hcancelled
    refine ⟨_, (withPreparation_of_some hp').trans ?_,
      (h.toStage hid hp .swapping (by simp)).enqueue (t := .swap id) hid⟩
    simp only [hstage']
    exact if_neg (by simp [hcancelled'])

theorem cleanUp (h : Mirrors ρ κ e e') (hid : ρ.Keeps id) {finished : Option Nat}
    (taken : e.cleanUp id finished = some next) : Echoes ρ κ e' (.cleanUp id finished) next := by
  obtain ⟨p, cleanups, hp, hstage, hnext⟩ := cleanUp_eq_some taken
  have hp' := (h.get?_preparation hid hp).1
  have hstage' : (p.renumber κ).stage = .swapped cleanups := congrArg (·.renumber κ) hstage
  have hcleaning : ∀ cleanups : List Cleanup,
      (cleanups.map EngineEvent.cleaning).map (·.renumber ρ κ) = cleanups.map .cleaning :=
    fun cleanups => by rw [List.map_map]; rfl
  rcases hnext with ⟨rfl, rfl⟩ | ⟨n, rfl, hn, rfl⟩
  · refine ⟨_, (withPreparation_of_some hp').trans ?_,
      (h.toStage hid hp .pruning (by simp)).enqueue (t := .prune id) hid⟩
    simp only [hstage', List.map_cons, hcleaning]
    rfl
  · refine ⟨_, (withPreparation_of_some hp').trans ?_, h.erasePreparation hid⟩
    simp only [hstage', List.map_cons, List.map_append, hcleaning, if_pos hn]
    rfl

theorem prune (h : Mirrors ρ κ e e') (hid : ρ.Keeps id) (taken : e.prune id = some next) :
    Echoes ρ κ e' (.prune id) next := by
  obtain ⟨p, hp, hstage, hadmits, rfl⟩ := prune_eq_some taken
  have hstage' : (p.renumber κ).stage = .pruning := congrArg (·.renumber κ) hstage
  have herrors : e'.errors.filter (fun domain _ => e'.live.collectors.contains domain) =
      e.errors.filter (fun domain _ => e.live.collectors.contains domain) := by
    rw [h.errors, h.live.eq]
    simp [LiveState.renumber]
  refine ⟨_, (withPreparation_of_some (h.get?_preparation hid hp).1).trans
    (if_pos ⟨hstage', h.admits (t := .prune id) hid hadmits⟩), ?_⟩
  exact ((h.dequeue (t := .prune id) hid).withErrors herrors _ _).erasePreparation hid

theorem dropPreparation (h : Mirrors ρ κ e e') (hid : ρ.Keeps id)
    (taken : e.dropPreparation id = some next) : Echoes ρ κ e' (.dropPreparation id) next := by
  obtain ⟨p, hp, hwaits, rfl⟩ := dropPreparation_eq_some taken
  have hwaits' : (p.renumber κ).stage.waits = true :=
    (PrepareStage.waits_renumber κ p.stage).trans hwaits
  exact ⟨_, (withPreparation_of_some (h.get?_preparation hid hp).1).trans (if_pos hwaits'),
    (((h.dequeue (t := .copy id) hid).dequeue (t := .swap id) hid).dequeue (t := .prune id)
      hid).erasePreparation hid⟩

theorem swap (h : Mirrors ρ κ e e') (hid : ρ.Keeps id) {commits : Commits}
    (taken : e.swap id commits = some next) : Echoes ρ κ e' (.swap id commits) next := by
  obtain ⟨p, hp, hnext⟩ := withPreparation_eq_some.1 taken
  obtain ⟨hp', hholds⟩ := h.get?_preparation hid hp
  split at hnext
  · next hturn =>
      have hstage' : (p.renumber κ).stage = .swapping := congrArg (·.renumber κ) hturn.1
      have hadmits' := h.admits (t := .swap id) hid hturn.2
      have hcommitted : ∀ done : Table String Nat,
          (∀ d c, done.get? d = some c → p.collectors.get? d = some c) →
          Mirrors ρ κ ((e.dequeue (.swap id)).commitAll done)
            ((e'.dequeue (.swap (ρ id))).commitAll (done.map (fun _ c => κ c))) :=
        fun done hdone => (h.dequeue (t := .swap id) hid).commitAll
          (fun d c hd => hholds d c (.inr (.inl (hdone d c hd))))
          (fun d c hd => h.staged id p hp hid c ⟨d, .inl (hdone d c hd)⟩)
      cases commits with
      | all =>
          obtain rfl := Option.some.inj hnext
          have hlive : κ.OfLive (.ofPlan p.plan p.collectors p.cleanups)
              (.ofPlan p.plan (p.collectors.map (fun _ c => κ c)) p.cleanups) :=
            ⟨(LiveState.renumber_ofPlan ..).symm, fun d c hd => hholds d c (.inr (.inl hd)),
              fun level d c hd => hholds d c (.inr (.inl (LiveState.get?_of_level_ofPlan hd)))⟩
          refine ⟨_, (withPreparation_of_some hp').trans ((if_pos ⟨hstage', hadmits'⟩).trans ?_),
            ((hcommitted p.collectors (fun _ _ hd => hd)).toStage hid hp
              (.swapped e.live.cleanups) (by simp)).withLive hlive⟩
          rw [map_commitEvents, h.live.eq]
          rfl
      | only domains =>
          obtain rfl := Option.some.inj hnext
          have hdone : ∀ d c, (p.collectors.filter (fun d _ => d ∈ domains)).get? d = some c →
              p.collectors.get? d = some c := by
            intro d c hd
            rw [Table.get?_filter] at hd
            exact (Option.filter_eq_some_iff.1 hd).1
          refine ⟨_, (withPreparation_of_some hp').trans ((if_pos ⟨hstage', hadmits'⟩).trans ?_),
            (hcommitted _ hdone).erasePreparation hid⟩
          simp only [List.map_append, map_commitEvents, Table.map_filter]
          rfl
  · contradiction

/-! ## The steps of rounds -/

theorem beginCollect (h : Mirrors ρ κ e e') (hid : ρ.Keeps e.nextId) (level : String) :
    Echoes ρ κ e' (.beginCollect level) (e.beginCollect level, []) := by
  have hfresh : κ.OfRound { level } { level } := ⟨rfl, by simp⟩
  have hbegun : e'.beginCollect level =
      { (e'.setRound (ρ e.nextId) { level }).enqueue (.round (ρ e.nextId)) with
        nextId := e'.nextId + 1 } := by
    rw [Engine.beginCollect, h.nextId]
  exact ⟨_, congrArg (fun e => some (e, [])) hbegun,
    ((h.setRound hid hfresh).enqueue (t := .round e.nextId) hid).withNextId hid⟩

theorem enter (h : Mirrors ρ κ e e') {now : Utc} (taken : e.enter id now = some next) :
    Echoes ρ κ e' (.enter id now) next := by
  obtain ⟨r, hr, hstage, hadmits, hnext⟩ := enter_eq_some taken
  obtain ⟨hid, hr', -⟩ := h.get?_round hr
  have hstage' : (r.renumber κ).stage = .queued := congrArg (·.renumber κ) hstage
  have hlevel : (r.renumber κ).level = r.level := rfl
  have hlevels : (e'.live.levels[r.level]?).getD ∅ =
      ((e.live.levels.get? r.level).getD ∅).map (fun _ c => κ c) := by
    rw [Table.getElem?_eq_get?, h.live.eq]
    exact LiveState.getD_levels_renumber ..
  have hadmits' := h.admits (t := .round id) hid hadmits
  rcases hnext with ⟨hempty, rfl⟩ | ⟨hempty, rfl⟩
  · refine ⟨_, (withRound_of_some hr').trans ((if_pos ⟨hstage', hadmits'⟩).trans ?_),
      h.dropRound hid⟩
    simp only [hlevel, hlevels, Table.isEmpty_map, h.emptyBatch]
    exact if_pos hempty
  · refine ⟨_, (withRound_of_some hr').trans ((if_pos ⟨hstage', hadmits'⟩).trans ?_),
      (h.dequeue (t := .round id) hid).setRound hid ⟨rfl, ?_⟩⟩
    · simp only [hlevel, hlevels, Table.isEmpty_map, h.livePlanName, h.settings, hempty,
        RoundTask.map_renumber]
      rfl
    · intro plan began tasks d t hcollecting ht
      obtain ⟨-, -, rfl⟩ := RoundStage.collecting.inj hcollecting
      obtain ⟨c, hc, rfl⟩ := Option.map_eq_some_iff.1 ((Table.get?_map ..).symm.trans ht)
      exact h.live.levels r.level d c hc

/-- A change of a task that goes by nothing but what both engines have. -/
theorem task (h : Mirrors ρ κ e e') {action : EngineAction} {domain : String}
    {change change' : EngineRound → RoundTask → Option (RoundTask × Nat)}
    (haction : e'.step (action.renumber ρ) = e'.withTask (ρ id) domain change')
    (same : ∀ r task changed permits, change r task = some (changed, permits) →
      κ.Keeps task.collector → changed.collector = task.collector ∧
      change' (r.renumber κ) (task.renumber κ) = some (changed.renumber κ, permits))
    (taken : e.withTask id domain change = some next) : Echoes ρ κ e' action next := by
  obtain ⟨r, plan, began, tasks, task, changed, permits, hr, hstage, htask, hchange, rfl⟩ :=
    withTask_eq_some taken
  obtain ⟨hid, hr', hof⟩ := h.get?_round hr
  have hstage' : (r.renumber κ).stage =
      .collecting plan began (tasks.map (fun _ t => t.renumber κ)) :=
    congrArg (·.renumber κ) hstage
  have htask' : (tasks.map (fun _ t => t.renumber κ))[domain]? = some (task.renumber κ) := by
    rw [Table.getElem?_eq_get?, Table.get?_map, htask]
    rfl
  have hkeeps := hof.tasks plan began tasks domain task hstage htask
  obtain ⟨hcollector, hchange'⟩ := same r task changed permits hchange hkeeps
  refine ⟨_, (haction.trans (withRound_of_some hr')).trans ?_, h.setRound hid ⟨rfl, ?_⟩⟩
  · simp only [hstage', htask', Option.bind_eq_bind, Option.bind_some, hchange',
      ← Table.map_insert]
    rfl
  · intro plan' began' tasks' d t hstage₁ hd
    obtain ⟨-, -, rfl⟩ := RoundStage.collecting.inj hstage₁
    rw [Table.get?_insert] at hd
    split at hd
    · obtain rfl := Option.some.inj hd
      exact hcollector ▸ hkeeps
    · exact hof.tasks plan began tasks d t hstage hd

theorem startTask (h : Mirrors ρ κ e e') {domain : String}
    (taken : e.startTask id domain = some next) : Echoes ρ κ e' (.startTask id domain) next := by
  have hstep : e'.step ((EngineAction.startTask id domain).renumber ρ) =
      e'.startTask (ρ id) domain := rfl
  rw [Engine.startTask] at taken hstep
  refine h.task hstep (fun r task changed permits hchange hkeeps => ?_) taken
  split at hchange
  · next hfree =>
      cases hchange
      have hselected : (e'.selection (κ task.collector)).get? r.level =
          (e.selection task.collector).get? r.level := by
        rw [Selection.get?, h.selected task.collector hkeeps]
        rfl
      refine ⟨rfl, (if_pos hfree).trans ?_⟩
      rw [bind_get?_selections, bind_get?_selections]
      exact congrArg (fun selected => some (({ task with
        collector := κ task.collector
        selected
        stage := .collecting } : RoundTask), r.permits - 1)) hselected
  · contradiction

theorem finishTask (h : Mirrors ρ κ e e') {domain : String} {result : CollectResult}
    (taken : e.finishTask id domain result = some next) :
    Echoes ρ κ e' (.finishTask id domain result) next := by
  have hstep : e'.step ((EngineAction.finishTask id domain result).renumber ρ) =
      e'.finishTask (ρ id) domain result := rfl
  rw [Engine.finishTask] at taken hstep
  refine h.task hstep (fun r task changed permits hchange hkeeps => ?_) taken
  split at hchange
  · next hended =>
      cases hchange
      exact ⟨rfl, if_pos hended⟩
  · contradiction

theorem loseTask (h : Mirrors ρ κ e e') {domain : String}
    (taken : e.loseTask id domain = some next) : Echoes ρ κ e' (.loseTask id domain) next := by
  have hstep : e'.step ((EngineAction.loseTask id domain).renumber ρ) =
      e'.loseTask (ρ id) domain := rfl
  rw [Engine.loseTask] at taken hstep
  refine h.task hstep (fun r task changed permits hchange hkeeps => ?_) taken
  split at hchange
  · next hopen =>
      cases hchange
      exact ⟨rfl, if_pos hopen⟩
  · contradiction

/-- Both engines record the same and end alike. -/
theorem record (h : Mirrors ρ κ e e') (batch : Batch) :
    Mirrors ρ κ (e.record batch.values batch.errors) (e'.record batch.values batch.errors) := by
  have herrors : (e'.record batch.values batch.errors).errors =
      (e.record batch.values batch.errors).errors := by
    ext d : 1
    rw [get?_record, get?_record, h.errors]
  rw [record_frame e, record_frame e']
  exact h.withErrors herrors _ _

theorem close (h : Mirrors ρ κ e e') {now : Utc} (taken : e.close id now = some next) :
    Echoes ρ κ e' (.close id now) next := by
  obtain ⟨r, plan, began, tasks, hr, hstage, hended, rfl⟩ := close_eq_some taken
  obtain ⟨hid, hr', -⟩ := h.get?_round hr
  have hstage' : (r.renumber κ).stage =
      .collecting plan began (tasks.map (fun _ t => t.renumber κ)) :=
    congrArg (·.renumber κ) hstage
  have hended' : (tasks.map (fun _ t => t.renumber κ)).values.all (fun t => t.result?.isSome) =
      true := by
    rw [Table.values_map, List.all_map, List.all_eq_true]
    intro t ht
    obtain ⟨d, hd⟩ := Table.mem_values.1 ht
    exact hended d t hd
  refine ⟨_, (withRound_of_some hr').trans ?_, (h.dropRound hid).record _⟩
  simp only [hstage', h.batchOf]
  exact if_pos hended'

theorem dropsRound (h : Mirrors ρ κ e e') (taken : e.step (.dropRound id) = some next) :
    Echoes ρ κ e' (.dropRound id) next := by
  obtain ⟨hround, rfl⟩ := step_dropRound_eq_some taken
  obtain ⟨r, hr⟩ := Table.mem_iff.1 hround
  obtain ⟨hid, hr', -⟩ := h.get?_round hr
  have hround' : e'.rounds.contains (ρ id) = true := Table.mem_iff.2 ⟨_, hr'⟩
  exact ⟨_, if_pos hround', h.dropRound hid⟩

/-- Whatever the first engine does for something that both have, the second can do as well. -/
theorem step (h : Mirrors ρ κ e e') {action : EngineAction} (taken : e.step action = some next)
    (idle : action.begins = true → e.preparations = ∅)
    (kept : ∀ id, action.preparation? e.nextId = some id → ρ.Keeps id)
    (begun : ∀ level, action = .beginCollect level → ρ.Keeps e.nextId)
    (made : e.nextCollector < next.1.nextCollector → κ.Keeps e.nextCollector) :
    Echoes ρ κ e' action next := by
  cases action with
  | beginPrepare plan cancelled =>
      obtain rfl := Option.some.inj taken
      exact h.beginPrepare (idle rfl) (kept _ rfl) plan cancelled
  | cancel id => exact h.cancel (kept id rfl) taken
  | pinged id result => exact h.pinged (kept id rfl) taken
  | retry id => exact h.retry (kept id rfl) taken
  | noticeCancel id => exact h.noticeCancel (kept id rfl) taken
  | copyLive id => exact h.copyLive (kept id rfl) taken
  | visit id creation noticed => exact h.visit (kept id rfl) made taken
  | collectorPrepared id result => exact h.collectorPrepared (kept id rfl) taken
  | conclude id => exact h.conclude (kept id rfl) taken
  | swap id commits => exact h.swap (kept id rfl) taken
  | cleanUp id finished => exact h.cleanUp (kept id rfl) taken
  | prune id => exact h.prune (kept id rfl) taken
  | dropPreparation id => exact h.dropPreparation (kept id rfl) taken
  | beginCollect level =>
      obtain rfl := Option.some.inj taken
      exact h.beginCollect (begun level rfl) level
  | enter id now => exact h.enter taken
  | startTask id domain => exact h.startTask taken
  | finishTask id domain result => exact h.finishTask taken
  | loseTask id domain => exact h.loseTask taken
  | close id now => exact h.close taken
  | dropRound id => exact h.dropsRound taken

end Mirrors

end Engine

end Cadence
