import Cadence.Proofs.Engine.Tasks

/-!
# The domains of the live plan

A preparation passes through the domains of its plan and gets a collector for
each, so whatever goes live has collectors for the domains of its plan and for no
others.  A round finds these collectors, and nothing replaces them while it
lasts: until it is over it has a task for each domain of its level in the live
plan.  All this holds however many preparations are under way and however they
end.
-/

namespace Cadence

namespace LiveState

/-- The domains of the live plan; none if there is no plan. -/
def domains (live : LiveState) : List String := (live.plan.map (·.domains)).getD []

/-- The domains of a level in the live plan, with what is asked of them. -/
def asked (live : LiveState) (level : String) : Table String Domain :=
  ((live.plan.bind (·.levelNamed? level)).map (·.collect)).getD ∅

/-- The live collectors are those of the domains of the live plan. -/
structure Complete (live : LiveState) : Prop where
  levels : ∀ name, live.levels.get? name =
    live.plan.bind (fun plan => (LiveState.ofPlan plan live.collectors []).levels.get? name)
  collectors : ∀ d, d ∈ live.collectors ↔ d ∈ live.domains

/-- The live plan has this name and a level of this name, whose collectors are those of its
domains. -/
structure Offers (live : LiveState) (plan level : String) : Prop where
  name : live.plan.map (·.name) = some plan
  known : (live.plan.bind (·.levelNamed? level)).isSome = true
  collectors : ∃ collectors, live.levels.get? level = some collectors ∧
    ∀ d, d ∈ collectors ↔ d ∈ live.asked level

variable {live : LiveState}

theorem mem_domains_of_asked {level d : String} (h : d ∈ live.asked level) : d ∈ live.domains := by
  rw [asked] at h
  rw [domains]
  cases hplan : live.plan with
  | none => simp [hplan, Table.mem_iff] at h
  | some plan =>
      cases hlevel : plan.levelNamed? level with
      | none => simp [hplan, hlevel, Table.mem_iff] at h
      | some l =>
          simp only [hplan, hlevel, Option.bind_some, Option.map_some, Option.getD_some] at h
          exact Plan.mem_domains_of_levelNamed? hlevel h

/-- Each domain of a level in the live plan has a collector there, and no other has one. -/
theorem Complete.isSome_level (h : live.Complete) (level d : String) :
    (((live.levels.get? level).getD ∅).get? d).isSome = true ↔ d ∈ live.asked level := by
  rw [h.levels, asked]
  cases hplan : live.plan with
  | none => simp [Table.mem_iff]
  | some plan =>
      simp only [Option.bind_some, get?_levels_ofPlan]
      cases hlevel : plan.levelNamed? level with
      | none => simp [Table.mem_iff]
      | some l =>
          simp only [Option.map_some, Option.getD_some, Table.get?_filterMap, Table.getElem?_eq_get?]
          constructor
          · intro hsome
            obtain ⟨c, hc⟩ := Option.isSome_iff_exists.1 hsome
            obtain ⟨domain, hdomain, -⟩ := Option.bind_eq_some_iff.1 hc
            exact Table.mem_iff.2 ⟨domain, hdomain⟩
          · intro hd
            obtain ⟨domain, hdomain⟩ := Table.mem_iff.1 hd
            have hmem : d ∈ live.domains := by
              rw [domains, hplan]
              exact Plan.mem_domains_of_levelNamed? hlevel hd
            obtain ⟨c, hc⟩ := Table.mem_iff.1 ((h.collectors d).2 hmem)
            rw [hdomain, Option.bind_some, hc]
            rfl

theorem Complete.offers (h : live.Complete) {plan : Plan} (hplan : live.plan = some plan)
    {level : Level} (hlevel : level ∈ plan.levels.values) : live.Offers plan.name level.name := by
  have hfound : (plan.levelNamed? level.name).isSome = true :=
    List.find?_isSome.2 ⟨level, List.mem_reverse.2 hlevel, by simp⟩
  obtain ⟨l, hl⟩ := Option.isSome_iff_exists.1 hfound
  refine ⟨by rw [hplan]; rfl, by rw [hplan]; exact hfound, ?_⟩
  have hlevels := h.levels level.name
  rw [hplan, Option.bind_some, get?_levels_ofPlan, hl, Option.map_some] at hlevels
  refine ⟨_, hlevels, fun d => ?_⟩
  rw [← h.isSome_level level.name d, hlevels, Option.getD_some, Table.mem_iff,
    Option.isSome_iff_exists]

end LiveState

namespace Preparation

/-- The domains that a preparation has still to get a collector for. -/
def ahead (p : Preparation) : List String :=
  match p.stage with
  | .connecting _ | .retrying _ | .copying => p.plan.domains
  | .visiting rest => rest
  | .preparing domain _ rest => domain :: rest
  | .swapping | .swapped _ | .pruning => []

/-- No domain of the plan has been passed over, and no other has a collector. -/
def Complete (p : Preparation) : Prop :=
  ∀ d, d ∈ p.ahead ∨ d ∈ p.collectors ↔ d ∈ p.plan.domains

variable {p p' : Preparation}

theorem complete_new (plan : Plan) (cancelled : Bool) :
    ({ plan, cancelled } : Preparation).Complete := by
  intro d
  simp [ahead, Table.mem_iff]

theorem Complete.congr (h : p.Complete) (plan : p'.plan = p.plan)
    (collectors : p'.collectors = p.collectors) (ahead : p'.ahead = p.ahead) : p'.Complete := by
  intro d
  rw [plan, collectors, ahead]
  exact h d

theorem Complete.collected (h : p.Complete) {domain : String} {collector : Nat}
    {rest : List String} (hstage : p.stage = .preparing domain collector rest)
    (cleanups : List Cleanup) :
    ({ p with
      collectors := p.collectors.insert domain collector
      cleanups
      stage := .visiting rest } : Preparation).Complete := by
  intro d
  rw [← h d]
  simp only [ahead, hstage, Table.mem_insert, List.mem_cons]
  tauto

theorem Complete.mem_collectors (h : p.Complete) (hstage : p.stage = .swapping) (d : String) :
    d ∈ p.collectors ↔ d ∈ p.plan.domains := by
  rw [← h d]
  simp [ahead, hstage]

end Preparation

namespace Engine

/-- An open round is one of the live plan and has a task for each domain of its level there. -/
def Covers (e : Engine) (id : Nat) (r : EngineRound) : Prop :=
  r.stage.plan? = some e.livePlanName ∧
    ∀ d, (e.task? id d).isSome = true ↔ d ∈ e.live.asked r.level

/-- A round that gets at the live state has a task for each domain of its level there.  It is over
at once, with nothing in its batch, just if there is none. -/
theorem tasks_of_enter {e e' : Engine} {id : Nat} {now : Utc} {events : List EngineEvent}
    (h : e.live.Complete) (taken : e.enter id now = some (e', events)) :
    ∃ r, e.rounds.get? id = some r ∧
      (∀ d, (e'.task? id d).isSome = true ↔ d ∈ e.live.asked r.level) ∧
      ((∃ batch, .collected id batch ∈ events ∧ batch.values = ∅ ∧ batch.errors = ∅) ↔
        ∀ d, d ∉ e.live.asked r.level) := by
  obtain ⟨r, hr, -, -, ⟨hempty, hnext⟩ | ⟨hsome, hnext⟩⟩ := enter_eq_some taken
  · cases hnext
    have hnone : ∀ d, d ∉ e.live.asked r.level := fun d => by
      rw [← h.isSome_level, Table.isEmpty_iff.1 hempty]
      simp
    refine ⟨r, hr, fun d => ?_, iff_of_true ?_ hnone⟩
    · simp [hnone d, task?, dropRound, Table.get?_erase]
    · exact ⟨e.emptyBatch r.level now, List.mem_singleton_self _, rfl, rfl⟩
  · cases hnext
    refine ⟨r, hr, fun d => ?_, iff_of_false (by simp) fun hnone => ?_⟩
    · rw [← h.isSome_level, task?_eq_get? (Table.get?_insert_self ..) rfl, Table.get?_map,
        Option.isSome_map]
    · rw [Table.isEmpty_iff.2 (Table.ext_get? fun d => ?_)] at hsome
      · exact Bool.noConfusion hsome
      · rw [Table.get?_empty, ← Option.not_isSome_iff_eq_none, h.isSome_level]
        exact hnone d

/-- Nobody has lost or gained a domain on the way. -/
structure Complete (e : Engine) : Prop where
  live : e.live.Complete
  preparations : ∀ id p, e.preparations.get? id = some p → p.Complete
  rounds : ∀ id r, e.rounds.get? id = some r → r.stage.isQueued = false → e.Covers id r

theorem complete_create (settings : EngineSettings) (board : Board) :
    (create settings board).Complete where
  live := ⟨fun _ => rfl, fun d => by simp [create, say, LiveState.domains, Table.mem_iff]⟩
  preparations := by simp [create, say]
  rounds := by simp [create, say]

variable {e e' : Engine} {id : Nat} {action : EngineAction} {events : List EngineEvent}

namespace Complete

private theorem of_insert (h : e.Complete) {p' : Preparation} (hp' : p'.Complete) (k : Nat)
    (q : Preparation) (hq : (e.preparations.insert id p').get? k = some q) : q.Complete := by
  rw [Table.get?_insert] at hq
  split at hq
  · obtain rfl := Option.some.inj hq
    exact hp'
  · exact h.preparations k q hq

private theorem of_erase (h : e.Complete) (k : Nat) (q : Preparation)
    (hq : (e.preparations.erase id).get? k = some q) : q.Complete :=
  h.preparations k q (Table.get?_of_get?_erase hq)

theorem preparations_step (h : e.Complete) (taken : e.step action = some (e', events)) :
    ∀ k q, e'.preparations.get? k = some q → q.Complete := by
  cases action with
  | beginPrepare plan cancelled =>
      cases taken
      exact of_insert h (Preparation.complete_new plan cancelled)
  | cancel id =>
      obtain ⟨p, hp, hnext⟩ := cancelPreparation_eq_some taken
      cases hnext
      exact of_insert h ((h.preparations id p hp).congr rfl rfl rfl)
  | pinged id result =>
      obtain ⟨p, attempt, hp, hstage, ⟨-, hnext⟩ | ⟨-, hnext⟩⟩ := pinged_eq_some taken <;>
        cases hnext <;>
        exact of_insert h ((h.preparations id p hp).congr rfl rfl
          (by simp only [Preparation.ahead, hstage]))
  | retry id =>
      obtain ⟨p, attempt, hp, hstage, hnext⟩ := retry_eq_some taken
      cases hnext
      exact of_insert h ((h.preparations id p hp).congr rfl rfl
        (by simp only [Preparation.ahead, hstage]))
  | noticeCancel id =>
      obtain ⟨p, -, -, -, hnext⟩ := noticeCancel_eq_some taken
      cases hnext
      exact of_erase h
  | copyLive id =>
      obtain ⟨p, hp, hstage, -, hnext⟩ := copyLive_eq_some taken
      cases hnext
      exact of_insert h ((h.preparations id p hp).congr rfl rfl
        (by simp only [Preparation.ahead, hstage]))
  | visit id creation noticed =>
      obtain ⟨p, domain, rest, made, hp, hstage, ⟨-, _, -, hnext⟩ | ⟨collector, -, hnext⟩⟩ :=
        visit_eq_some taken
      · cases hnext
        exact of_erase h
      · cases hnext
        exact of_insert h ((h.preparations id p hp).congr rfl rfl
          (by simp only [Preparation.ahead, hstage]))
  | collectorPrepared id result =>
      obtain ⟨p, domain, collector, rest, hp, hstage, ⟨_, -, hnext⟩ | ⟨cleanup, -, hnext⟩⟩ :=
        collectorPrepared_eq_some taken
      · cases hnext
        exact of_erase h
      · cases hnext
        exact of_insert h ((h.preparations id p hp).collected hstage _)
  | conclude id =>
      obtain ⟨p, hp, hstage, ⟨-, hnext⟩ | ⟨-, hnext⟩⟩ := conclude_eq_some taken
      · cases hnext
        exact of_erase h
      · cases hnext
        exact of_insert h ((h.preparations id p hp).congr rfl rfl
          (by simp only [Preparation.ahead, hstage]))
  | swap id commits =>
      cases commits with
      | all =>
          obtain ⟨p, hp, hstage, -, hnext⟩ := swap_all_eq_some taken
          cases hnext
          exact of_insert h ((h.preparations id p hp).congr rfl rfl
            (by simp only [Preparation.ahead, hstage]))
      | only domains =>
          obtain ⟨p, done, -, -, hnext⟩ := swap_only_eq_some taken
          cases hnext
          exact of_erase h
  | cleanUp id finished =>
      obtain ⟨p, cleanups, hp, hstage, ⟨-, hnext⟩ | ⟨n, -, -, hnext⟩⟩ := cleanUp_eq_some taken
      · cases hnext
        exact of_insert h ((h.preparations id p hp).congr rfl rfl
          (by simp only [Preparation.ahead, hstage]))
      · cases hnext
        exact of_erase h
  | prune id =>
      obtain ⟨p, -, -, -, hnext⟩ := prune_eq_some taken
      cases hnext
      exact of_erase (e := e) h
  | dropPreparation id =>
      obtain ⟨p, -, -, hnext⟩ := dropPreparation_eq_some taken
      cases hnext
      exact of_erase h
  | _ =>
      rw [(round_frame rfl taken).2.1]
      exact h.preparations

theorem live_step (h : e.Complete) (taken : e.step action = some (e', events)) :
    e'.live.Complete := by
  have kept : e'.live = e.live → e'.live.Complete := fun hlive => hlive ▸ h.live
  cases hkind : action.isOfRound with
  | true => exact kept (round_frame hkind taken).1
  | false =>
      have hprepares := prepares_of_step hkind taken
      generalize signals events = raised at hprepares
      cases hprepares with
      | @swaps id p same hp hstage =>
          rw [same.live]
          exact ⟨fun _ => rfl, (h.preparations id p hp).mem_collectors hstage⟩
      | begins same => exact kept same.live
      | cancels same => exact kept same.live
      | goesOn same => exact kept same.live
      | concludes same => exact kept same.live
      | goesLive same => exact kept same.live
      | breaksOff same => exact kept same.live
      | ends same => exact kept same.live
      | dropped same => exact kept same.live

/-- A round gets its tasks when it gets at the live state, and keeps them. -/
theorem rounds_step (h : e.Complete) (numbered : e.Numbered)
    (taken : e.step action = some (e', events)) {r' : EngineRound}
    (hr' : e'.rounds.get? id = some r') (hopen : r'.stage.isQueued = false) : e'.Covers id r' := by
  obtain ⟨r, hr, hlevel, hwas⟩ := open_step taken hr' hopen
  have hlive : e'.live = e.live := by
    rcases hwas with ⟨hwas, -⟩ | ⟨now, rfl, -⟩
    · exact live_of_open taken hr hwas
    · exact (round_frame rfl taken).1
  refine ⟨?_, fun d => ?_⟩
  · rw [livePlanName, hlive]
    rcases hwas with ⟨hwas, hplan⟩ | ⟨now, -, hplan⟩
    · exact hplan.trans (h.rounds id r hr hwas).1
    · exact hplan
  have move := taskMove_of_step numbered taken (Table.mem_iff.2 ⟨r', hr'⟩) d
  have kept : ∀ {t t' : RoundTask}, e.task? id d = some t → (∀ now, action ≠ .enter id now) →
      ((some t').isSome = true ↔ d ∈ e.live.asked r.level) := by
    intro t t' ht hother
    obtain ⟨hwas, -⟩ := hwas.resolve_right (fun ⟨now, h, _⟩ => hother now h)
    rw [← (h.rounds id r hr hwas).2 d, ht]
    rfl
  rw [hlive, ← hlevel]
  generalize e'.task? id d = t' at move
  generalize ht : e.task? id d = t at move
  cases move with
  | stays hother =>
      rcases hwas with ⟨hwas, -⟩ | ⟨now, rfl, -⟩
      · rw [← ht]
        exact (h.rounds id r hr hwas).2 d
      · simp [EngineAction.isOfTask] at hother
  | appears hr₀ =>
      obtain rfl := Option.some.inj (hr.symm.trans hr₀)
      rw [Option.isSome_map]
      exact h.live.isSome_level r.level d
  | starts => exact kept ht (by simp)
  | finishes => exact kept ht (by simp)
  | dies => exact kept ht (by simp)

theorem step (h : e.Complete) (numbered : e.Numbered) (taken : e.step action = some (e', events)) :
    e'.Complete where
  live := h.live_step taken
  preparations := h.preparations_step taken
  rounds _ _ hr' hopen := h.rounds_step numbered taken hr' hopen

end Complete

theorem complete_of_run {settings : EngineSettings} {board : Board}
    {history : List (Step Engine EngineAction EngineEvent)}
    (run : Run step (create settings board) history e) : e.Complete := by
  induction run with
  | nil => exact complete_create settings board
  | snoc run taken ih => exact ih.step (numbered_of_run run) taken

end Engine

end Cadence
