import Cadence.Proofs.Scheduler.Pausing
import Cadence.Proofs.Scheduler.Serving

/-!
# Changes and their preparations

Every change whose task is at work has one preparation in the engine, for the
same plan, and cancelled just when the change is; and the engine has no others.
-/

namespace Cadence.Scheduler

/-- Nothing happens to preparations, except that some are cancelled. -/
def CancelsAtMost (before after : Table Nat Preparation) : Prop :=
  ∀ id, after.get? id = before.get? id ∨
    after.get? id = (before.get? id).map (fun p => { p with cancelled := true })

variable {s s' : Scheduler} {action : Move} {events : List SchedulerEvent}

theorem linked_create (settings : SchedulerSettings) (engine : EngineSettings) (board : Board)
    (store : PlanStore) (sinks : List String) :
    (create settings (.create engine board) store sinks).Linked where
  changes := by simp [create, say, setStatus]
  preparations := by simp [create, say, setStatus, Engine.create, Engine.say]
  applying := by simp [create, say, setStatus]
  owned := by simp [create, say, setStatus, Engine.create, Engine.say]
  distinct := by simp [create, say, setStatus]
  finishing := by simp [create, say, setStatus]

theorem Linked.apart (h : s.Linked) (hchanges : s'.changes = s.changes)
    (hnextId : s.nextId ≤ s'.nextId) (hapart : s.engine.Apart s'.engine) : s'.Linked where
  changes id c hc := by
    rw [hchanges] at hc
    exact Nat.lt_of_lt_of_le (h.changes id c hc) hnextId
  preparations id p hp := by
    rw [hapart.preparations] at hp
    exact Nat.lt_of_lt_of_le (h.preparations id p hp) hapart.nextId
  applying := by
    rw [hchanges, hapart.preparations]
    exact h.applying
  owned := by
    rw [hchanges, hapart.preparations]
    exact h.owned
  distinct := by
    rw [hchanges]
    exact h.distinct
  finishing := by
    rw [hchanges]
    exact h.finishing

theorem Linked.accept (h : s.Linked) {c : PlanChange} (hspawned : c.stage = .spawned)
    (hchanges : s'.changes = s.changes.insert s.nextId c) (hnextId : s'.nextId = s.nextId + 1)
    (hapart : s.engine.Apart s'.engine) : s'.Linked := by
  have old : ∀ {id d preparation}, s'.changes.get? id = some d → d.stage = .applying preparation →
      s.changes.get? id = some d := by
    intro id d preparation hd hstage
    rw [hchanges, Table.get?_insert] at hd
    split at hd
    · obtain rfl := Option.some.inj hd
      simp [hspawned] at hstage
    · exact hd
  refine ⟨fun id d hd => ?_, fun id p hp => ?_, fun id d preparation hd hstage => ?_,
    fun preparation p hp => ?_, fun id id' d d' preparation hd hd' hstage hstage' => ?_,
    fun id d outcome told hd hstage => ?_⟩
  · rw [hchanges, Table.get?_insert] at hd
    split at hd
    · omega
    · have hid := h.changes id d hd
      omega
  · rw [hapart.preparations] at hp
    exact Nat.lt_of_lt_of_le (h.preparations id p hp) hapart.nextId
  · rw [hapart.preparations]
    exact h.applying id d preparation (old hd hstage) hstage
  · rw [hapart.preparations] at hp
    obtain ⟨id, d, hd, hstage⟩ := h.owned preparation p hp
    have hid := h.changes id d hd
    refine ⟨id, d, ?_, hstage⟩
    rw [hchanges, Table.get?_insert, if_neg (Nat.ne_of_lt hid)]
    exact hd
  · exact h.distinct id id' d d' preparation (old hd hstage) (old hd' hstage') hstage hstage'
  · rw [hchanges, Table.get?_insert] at hd
    split at hd
    · obtain rfl := Option.some.inj hd
      simp [hspawned] at hstage
    · exact h.finishing id d outcome told hd hstage

theorem Linked.begin (h : s.Linked) {change : Nat} {c : PlanChange}
    (hc : s.changes.get? change = some c) (hspawned : c.stage = .spawned)
    (hchanges : s'.changes =
      s.changes.insert change { c with stage := .applying s.engine.nextId })
    (hnextId : s'.nextId = s.nextId) (hengine : s'.engine.nextId = s.engine.nextId + 1)
    (hpreparations : s'.engine.preparations = s.engine.preparations.insert s.engine.nextId
      { plan := c.plan, cancelled := c.cancelled }) : s'.Linked := by
  have fresh : ∀ {id d}, s.changes.get? id = some d → d.stage ≠ .applying s.engine.nextId := by
    intro id d hd hstage
    obtain ⟨p, hp, -⟩ := h.applying id d _ hd hstage
    exact Nat.lt_irrefl _ (h.preparations _ p hp)
  refine ⟨fun id d hd => ?_, fun id p hp => ?_, fun id d preparation hd hstage => ?_,
    fun preparation p hp => ?_, fun id id' d d' preparation hd hd' hstage hstage' => ?_,
    fun id d outcome told hd hstage => ?_⟩
  · rw [hchanges, Table.get?_insert] at hd
    rw [hnextId]
    split at hd
    · next hid => exact hid ▸ h.changes change c hc
    · exact h.changes id d hd
  · rw [hpreparations, Table.get?_insert] at hp
    split at hp
    · omega
    · have hid := h.preparations id p hp
      omega
  · rw [hpreparations, Table.get?_insert]
    rw [hchanges, Table.get?_insert] at hd
    split at hd
    · obtain rfl := Option.some.inj hd
      obtain rfl : s.engine.nextId = preparation := by simpa using hstage
      exact ⟨_, if_pos rfl, rfl, rfl⟩
    · have hother : preparation ≠ s.engine.nextId := by
        rintro rfl
        exact fresh hd hstage
      rw [if_neg hother]
      exact h.applying id d preparation hd hstage
  · rw [hpreparations, Table.get?_insert] at hp
    split at hp
    · next hid =>
        refine ⟨change, { c with stage := .applying s.engine.nextId }, ?_, by rw [hid]⟩
        rw [hchanges, Table.get?_insert_self]
    · obtain ⟨id, d, hd, hstage⟩ := h.owned preparation p hp
      have hother : id ≠ change := by
        rintro rfl
        rw [hc] at hd
        obtain rfl := Option.some.inj hd
        simp [hspawned] at hstage
      refine ⟨id, d, ?_, hstage⟩
      rw [hchanges, Table.get?_insert, if_neg hother]
      exact hd
  · rw [hchanges, Table.get?_insert] at hd hd'
    split at hd <;> split at hd'
    · next hid hid' => exact hid.trans hid'.symm
    · obtain rfl := Option.some.inj hd
      obtain rfl : s.engine.nextId = preparation := by simpa using hstage
      exact absurd hstage' (fresh hd')
    · obtain rfl := Option.some.inj hd'
      obtain rfl : s.engine.nextId = preparation := by simpa using hstage'
      exact absurd hstage (fresh hd)
    · exact h.distinct id id' d d' preparation hd hd' hstage hstage'
  · rw [hchanges, Table.get?_insert] at hd
    split at hd
    · obtain rfl := Option.some.inj hd
      simp at hstage
    · exact h.finishing id d outcome told hd hstage

theorem Linked.goOn (h : s.Linked) {id : Nat} {p p' : Preparation}
    (hp : s.engine.preparations.get? id = some p)
    (hpreparations : s'.engine.preparations = s.engine.preparations.insert id p')
    (hplan : p'.plan = p.plan) (hcancelled : p'.cancelled = p.cancelled)
    (hchanges : s'.changes = s.changes) (hnextId : s'.nextId = s.nextId)
    (hengine : s'.engine.nextId = s.engine.nextId) : s'.Linked := by
  refine ⟨fun k c hc => ?_, fun k q hq => ?_, fun k c preparation hc hstage => ?_,
    fun preparation q hq => ?_, ?_, ?_⟩
  · rw [hchanges] at hc
    exact hnextId ▸ h.changes k c hc
  · rw [hpreparations, Table.get?_insert] at hq
    rw [hengine]
    split at hq
    · next hid => exact hid ▸ h.preparations id p hp
    · exact h.preparations k q hq
  · rw [hchanges] at hc
    obtain ⟨q, hq, hqplan, hqcancelled⟩ := h.applying k c preparation hc hstage
    rw [hpreparations, Table.get?_insert]
    split
    · next hid =>
        subst hid
        rw [hp] at hq
        obtain rfl := Option.some.inj hq
        exact ⟨p', rfl, hplan.trans hqplan, hcancelled.trans hqcancelled⟩
    · exact ⟨q, hq, hqplan, hqcancelled⟩
  · rw [hchanges]
    rw [hpreparations, Table.get?_insert] at hq
    split at hq
    · next hid => exact hid ▸ h.owned id p hp
    · exact h.owned preparation q hq
  · rw [hchanges]
    exact h.distinct
  · rw [hchanges]
    exact h.finishing

/-- A preparation ends, and the stage of its change says so. -/
theorem Linked.conclude (h : s.Linked) {id change : Nat} {c : PlanChange} {stage : ChangeStage}
    (hc : s.changes.get? change = some c) (hstage : c.stage = .applying id)
    (hover : ∀ preparation, stage ≠ .applying preparation)
    (hfinishing : ∀ outcome told, stage = .finishing outcome told →
      outcome ≠ .panicked ∧ (outcome = .cancelled → c.cancelled = true))
    (hchanges : s'.changes = s.changes.insert change { c with stage })
    (hnextId : s'.nextId = s.nextId) (hengine : s'.engine.nextId = s.engine.nextId)
    (hpreparations : s'.engine.preparations = s.engine.preparations.erase id) : s'.Linked := by
  have old : ∀ {k d preparation}, s'.changes.get? k = some d → d.stage = .applying preparation →
      s.changes.get? k = some d ∧ k ≠ change := by
    intro k d preparation hd hstage
    rw [hchanges, Table.get?_insert] at hd
    split at hd
    · obtain rfl := Option.some.inj hd
      exact absurd hstage (hover preparation)
    · next hother => exact ⟨hd, hother⟩
  refine ⟨fun k d hd => ?_, fun k p hp => ?_, fun k d preparation hd happlying => ?_,
    fun preparation p hp => ?_, fun k k' d d' preparation hd hd' happlying happlying' => ?_,
    fun k d outcome told hd hstage' => ?_⟩
  · rw [hchanges, Table.get?_insert] at hd
    rw [hnextId]
    split at hd
    · next hid => exact hid ▸ h.changes change c hc
    · exact h.changes k d hd
  · rw [hpreparations] at hp
    exact hengine ▸ h.preparations k p (Table.get?_of_get?_erase hp)
  · obtain ⟨hd, hother⟩ := old hd happlying
    have hpreparation : preparation ≠ id := by
      rintro rfl
      exact hother (h.distinct k change d c preparation hd hc happlying hstage)
    rw [hpreparations, Table.get?_erase, if_neg hpreparation]
    exact h.applying k d preparation hd happlying
  · rw [hpreparations, Table.get?_erase] at hp
    split at hp
    · contradiction
    · next hother =>
        obtain ⟨k, d, hd, happlying⟩ := h.owned preparation p hp
        have hk : k ≠ change := by
          rintro rfl
          rw [hc] at hd
          obtain rfl := Option.some.inj hd
          rw [hstage] at happlying
          exact hother (ChangeStage.applying.inj happlying).symm
        refine ⟨k, d, ?_, happlying⟩
        rw [hchanges, Table.get?_insert, if_neg hk]
        exact hd
  · exact h.distinct k k' d d' preparation (old hd happlying).1 (old hd' happlying').1 happlying
      happlying'
  · rw [hchanges, Table.get?_insert] at hd
    split at hd
    · obtain rfl := Option.some.inj hd
      exact hfinishing outcome told hstage'
    · exact h.finishing k d outcome told hd hstage'

/-- The task of a change goes on without its preparation. -/
theorem Linked.finish (h : s.Linked) {change : Nat} {c : PlanChange} {stage : ChangeStage}
    (hc : s.changes.get? change = some c)
    (hpast : ∀ preparation, c.stage ≠ .applying preparation)
    (hover : ∀ preparation, stage ≠ .applying preparation)
    (hfinishing : ∀ outcome told, stage = .finishing outcome told →
      outcome ≠ .panicked ∧ (outcome = .cancelled → c.cancelled = true))
    (hchanges : s'.changes = s.changes.insert change { c with stage })
    (hnextId : s'.nextId = s.nextId) (hapart : s.engine.Apart s'.engine) : s'.Linked := by
  have same : ∀ {k d preparation}, d.stage = .applying preparation →
      (s'.changes.get? k = some d ↔ s.changes.get? k = some d) := by
    intro k d preparation happlying
    rw [hchanges, Table.get?_insert]
    split
    · next hk =>
        subst hk
        refine iff_of_false (fun hd => ?_) fun hd => ?_
        · obtain rfl := Option.some.inj hd
          exact hover preparation happlying
        · obtain rfl := Option.some.inj (hc.symm.trans hd)
          exact hpast preparation happlying
    · exact Iff.rfl
  refine ⟨fun k d hd => ?_, fun k p hp => ?_, fun k d preparation hd happlying => ?_,
    fun preparation p hp => ?_, fun k k' d d' preparation hd hd' happlying happlying' => ?_,
    fun k d outcome told hd hstage' => ?_⟩
  · rw [hchanges, Table.get?_insert] at hd
    rw [hnextId]
    split at hd
    · next hk => exact hk ▸ h.changes change c hc
    · exact h.changes k d hd
  · rw [hapart.preparations] at hp
    exact Nat.lt_of_lt_of_le (h.preparations k p hp) hapart.nextId
  · rw [hapart.preparations]
    exact h.applying k d preparation ((same happlying).1 hd) happlying
  · rw [hapart.preparations] at hp
    obtain ⟨k, d, hd, happlying⟩ := h.owned preparation p hp
    exact ⟨k, d, (same happlying).2 hd, happlying⟩
  · exact h.distinct k k' d d' preparation ((same happlying).1 hd) ((same happlying').1 hd')
      happlying happlying'
  · rw [hchanges, Table.get?_insert] at hd
    split at hd
    · obtain rfl := Option.some.inj hd
      exact hfinishing outcome told hstage'
    · exact h.finishing k d outcome told hd hstage'

theorem cancelledIn_of_applying {change preparation : Nat} {c : PlanChange}
    (hc : s.changes.get? change = some c) (hstage : c.stage = .applying preparation) :
    s.cancelledIn change =
      s.engine.preparations.modify preparation (fun p => { p with cancelled := true }) := by
  obtain ⟨plan, levels, state, cancelled, stage⟩ := c
  subst hstage
  simp [cancelledIn, hc]

theorem get?_cancelledIn_of_ne {change preparation : Nat}
    (hother : ∀ c, s.changes.get? change = some c → c.stage ≠ .applying preparation) :
    (s.cancelledIn change).get? preparation = s.engine.preparations.get? preparation := by
  unfold cancelledIn
  split
  · next plan levels state cancelled other hc =>
      have hne : preparation ≠ other := fun heq => hother _ hc (heq ▸ rfl)
      rw [Table.get?_modify, if_neg hne]
  · rfl

theorem cancelsAtMost_cancelledIn (s : Scheduler) (change : Nat) :
    CancelsAtMost s.engine.preparations (s.cancelledIn change) := by
  intro id
  unfold cancelledIn
  split
  · rw [Table.get?_modify]
    split
    · next hid => exact .inr (hid ▸ rfl)
    · exact .inl rfl
  · exact .inl rfl

theorem CancelsAtMost.was {before after : Table Nat Preparation} (h : CancelsAtMost before after)
    {id : Nat} {later : Preparation} (hlater : after.get? id = some later) :
    ∃ p, before.get? id = some p ∧ (later = p ∨ later = { p with cancelled := true }) := by
  rcases h id with hsame | hcancelled
  · exact ⟨later, hsame.symm.trans hlater, .inl rfl⟩
  · obtain ⟨p, hp, rfl⟩ := Option.map_eq_some_iff.1 (hcancelled.symm.trans hlater)
    exact ⟨p, hp, .inr rfl⟩

theorem Serves.cancelsAtMost {own : List SchedulerEvent} (serves : Serves s s' action own) :
    CancelsAtMost s.engine.preparations s'.engine.preparations := by
  have apart : s.engine.Apart s'.engine →
      CancelsAtMost s.engine.preparations s'.engine.preparations :=
    fun hapart _ => .inl (by rw [hapart.preparations])
  cases serves with
  | asks _ _ hapart => exact apart hapart
  | refuses _ _ _ hapart => exact apart hapart
  | accepts _ _ _ _ hapart => exact apart hapart
  | awaits _ _ _ _ _ _ hengine =>
      rw [hengine]
      exact cancelsAtMost_cancelledIn s _
  | joins _ _ _ _ hapart => exact apart hapart
  | answers _ _ _ hapart => exact apart hapart
  | closes _ _ _ hapart => exact apart hapart
  | drops _ _ _ hapart => exact apart hapart

theorem Linked.cancel (h : s.Linked) {change : Nat}
    (hchanges : s'.changes = s.changes.modify change (fun c => { c with cancelled := true }))
    (hnextId : s'.nextId = s.nextId) (hengine : s'.engine.nextId = s.engine.nextId)
    (hpreparations : s'.engine.preparations = s.cancelledIn change) : s'.Linked := by
  have old : ∀ {id d}, s'.changes.get? id = some d → ∃ c, s.changes.get? id = some c ∧
      d = if id = change then { c with cancelled := true } else c := by
    intro id d hd
    rw [hchanges, Table.get?_modify] at hd
    split at hd
    · next hid =>
        obtain ⟨c, hc, rfl⟩ := Option.map_eq_some_iff.1 hd
        exact ⟨c, hid ▸ hc, (if_pos hid).symm⟩
    · next hid => exact ⟨d, hd, (if_neg hid).symm⟩
  have stage : ∀ {id d}, s'.changes.get? id = some d →
      ∃ c, s.changes.get? id = some c ∧ d.stage = c.stage := by
    intro id d hd
    obtain ⟨c, hc, rfl⟩ := old hd
    exact ⟨c, hc, by split <;> rfl⟩
  refine ⟨fun id d hd => ?_, fun id p hp => ?_, fun id d preparation hd hstage => ?_,
    fun preparation p hp => ?_, fun id id' d d' preparation hd hd' hstage hstage' => ?_,
    fun id d outcome told hd hstage => ?_⟩
  · obtain ⟨c, hc, -⟩ := old hd
    exact hnextId ▸ h.changes id c hc
  · rw [hpreparations] at hp
    obtain ⟨q, hq, -⟩ := (cancelsAtMost_cancelledIn s change).was hp
    exact hengine ▸ h.preparations id q hq
  · obtain ⟨c, hc, rfl⟩ := old hd
    rw [hpreparations]
    split at hstage
    · next hid =>
        subst hid
        obtain ⟨p, hp, hplan, -⟩ := h.applying id c preparation hc hstage
        rw [cancelledIn_of_applying hc hstage, Table.get?_modify, if_pos rfl, hp]
        exact ⟨_, rfl, by simpa using hplan, by simp⟩
    · next hid =>
        rw [get?_cancelledIn_of_ne]
        · simpa [hid] using h.applying id c preparation hc hstage
        · exact fun d hd happlying => hid (h.distinct id change c d preparation hc hd hstage happlying)
  · rw [hpreparations] at hp
    obtain ⟨q, hq, -⟩ := (cancelsAtMost_cancelledIn s change).was hp
    obtain ⟨id, c, hc, hstage⟩ := h.owned preparation q hq
    by_cases hid : id = change
    · refine ⟨id, { c with cancelled := true }, ?_, hstage⟩
      rw [hchanges, Table.get?_modify, if_pos hid, ← hid, hc]
      rfl
    · refine ⟨id, c, ?_, hstage⟩
      rw [hchanges, Table.get?_modify, if_neg hid, hc]
  · obtain ⟨c, hc, hcstage⟩ := stage hd
    obtain ⟨c', hc', hcstage'⟩ := stage hd'
    exact h.distinct id id' c c' preparation hc hc' (hcstage ▸ hstage) (hcstage' ▸ hstage')
  · obtain ⟨c, hc, rfl⟩ := old hd
    by_cases hid : id = change
    · rw [if_pos hid] at hstage ⊢
      exact ⟨(h.finishing id c outcome told hc hstage).1, fun _ => rfl⟩
    · rw [if_neg hid] at hstage ⊢
      exact h.finishing id c outcome told hc hstage

/-! ## Runs -/

theorem Linked.serves {own : List SchedulerEvent} (h : s.Linked)
    (serves : Serves s s' action own) : s'.Linked := by
  cases serves with
  | asks _ hcontrol hapart =>
      exact h.apart (congrArg Control.changes hcontrol)
        (Nat.le_of_succ_le (Nat.le_of_eq (congrArg Control.nextId hcontrol).symm)) hapart
  | refuses _ _ hcontrol hapart =>
      exact h.apart (congrArg Control.changes hcontrol)
        (Nat.le_of_eq (congrArg Control.nextId hcontrol).symm) hapart
  | accepts _ _ _ hcontrol hapart =>
      exact h.accept rfl (congrArg Control.changes hcontrol) (congrArg Control.nextId hcontrol)
        hapart
  | awaits _ _ _ _ _ hcontrol hengine =>
      exact h.cancel (congrArg Control.changes hcontrol) (congrArg Control.nextId hcontrol)
        (by rw [hengine]) (by rw [hengine])
  | joins _ _ _ hcontrol hapart =>
      exact h.apart (congrArg Control.changes hcontrol)
        (Nat.le_of_eq (congrArg Control.nextId hcontrol).symm) hapart
  | answers _ _ hcontrol hapart =>
      exact h.apart (congrArg Control.changes hcontrol)
        (Nat.le_of_eq (congrArg Control.nextId hcontrol).symm) hapart
  | closes _ _ hcontrol hapart =>
      exact h.apart (congrArg Control.changes hcontrol)
        (Nat.le_of_eq (congrArg Control.nextId hcontrol).symm) hapart
  | drops _ _ hcontrol hapart =>
      exact h.apart (congrArg Control.changes hcontrol)
        (Nat.le_of_eq (congrArg Control.nextId hcontrol).symm) hapart

theorem Linked.proceeds {own : List SchedulerEvent} (h : s.Linked)
    (proceeds : Proceeds s s' action own) : s'.Linked := by
  cases proceeds with
  | works _ hcontrol hapart =>
      exact h.apart (congrArg Control.changes hcontrol)
        (Nat.le_of_eq (congrArg Control.nextId hcontrol).symm) hapart
  | pauses hcontrol hapart =>
      exact h.apart (congrArg Control.changes hcontrol)
        (Nat.le_of_eq (congrArg Control.nextId hcontrol).symm) hapart
  | begins hc hspawned hcontrol _ hnextId hpreparations =>
      exact h.begin hc hspawned (congrArg Control.changes hcontrol)
        (congrArg Control.nextId hcontrol) hnextId hpreparations
  | goesOn hcontrol hsteady hp hnext hplan hcancelled =>
      exact h.goOn hp hnext hplan hcancelled (congrArg Control.changes hcontrol)
        (congrArg Control.nextId hcontrol) hsteady.nextId
  | swaps hcontrol hsteady hp _ hnext =>
      exact h.goOn hp hnext rfl rfl (congrArg Control.changes hcontrol)
        (congrArg Control.nextId hcontrol) hsteady.nextId
  | goesLive hsteady hp _ hnext _ _ hcontrol =>
      exact h.goOn hp hnext rfl rfl (congrArg Control.changes hcontrol)
        (congrArg Control.nextId hcontrol) hsteady.nextId
  | breaksOff hsteady _ _ hnext hc happlying hcontrol =>
      exact h.conclude hc happlying (by simp) (by simp) (congrArg Control.changes hcontrol)
        (congrArg Control.nextId hcontrol) hsteady.nextId hnext
  | panics hsteady _ _ hnext hc happlying hcontrol =>
      exact h.conclude hc happlying (by simp) (by simp) (congrArg Control.changes hcontrol)
        (congrArg Control.nextId hcontrol) hsteady.nextId hnext
  | concludes hsteady hp hends hother hnext hc happlying hcontrol =>
      refine h.conclude hc happlying (by simp) (fun outcome told hfinishing => ?_)
        (congrArg Control.changes hcontrol) (congrArg Control.nextId hcontrol) hsteady.nextId hnext
      obtain ⟨rfl, -⟩ := ChangeStage.finishing.inj hfinishing
      refine ⟨hother, ?_⟩
      rintro rfl
      obtain ⟨q, hq, -, hcancelled⟩ := h.applying _ _ _ hc happlying
      obtain rfl := Option.some.inj (hp.symm.trans hq)
      exact hcancelled.symm.trans hends.was_cancelled
  | reports hc hstage hcontrol hapart =>
      refine h.finish hc (by simp [hstage]) (by simp) (fun outcome told hfinishing => ?_)
        (congrArg Control.changes hcontrol) (congrArg Control.nextId hcontrol) hapart
      obtain ⟨rfl, -⟩ := ChangeStage.finishing.inj hfinishing
      exact h.finishing _ _ _ _ hc hstage
  | ends hc hstage _ hcontrol hapart =>
      exact h.finish hc (by simp [hstage]) (by simp) (by simp) (congrArg Control.changes hcontrol)
        (congrArg Control.nextId hcontrol) hapart

theorem Linked.move (h : s.Linked) (taken : s.move action = some (s', events)) : s'.Linked :=
  (serves_or_proceeds h taken).elim h.serves h.proceeds

theorem linked_of_run {start last : Scheduler} {history : History} (h : start.Linked)
    (run : Run move start history last) : last.Linked :=
  run.invariant h fun taken hbefore => hbefore.move taken

/-- One plan with one level of one domain, for runs on fixed inputs. -/
def oneDomain : PlanStore :=
  PlanStore.empty.add (.ofLevels "p" "inline" (.ofList [
    ("kpi", { freq := "1s", collect := .ofList [("cpu", {})] })]))

end Cadence.Scheduler
