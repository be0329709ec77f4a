import Cadence.Proofs.Scheduler.Preparing

/-!
# One change at a time

The lock goes from caller to caller, and whoever has it waits for the change
accepted before to end.  So as long as nobody gives up in that wait, there is
never more than one change in flight, and the engine prepares at most one plan.
-/

namespace Cadence.Scheduler

variable {s s' : Scheduler} {action : Move} {id change : Nat} {own : List SchedulerEvent}

/-- Nobody with a change gives up while waiting for an earlier one to end. -/
def Stays (y : Step Scheduler Move SchedulerEvent) : Prop :=
  ∀ caller state name earlier, y.before.callers.get? caller =
    some { request := .change state name, stage := .awaiting earlier } →
    y.action ≠ .act (.dropCaller caller)

def dropsCaller : Move → Bool
  | .act (.dropCaller _) => true
  | _ => false

theorem stays_of_none_dropped {history : History}
    (h : ∀ y ∈ history, dropsCaller y.action = false) : ∀ y ∈ history, Stays y := by
  intro y hy caller state name earlier _ haction
  have hkept := h y hy
  rw [haction] at hkept
  exact absurd hkept (by simp [dropsCaller])

def InFlight (s : Scheduler) (change : Nat) : Prop :=
  ∃ c, s.changes.get? change = some c ∧ c.stage ≠ .ended

def Awaits (s : Scheduler) (caller : Nat) (request : ChangeRequest) (change : Nat) : Prop :=
  s.callers.get? caller = some { request, stage := .awaiting change }

structure Queued (s : Scheduler) : Prop where
  callers : ∀ id asking, s.callers.get? id = some asking → id < s.nextId
  /-- Only the caller who has the lock waits, and only who came to wait leaves the change to others. -/
  front : ∀ id request k, s.Awaits id request k →
    s.lock.head? = some id ∧ s.latest = if request = .wait then some k else none
  found : ∀ id state name k, s.Awaits id (.change state name) k →
    ∃ found, s.findSorted name = .ok found

structure Single (s : Scheduler) : Prop where
  single : ∀ k k', s.InFlight k → s.InFlight k' → k = k'
  /-- A change in flight is remembered, or somebody who has the lock waits for its end. -/
  tracked : ∀ k, s.InFlight k →
    s.changing = true ∧ (s.latest = some k ∨ ∃ id request, s.Awaits id request k)

/-- What is live, and scheduled, once a swap is made. -/
structure Shown (s : Scheduler) : Prop where
  live : ∀ id p, s.engine.preparations.get? id = some p →
    (∃ cleanups, p.stage = .swapped cleanups) ∨ p.stage = .pruning →
    s.engine.live.plan = some p.plan
  scheduled : ∀ k c id p, s.changes.get? k = some c → c.stage = .applying id →
    s.engine.preparations.get? id = some p → p.stage = .pruning → s.active = c.scheduled
  finished : ∀ k c told, s.changes.get? k = some c → c.stage = .finishing .ready told →
    s.active = c.scheduled ∧ s.engine.live.plan = some c.plan

structure Orderly (s : Scheduler) : Prop extends Queued s, Single s, Shown s where
  linked : s.Linked

theorem inFlight_of_applying {c : PlanChange} (hc : s.changes.get? change = some c)
    (hstage : c.stage = .applying id) : s.InFlight change :=
  ⟨c, hc, by simp [hstage]⟩

/-- Everybody else has to wait for whoever has the lock. -/
theorem Queued.alone (h : s.Queued) {other k : Nat} {request request' : ChangeRequest}
    (turn : s.Turn id request action) (awaits : s.Awaits other request' k) : other = id := by
  have hother := (h.front other request' k awaits).1
  have hid : s.lock.head? = some id := by
    cases turn with
    | first hhead => exact hhead
    | again hcaller => exact (h.front id request _ hcaller).1
  exact Option.some.inj (hother.symm.trans hid)

theorem hasEnded_iff : s.hasEnded change = true ↔ ¬ s.InFlight change := by
  unfold hasEnded InFlight
  rw [Table.getElem?_eq_get?]
  cases s.changes.get? change with
  | none => simp
  | some c => simp

/-- At the turn of a caller, a change in flight is the one accepted last. -/
theorem Orderly.latest_of_turn (h : s.Orderly) {request : ChangeRequest}
    (turn : s.Turn id request action) {k : Nat} (hflight : s.InFlight k) :
    s.latest = some k ∧ action = .act (.grant id) := by
  obtain ⟨-, htracked⟩ := h.tracked k hflight
  cases turn with
  | first hhead hcaller =>
      rcases htracked with hlatest | ⟨other, request', awaits⟩
      · exact ⟨hlatest, rfl⟩
      · obtain rfl := h.alone (.first hhead hcaller) awaits
        simp [Awaits, hcaller] at awaits
  | @again earlier hcaller hended =>
      have hover := hasEnded_iff.1 hended
      rcases htracked with hlatest | ⟨other, request', awaits⟩
      · have hlatest' := (h.front id request earlier hcaller).2
        rw [hlatest] at hlatest'
        split at hlatest'
        · obtain rfl := Option.some.inj hlatest'
          exact absurd hflight hover
        · contradiction
      · obtain rfl := h.alone (.again hcaller hended) awaits
        have hsame : request = request' ∧ earlier = k := by simpa using hcaller.symm.trans awaits
        obtain rfl := hsame.2
        exact absurd hflight hover

theorem Orderly.idle_of_turn (h : s.Orderly) {request : ChangeRequest}
    (turn : s.Turn id request action) (hlatest : action = .act (.grant id) → s.latest = none)
    {k : Nat} : ¬ s.InFlight k := by
  intro hflight
  obtain ⟨hsome, hgrant⟩ := h.latest_of_turn turn hflight
  rw [hlatest hgrant] at hsome
  contradiction

/-! ## Callers -/

theorem findSorted_congr (hfixed : Fixed s s') (name : String) :
    s'.findSorted name = s.findSorted name := by
  rw [findSorted, findSorted, hfixed.store]

theorem Queued.same (h : s.Queued) (hfixed : Fixed s s') (hcallers : s'.callers = s.callers)
    (hlock : s'.lock = s.lock) (hlatest : s'.latest = s.latest) (hnextId : s'.nextId = s.nextId) :
    s'.Queued := by
  refine ⟨?_, ?_, ?_⟩
  · rw [hcallers, hnextId]
    exact h.callers
  · simp only [Awaits, hcallers, hlock, hlatest]
    exact h.front
  · simp only [Awaits, hcallers, findSorted_congr hfixed]
    exact h.found

theorem Queued.call (h : s.Queued) (hfixed : Fixed s s') {request : ChangeRequest}
    (hcontrol : s'.control = (s.call request).control) : s'.Queued := by
  have hcallers : s'.callers = s.callers.insert s.nextId { request } :=
    congrArg Control.callers hcontrol
  have hlock : s'.lock = s.lock ++ [s.nextId] := congrArg Control.lock hcontrol
  have hlatest : s'.latest = s.latest := congrArg Control.latest hcontrol
  have hnextId : s'.nextId = s.nextId + 1 := congrArg Control.nextId hcontrol
  have old : ∀ {id request k}, s'.Awaits id request k → s.Awaits id request k := by
    intro id request k awaits
    rw [Awaits, hcallers, Table.get?_insert] at awaits
    split at awaits
    · simp at awaits
    · exact awaits
  refine ⟨fun id asking hasking => ?_, fun id request k awaits => ?_,
    fun id state name k awaits => ?_⟩
  · rw [hcallers, Table.get?_insert] at hasking
    split at hasking
    · omega
    · have hid := h.callers id asking hasking
      omega
  · obtain ⟨hhead, hfront⟩ := h.front id request k (old awaits)
    rw [hlock, hlatest, List.head?_append, hhead]
    exact ⟨rfl, hfront⟩
  · rw [findSorted_congr hfixed]
    exact h.found id state name k (old awaits)

theorem Queued.release (h : s.Queued) (hfixed : Fixed s s')
    (hcallers : s'.callers = s.callers.erase id) (hlock : s'.lock = s.lock.filter (· ≠ id))
    (hnextId : s.nextId ≤ s'.nextId)
    (hlatest : s'.latest = s.latest ∨ ∀ other request k, s.Awaits other request k → other = id) :
    s'.Queued := by
  have old : ∀ {other request k}, s'.Awaits other request k →
      other ≠ id ∧ s.Awaits other request k := by
    intro other request k awaits
    rw [Awaits, hcallers, Table.get?_erase] at awaits
    split at awaits
    · contradiction
    · next hother => exact ⟨hother, awaits⟩
  refine ⟨fun other asking hasking => ?_, fun other request k awaits => ?_,
    fun other state name k awaits => ?_⟩
  · rw [hcallers] at hasking
    exact Nat.lt_of_lt_of_le (h.callers other asking (Table.get?_of_get?_erase hasking)) hnextId
  · obtain ⟨hother, awaits⟩ := old awaits
    obtain ⟨hhead, hfront⟩ := h.front other request k awaits
    rcases hlatest with hlatest | halone
    · obtain ⟨rest, hrest⟩ := List.head?_eq_some_iff.1 hhead
      rw [hlock, hlatest, hrest, List.filter_cons_of_pos (by simpa using hother)]
      exact ⟨rfl, hfront⟩
    · exact absurd (halone other request k awaits) hother
  · rw [findSorted_congr hfixed]
    exact h.found other state name k (old awaits).2

/-- The caller whose turn it is begins to wait for a change. -/
theorem Queued.await (h : s.Queued) (hfixed : Fixed s s') {request : ChangeRequest} {k : Nat}
    (hhead : s.lock.head? = some id)
    (hcaller : s.callers.get? id = some { request, stage := .queued })
    (hfound : ∀ state name, request = .change state name → ∃ found, s.findSorted name = .ok found)
    (hcallers : s'.callers = s.callers.insert id { request, stage := .awaiting k })
    (hlock : s'.lock = s.lock) (hnextId : s'.nextId = s.nextId)
    (hlatest : s'.latest = if request = .wait then some k else none) : s'.Queued := by
  have old : ∀ {other request' k'}, s'.Awaits other request' k' →
      other = id ∧ request' = request ∧ k' = k := by
    intro other request' k' awaits
    rw [Awaits, hcallers, Table.get?_insert] at awaits
    split at awaits
    · next hother =>
        obtain ⟨rfl, rfl⟩ : request = request' ∧ k = k' := by simpa using awaits
        exact ⟨hother, rfl, rfl⟩
    · next hother => exact absurd (h.alone (.first hhead hcaller) awaits) hother
  refine ⟨fun other asking hasking => ?_, fun other request' k' awaits => ?_,
    fun other state name k' awaits => ?_⟩
  · rw [hcallers, Table.get?_insert] at hasking
    rw [hnextId]
    split at hasking
    · next hother => exact hother ▸ h.callers id _ hcaller
    · exact h.callers other asking hasking
  · obtain ⟨rfl, rfl, rfl⟩ := old awaits
    rw [hlock]
    exact ⟨hhead, hlatest⟩
  · obtain ⟨rfl, hrequest, rfl⟩ := old awaits
    rw [findSorted_congr hfixed]
    exact hfound state name hrequest.symm

theorem Queued.serves (h : s.Queued) (hfixed : Fixed s s') (serves : Serves s s' action own) :
    s'.Queued := by
  cases serves with
  | asks _ hcontrol => exact h.call hfixed hcontrol
  | refuses _ _ hcontrol =>
      exact h.release hfixed (congrArg Control.callers hcontrol) (congrArg Control.lock hcontrol)
        (Nat.le_of_eq (congrArg Control.nextId hcontrol).symm)
        (.inl (congrArg Control.latest hcontrol))
  | accepts turn _ _ hcontrol =>
      have hnextId : s'.nextId = s.nextId + 1 := congrArg Control.nextId hcontrol
      exact h.release hfixed (congrArg Control.callers hcontrol) (congrArg Control.lock hcontrol)
        (by omega) (.inr fun _ _ _ awaits => h.alone turn awaits)
  | awaits hhead hcaller hrequest hfound hlatest hcontrol =>
      refine h.await hfixed hhead hcaller hfound (congrArg Control.callers hcontrol)
        (congrArg Control.lock hcontrol) (congrArg Control.nextId hcontrol) ?_
      rw [if_neg hrequest]
      exact congrArg Control.latest hcontrol
  | joins hhead hcaller hlatest hcontrol =>
      refine h.await hfixed hhead hcaller (by simp) (congrArg Control.callers hcontrol)
        (congrArg Control.lock hcontrol) (congrArg Control.nextId hcontrol) ?_
      rw [if_pos rfl, ← hlatest]
      exact congrArg Control.latest hcontrol
  | answers turn _ hcontrol =>
      exact h.release hfixed (congrArg Control.callers hcontrol) (congrArg Control.lock hcontrol)
        (Nat.le_of_eq (congrArg Control.nextId hcontrol).symm)
        (.inr fun _ _ _ awaits => h.alone turn awaits)
  | closes _ _ hcontrol =>
      exact h.release hfixed (congrArg Control.callers hcontrol) (congrArg Control.lock hcontrol)
        (Nat.le_of_eq (congrArg Control.nextId hcontrol).symm)
        (.inl (congrArg Control.latest hcontrol))
  | drops _ _ hcontrol =>
      exact h.release hfixed (congrArg Control.callers hcontrol) (congrArg Control.lock hcontrol)
        (Nat.le_of_eq (congrArg Control.nextId hcontrol).symm)
        (.inl (congrArg Control.latest hcontrol))

theorem Queued.proceeds (h : s.Queued) (hfixed : Fixed s s') (proceeds : Proceeds s s' action own) :
    s'.Queued := by
  obtain ⟨hcallers, hlock, hlatest, hnextId⟩ := proceeds.frame
  exact h.same hfixed hcallers hlock hlatest hnextId

theorem Queued.move (h : s.Queued) (linked : s.Linked) {events : List SchedulerEvent}
    (taken : s.move action = some (s', events)) : s'.Queued := by
  have hfixed := fixed_of_move taken
  rcases serves_or_proceeds linked taken with serves | proceeds
  · exact h.serves hfixed serves
  · exact h.proceeds hfixed proceeds

/-! ## Changes in flight -/

theorem inFlight_of_eq {k : Nat} (hchanges : s'.changes = s.changes) (h : s'.InFlight k) :
    s.InFlight k := by
  rw [InFlight, hchanges] at h
  exact h

theorem inFlight_of_insert {k : Nat} {c later : PlanChange} (hc : s.changes.get? change = some c)
    (hstage : c.stage ≠ .ended) (hchanges : s'.changes = s.changes.insert change later)
    (h : s'.InFlight k) : s.InFlight k ∧ (later.stage = .ended → k ≠ change) := by
  obtain ⟨d, hd, hopen⟩ := h
  rw [hchanges, Table.get?_insert] at hd
  split at hd
  · next hk =>
      obtain rfl := Option.some.inj hd
      exact ⟨⟨c, hk ▸ hc, hstage⟩, fun hended => absurd hended hopen⟩
  · next hk => exact ⟨⟨d, hd, hopen⟩, fun _ => hk⟩

theorem inFlight_of_modify {k : Nat}
    (hchanges : s'.changes = s.changes.modify change (fun c => { c with cancelled := true }))
    (h : s'.InFlight k) : s.InFlight k := by
  obtain ⟨d, hd, hopen⟩ := h
  rw [hchanges, Table.get?_modify] at hd
  split at hd
  · next hk =>
      obtain ⟨c, hc, rfl⟩ := Option.map_eq_some_iff.1 hd
      exact ⟨c, hk ▸ hc, hopen⟩
  · exact ⟨d, hd, hopen⟩

theorem Single.of_inFlight (h : s.Single) (hflight : ∀ k, s'.InFlight k → s.InFlight k)
    (htracked : ∀ k, s'.InFlight k →
      s'.changing = true ∧ (s'.latest = some k ∨ ∃ id request, s'.Awaits id request k)) :
    s'.Single :=
  ⟨fun k k' hk hk' => h.single k k' (hflight k hk) (hflight k' hk'), htracked⟩

theorem Orderly.single_of_turn (h : s.Orderly) {request : ChangeRequest}
    (turn : s.Turn id request action) (hchanges : s'.changes = s.changes)
    (hchanging : s'.changing = s.changing) (hlatest : s'.latest = s.latest) : s'.Single := by
  have hflight : ∀ k, s'.InFlight k → s.InFlight k := fun k => inFlight_of_eq hchanges
  refine h.toSingle.of_inFlight hflight fun k hk => ?_
  refine ⟨hchanging.trans (h.tracked k (hflight k hk)).1, .inl ?_⟩
  exact hlatest.trans (h.latest_of_turn turn (hflight k hk)).1

theorem Orderly.single_of_idle (h : s.Orderly) {request : ChangeRequest}
    (turn : s.Turn id request action) (hlatest : action = .act (.grant id) → s.latest = none)
    (hchanges : s'.changes = s.changes) : s'.Single := by
  have hflight : ∀ k, s'.InFlight k → s.InFlight k := fun k => inFlight_of_eq hchanges
  exact h.toSingle.of_inFlight hflight fun k hk =>
    absurd (hflight k hk) (h.idle_of_turn turn hlatest)

theorem Orderly.single_accepts (h : s.Orderly) {request : ChangeRequest} {state : InstanceState}
    {levels : List SortedLevel} {plan : Plan} (turn : s.Turn id request action)
    (hlatest : action = .act (.grant id) → s.latest = none)
    (hcontrol : s'.control = (s.accept id state plan levels).1.control) : s'.Single := by
  have hchanges : s'.changes = s.changes.insert s.nextId { plan, levels, state } :=
    congrArg Control.changes hcontrol
  have hnew : ∀ k, s'.InFlight k → k = s.nextId := by
    rintro k ⟨d, hd, hopen⟩
    rw [hchanges, Table.get?_insert] at hd
    split at hd
    · next hk => exact hk
    · exact absurd ⟨d, hd, hopen⟩ (h.idle_of_turn turn hlatest)
  refine ⟨fun k k' hk hk' => (hnew k hk).trans (hnew k' hk').symm, fun k hk => ?_⟩
  rw [hnew k hk]
  exact ⟨congrArg Control.changing hcontrol, .inl (congrArg Control.latest hcontrol)⟩

theorem Orderly.single_drops (h : s.Orderly) {asking : Caller}
    (stays : ∀ state name k, ¬ s.Awaits id (.change state name) k)
    (hcaller : s.callers.get? id = some asking) (hrequest : asking.request ≠ .shutdown)
    (hcontrol : s'.control = (s.release id).control) : s'.Single := by
  have hcallers : s'.callers = s.callers.erase id := congrArg Control.callers hcontrol
  have hlatest : s'.latest = s.latest := congrArg Control.latest hcontrol
  have hchanging : s'.changing = s.changing := congrArg Control.changing hcontrol
  have hflight : ∀ k, s'.InFlight k → s.InFlight k := fun k =>
    inFlight_of_eq (congrArg Control.changes hcontrol)
  refine h.toSingle.of_inFlight hflight fun k hk => ?_
  obtain ⟨hset, htracked⟩ := h.tracked k (hflight k hk)
  refine ⟨hchanging.trans hset, ?_⟩
  rw [hlatest]
  rcases htracked with hsome | ⟨other, request, awaits⟩
  · exact .inl hsome
  · by_cases hother : other = id
    · subst hother
      have hasking : asking = { request, stage := .awaiting k } :=
        Option.some.inj (hcaller.symm.trans awaits)
      subst hasking
      cases request with
      | change state name => exact absurd awaits (stays state name k)
      | wait => exact .inl (by simpa using (h.front other .wait k awaits).2)
      | shutdown => exact absurd rfl hrequest
    · refine .inr ⟨other, request, ?_⟩
      rw [Awaits, hcallers, Table.get?_erase, if_neg hother]
      exact awaits

theorem Orderly.single_serves (h : s.Orderly)
    (stays : ∀ caller state name k, s.Awaits caller (.change state name) k →
      action ≠ .act (.dropCaller caller)) (serves : Serves s s' action own) : s'.Single := by
  cases serves with
  | asks _ hcontrol =>
      have hcallers : s'.callers = s.callers.insert s.nextId _ :=
        congrArg Control.callers hcontrol
      have hlatest : s'.latest = s.latest := congrArg Control.latest hcontrol
      have hchanging : s'.changing = s.changing := congrArg Control.changing hcontrol
      have hflight : ∀ k, s'.InFlight k → s.InFlight k := fun k =>
        inFlight_of_eq (congrArg Control.changes hcontrol)
      refine h.toSingle.of_inFlight hflight fun k hk => ?_
      obtain ⟨hset, htracked⟩ := h.tracked k (hflight k hk)
      refine ⟨hchanging.trans hset, ?_⟩
      rw [hlatest]
      refine htracked.imp_right fun ⟨other, request, awaits⟩ => ⟨other, request, ?_⟩
      have hother := h.callers other _ awaits
      rw [Awaits, hcallers, Table.get?_insert, if_neg (Nat.ne_of_lt hother)]
      exact awaits
  | refuses turn _ hcontrol =>
      exact h.single_of_turn turn (congrArg Control.changes hcontrol)
        (congrArg Control.changing hcontrol) (congrArg Control.latest hcontrol)
  | accepts turn hlatest _ hcontrol => exact h.single_accepts turn hlatest hcontrol
  | @awaits id change request hhead hcaller _ _ hlatest hcontrol =>
      have hcallers : s'.callers = s.callers.insert id { request, stage := .awaiting change } :=
        congrArg Control.callers hcontrol
      have hchanging : s'.changing = s.changing := congrArg Control.changing hcontrol
      have hflight : ∀ k, s'.InFlight k → s.InFlight k := fun k =>
        inFlight_of_modify (congrArg Control.changes hcontrol)
      refine h.toSingle.of_inFlight hflight fun k hk => ?_
      obtain ⟨hset, -⟩ := h.tracked k (hflight k hk)
      have hsome := (h.latest_of_turn (.first hhead hcaller) (hflight k hk)).1
      obtain rfl := Option.some.inj (hlatest.symm.trans hsome)
      refine ⟨hchanging.trans hset, .inr ⟨id, request, ?_⟩⟩
      rw [Awaits, hcallers, Table.get?_insert_self]
  | joins hhead hcaller _ hcontrol =>
      exact h.single_of_turn (.first hhead hcaller) (congrArg Control.changes hcontrol)
        (congrArg Control.changing hcontrol) (congrArg Control.latest hcontrol)
  | answers turn hlatest hcontrol =>
      exact h.single_of_idle turn hlatest (congrArg Control.changes hcontrol)
  | closes turn hlatest hcontrol =>
      exact h.single_of_idle turn hlatest (congrArg Control.changes hcontrol)
  | drops hcaller hrequest hcontrol =>
      exact h.single_drops (fun state name k awaits => stays _ state name k awaits rfl) hcaller
        hrequest hcontrol

theorem Orderly.single_proceeds (h : s.Orderly) (proceeds : Proceeds s s' action own) :
    s'.Single := by
  obtain ⟨hcallers, -, hlatest, -⟩ := proceeds.frame
  have kept : (∀ k, s'.InFlight k → s.InFlight k ∧ s'.changing = s.changing) → s'.Single := by
    intro hkept
    refine h.toSingle.of_inFlight (fun k hk => (hkept k hk).1) fun k hk => ?_
    obtain ⟨hflight, hchanging⟩ := hkept k hk
    rw [hchanging, hlatest]
    simp only [Awaits, hcallers]
    exact h.tracked k hflight
  have same : s'.changes = s.changes → s'.changing = s.changing → s'.Single :=
    fun hchanges hchanging => kept fun k hk => ⟨inFlight_of_eq hchanges hk, hchanging⟩
  have staged : ∀ {k c stage}, s.changes.get? k = some c → c.stage ≠ .ended →
      s'.changes = s.changes.insert k { c with stage } → s'.changing = s.changing → s'.Single :=
    fun hc hopen hchanges hchanging => kept fun k' hk' =>
      ⟨(inFlight_of_insert hc hopen hchanges hk').1, hchanging⟩
  -- nothing else is in flight when the task of a change ends
  have done : ∀ {k c}, s.changes.get? k = some c → c.stage ≠ .ended →
      s'.changes = s.changes.insert k { c with stage := .ended } → s'.Single := by
    intro k c hc hopen hchanges
    refine kept fun k' hk' => ?_
    obtain ⟨hflight, hne⟩ := inFlight_of_insert hc hopen hchanges hk'
    exact absurd (h.single k' k hflight ⟨c, hc, hopen⟩) (hne rfl)
  cases proceeds with
  | works _ hcontrol =>
      exact same (congrArg Control.changes hcontrol) (congrArg Control.changing hcontrol)
  | pauses hcontrol =>
      exact same (congrArg Control.changes hcontrol) (congrArg Control.changing hcontrol)
  | begins hc hspawned hcontrol =>
      exact staged hc (by simp [hspawned]) (congrArg Control.changes hcontrol)
        (congrArg Control.changing hcontrol)
  | goesOn hcontrol =>
      exact same (congrArg Control.changes hcontrol) (congrArg Control.changing hcontrol)
  | swaps hcontrol =>
      exact same (congrArg Control.changes hcontrol) (congrArg Control.changing hcontrol)
  | goesLive _ _ _ _ _ _ hcontrol =>
      exact same (congrArg Control.changes hcontrol) (congrArg Control.changing hcontrol)
  | breaksOff _ _ _ _ hc happlying hcontrol =>
      exact done hc (by simp [happlying]) (congrArg Control.changes hcontrol)
  | panics _ _ _ _ hc happlying hcontrol =>
      exact done hc (by simp [happlying]) (congrArg Control.changes hcontrol)
  | concludes _ _ _ _ _ hc happlying hcontrol =>
      exact staged hc (by simp [happlying]) (congrArg Control.changes hcontrol)
        (congrArg Control.changing hcontrol)
  | reports hc hstage hcontrol =>
      exact staged hc (by simp [hstage]) (congrArg Control.changes hcontrol)
        (congrArg Control.changing hcontrol)
  | ends hc hstage _ hcontrol =>
      exact done hc (by simp [hstage]) (congrArg Control.changes hcontrol)

/-! ## What is live -/

theorem Orderly.one_preparation (h : s.Orderly) {id' : Nat} {p p' : Preparation}
    (hp : s.engine.preparations.get? id = some p)
    (hp' : s.engine.preparations.get? id' = some p') : id' = id := by
  obtain ⟨k, c, hc, hstage⟩ := h.linked.owned id p hp
  obtain ⟨k', c', hc', hstage'⟩ := h.linked.owned id' p' hp'
  obtain rfl := h.single k k' (inFlight_of_applying hc hstage) (inFlight_of_applying hc' hstage')
  obtain rfl := Option.some.inj (hc.symm.trans hc')
  exact ChangeStage.applying.inj (hstage'.symm.trans hstage)

theorem Shown.same (h : s.Shown) (hlive : s'.engine.live = s.engine.live)
    (hactive : s'.active = s.active)
    (hpreparation : ∀ id p', s'.engine.preparations.get? id = some p' →
      ∃ p, s.engine.preparations.get? id = some p ∧ p'.plan = p.plan ∧ p'.stage = p.stage)
    (hchange : ∀ k c', s'.changes.get? k = some c' → c'.stage ≠ .spawned →
      ∃ c, s.changes.get? k = some c ∧ c'.stage = c.stage ∧ c'.scheduled = c.scheduled ∧
        c'.plan = c.plan) : s'.Shown := by
  refine ⟨fun id p' hp' hstage => ?_, fun k c' id p' hc' happlying hp' hstage => ?_,
    fun k c' told hc' hfinishing => ?_⟩
  · obtain ⟨p, hp, hplan, hsame⟩ := hpreparation id p' hp'
    rw [hlive, hplan]
    exact h.live id p hp (hsame ▸ hstage)
  · obtain ⟨p, hp, -, hsame⟩ := hpreparation id p' hp'
    obtain ⟨c, hc, hcstage, hscheduled, -⟩ := hchange k c' hc' (by simp [happlying])
    rw [hactive, hscheduled]
    exact h.scheduled k c id p hc (hcstage ▸ happlying) hp (hsame ▸ hstage)
  · obtain ⟨c, hc, hcstage, hscheduled, hplan⟩ := hchange k c' hc' (by simp [hfinishing])
    rw [hactive, hscheduled, hlive, hplan]
    exact h.finished k c told hc (hcstage ▸ hfinishing)

theorem Shown.apart (h : s.Shown) (hapart : s.engine.Apart s'.engine)
    (hactive : s'.active = s.active) (hchanges : s'.changes = s.changes) : s'.Shown := by
  refine h.same hapart.live hactive (fun id p' hp' => ?_) fun k c' hc' _ => ?_
  · rw [hapart.preparations] at hp'
    exact ⟨p', hp', rfl, rfl⟩
  · rw [hchanges] at hc'
    exact ⟨c', hc', rfl, rfl, rfl⟩

/-- One change is new, or its task goes on without its preparation. -/
theorem Shown.insert (h : s.Shown) (hapart : s.engine.Apart s'.engine)
    (hactive : s'.active = s.active) {later : PlanChange}
    (hchanges : s'.changes = s.changes.insert change later)
    (hover : ∀ preparation, later.stage ≠ .applying preparation)
    (hready : ∀ told, later.stage = .finishing .ready told →
      s.active = later.scheduled ∧ s.engine.live.plan = some later.plan) : s'.Shown := by
  refine ⟨fun id p' hp' hstage => ?_, fun k c' id p' hc' happlying hp' hstage => ?_,
    fun k c' told hc' hfinishing => ?_⟩
  · rw [hapart.preparations] at hp'
    rw [hapart.live]
    exact h.live id p' hp' hstage
  · rw [hapart.preparations] at hp'
    rw [hactive]
    rw [hchanges, Table.get?_insert] at hc'
    split at hc'
    · obtain rfl := Option.some.inj hc'
      exact absurd happlying (hover id)
    · exact h.scheduled k c' id p' hc' happlying hp' hstage
  · rw [hactive, hapart.live]
    rw [hchanges, Table.get?_insert] at hc'
    split at hc'
    · obtain rfl := Option.some.inj hc'
      exact hready told hfinishing
    · exact h.finished k c' told hc' hfinishing

theorem Shown.serves (h : s.Shown) (serves : Serves s s' action own) : s'.Shown := by
  cases serves with
  | asks _ hcontrol hapart =>
      exact h.apart hapart (congrArg Control.active hcontrol) (congrArg Control.changes hcontrol)
  | refuses _ _ hcontrol hapart =>
      exact h.apart hapart (congrArg Control.active hcontrol) (congrArg Control.changes hcontrol)
  | @accepts _ _ state _ levels plan _ _ _ hcontrol hapart =>
      have hchanges : s'.changes = s.changes.insert s.nextId { plan, levels, state } :=
        congrArg Control.changes hcontrol
      exact h.insert hapart (congrArg Control.active hcontrol) hchanges (by simp) (by simp)
  | @awaits _ change _ _ _ _ _ _ hcontrol hengine =>
      have hchanges : s'.changes = s.changes.modify change (fun c => { c with cancelled := true }) :=
        congrArg Control.changes hcontrol
      refine h.same (by rw [hengine]) (congrArg Control.active hcontrol) (fun id p' hp' => ?_)
        fun k c' hc' _ => ?_
      · rw [hengine] at hp'
        obtain ⟨_, hp, rfl | rfl⟩ := (cancelsAtMost_cancelledIn s change).was hp' <;>
          exact ⟨_, hp, rfl, rfl⟩
      · rw [hchanges, Table.get?_modify] at hc'
        split at hc'
        · next hk =>
            obtain ⟨c, hc, rfl⟩ := Option.map_eq_some_iff.1 hc'
            exact ⟨c, hk ▸ hc, rfl, rfl, rfl⟩
        · exact ⟨c', hc', rfl, rfl, rfl⟩
  | joins _ _ _ hcontrol hapart =>
      exact h.apart hapart (congrArg Control.active hcontrol) (congrArg Control.changes hcontrol)
  | answers _ _ hcontrol hapart =>
      exact h.apart hapart (congrArg Control.active hcontrol) (congrArg Control.changes hcontrol)
  | closes _ _ hcontrol hapart =>
      exact h.apart hapart (congrArg Control.active hcontrol) (congrArg Control.changes hcontrol)
  | drops _ _ hcontrol hapart =>
      exact h.apart hapart (congrArg Control.active hcontrol) (congrArg Control.changes hcontrol)

/-- The only preparation there is after the move. -/
theorem shown_of_insert {p : Preparation}
    (only : ∀ k q, s.engine.preparations.get? k = some q → k = id)
    (hnext : s'.engine.preparations = s.engine.preparations.insert id p)
    (hlive : (∃ cleanups, p.stage = .swapped cleanups) ∨ p.stage = .pruning →
      s'.engine.live.plan = some p.plan)
    (hactive : ∀ k c, s'.changes.get? k = some c → c.stage = .applying id → p.stage = .pruning →
      s'.active = c.scheduled)
    (hfinishing : ∀ k c told, s'.changes.get? k = some c → c.stage ≠ .finishing .ready told) :
    s'.Shown := by
  have this : ∀ {k q}, s'.engine.preparations.get? k = some q → k = id ∧ q = p := by
    intro k q hq
    rw [hnext, Table.get?_insert] at hq
    split at hq
    · next hk => exact ⟨hk, (Option.some.inj hq).symm⟩
    · next hk => exact absurd (only k q hq) hk
  refine ⟨fun k q hq hstage => ?_, fun k c k' q hc happlying hq hstage => ?_,
    fun k c told hc hstage => absurd hstage (hfinishing k c told hc)⟩
  · obtain ⟨rfl, rfl⟩ := this hq
    exact hlive hstage
  · obtain ⟨rfl, rfl⟩ := this hq
    exact hactive k c hc happlying hstage

/-- No task that has begun goes on without its preparation while another one has its own. -/
theorem Orderly.not_finishing (h : s.Orderly) {p : Preparation}
    (hp : s.engine.preparations.get? id = some p) (hchanges : s'.changes = s.changes) (k : Nat)
    (c : PlanChange) (told : Bool) (hc : s'.changes.get? k = some c) :
    c.stage ≠ .finishing .ready told := by
  intro hfinishing
  rw [hchanges] at hc
  obtain ⟨k', d, hd, happlying⟩ := h.linked.owned id p hp
  obtain rfl := h.single k k' ⟨c, hc, by simp [hfinishing]⟩ (inFlight_of_applying hd happlying)
  obtain rfl := Option.some.inj (hc.symm.trans hd)
  rw [hfinishing] at happlying
  contradiction

theorem Orderly.shown_of_erase (h : s.Orderly) {p : Preparation} {c : PlanChange}
    {stage : ChangeStage} (hp : s.engine.preparations.get? id = some p)
    (hc : s.changes.get? change = some c) (happlying : c.stage = .applying id)
    (hchanges : s'.changes = s.changes.insert change { c with stage })
    (hready : ∀ told, stage = .finishing .ready told →
      s'.active = c.scheduled ∧ s'.engine.live.plan = some c.plan)
    (hnext : s'.engine.preparations = s.engine.preparations.erase id) : s'.Shown := by
  have none : ∀ {k q}, s'.engine.preparations.get? k ≠ some q := by
    intro k q hq
    rw [hnext, Table.get?_erase] at hq
    split at hq
    · contradiction
    · next hk => exact hk (h.one_preparation hp hq)
  refine ⟨fun k q hq => absurd hq none, fun k c k' q _ _ hq => absurd hq none,
    fun k d told hd hfinishing => ?_⟩
  rw [hchanges, Table.get?_insert] at hd
  split at hd
  · obtain rfl := Option.some.inj hd
    exact hready told hfinishing
  · next hk =>
      have hflight : s.InFlight k := ⟨d, hd, by simp [hfinishing]⟩
      exact absurd (h.single k change hflight (inFlight_of_applying hc happlying)) hk

theorem Orderly.shown_proceeds (h : s.Orderly) (proceeds : Proceeds s s' action own) :
    s'.Shown := by
  cases proceeds with
  | works _ hcontrol hapart =>
      exact h.toShown.apart hapart (congrArg Control.active hcontrol)
        (congrArg Control.changes hcontrol)
  | pauses hcontrol hapart =>
      exact h.toShown.apart hapart (congrArg Control.active hcontrol)
        (congrArg Control.changes hcontrol)
  | @begins change c hc hspawned hcontrol _ _ hnext =>
      have hflight : s.InFlight change := ⟨c, hc, by simp [hspawned]⟩
      refine shown_of_insert (fun k q hq => ?_) hnext (by simp) (by simp) fun k d told hd hstage => ?_
      · obtain ⟨k', d, hd, happlying⟩ := h.linked.owned k q hq
        obtain rfl := h.single k' change (inFlight_of_applying hd happlying) hflight
        obtain rfl := Option.some.inj (hd.symm.trans hc)
        rw [hspawned] at happlying
        contradiction
      · have hchanges : s'.changes = s.changes.insert change _ := congrArg Control.changes hcontrol
        rw [hchanges, Table.get?_insert] at hd
        split at hd
        · obtain rfl := Option.some.inj hd
          simp at hstage
        · next hk => exact hk (h.single k change ⟨d, hd, by simp [hstage]⟩ hflight)
  | @goesOn _ _ _ p' hcontrol _ hp hnext _ _ _ hlooked =>
      have hbefore : ∀ stage, p'.stage = stage → stage.isConcluded = true → stage = .swapping := by
        rintro stage rfl hconcluded
        exact (hlooked hconcluded).2
      refine shown_of_insert (fun _ _ hq => h.one_preparation hp hq) hnext ?_ ?_
        (h.not_finishing hp (congrArg Control.changes hcontrol))
      · rintro (⟨cleanups, hstage⟩ | hstage)
        · exact absurd (hbefore _ hstage rfl) (by simp)
        · exact absurd (hbefore _ hstage rfl) (by simp)
      · exact fun _ _ _ _ hstage => absurd (hbefore _ hstage rfl) (by simp)
  | swaps hcontrol hsteady hp _ hnext =>
      refine shown_of_insert (fun _ _ hq => h.one_preparation hp hq) hnext (fun _ => ?_) (by simp)
        (h.not_finishing hp (congrArg Control.changes hcontrol))
      rw [hsteady.live]
      rfl
  | goesLive hsteady hp hstage hnext hc happlying hcontrol =>
      refine shown_of_insert (fun _ _ hq => h.one_preparation hp hq) hnext (fun _ => ?_) ?_
        (h.not_finishing hp (congrArg Control.changes hcontrol))
      · have hlive := h.live _ _ hp (.inl ⟨_, hstage⟩)
        rw [hsteady.live]
        exact hlive
      · intro k d hd happlying' _
        have hchanges : s'.changes = s.changes := congrArg Control.changes hcontrol
        rw [hchanges] at hd
        obtain rfl := h.linked.distinct _ _ _ _ _ hc hd happlying happlying'
        obtain rfl := Option.some.inj (hc.symm.trans hd)
        exact congrArg Control.active hcontrol
  | breaksOff _ hp _ hnext hc happlying hcontrol =>
      exact h.shown_of_erase hp hc happlying (congrArg Control.changes hcontrol) (by simp) hnext
  | panics _ hp _ hnext hc happlying hcontrol =>
      exact h.shown_of_erase hp hc happlying (congrArg Control.changes hcontrol) (by simp) hnext
  | concludes hsteady hp hends _ hnext hc happlying hcontrol =>
      refine h.shown_of_erase hp hc happlying (congrArg Control.changes hcontrol)
        (fun told hready => ?_) hnext
      obtain ⟨rfl, -⟩ := ChangeStage.finishing.inj hready
      obtain ⟨q, hq, hplan, -⟩ := h.linked.applying _ _ _ hc happlying
      obtain rfl := Option.some.inj (hp.symm.trans hq)
      have hpruning := hends.was_pruning
      have hactive : s'.active = s.active := congrArg Control.active hcontrol
      rw [hactive, h.scheduled _ _ _ _ hc happlying hp hpruning, hsteady.live,
        h.live _ _ hp (.inr hpruning), hplan]
      exact ⟨rfl, rfl⟩
  | reports hc hstage hcontrol hapart =>
      refine h.toShown.insert hapart (congrArg Control.active hcontrol)
        (congrArg Control.changes hcontrol) (by simp) fun told hready => ?_
      obtain ⟨rfl, -⟩ := ChangeStage.finishing.inj hready
      have hfinished := h.finished _ _ _ hc hstage
      exact hfinished
  | ends _ _ _ hcontrol hapart =>
      exact h.toShown.insert hapart (congrArg Control.active hcontrol)
        (congrArg Control.changes hcontrol) (by simp) (by simp)

/-! ## Runs -/

theorem orderly_create (settings : SchedulerSettings) (engine : EngineSettings) (board : Board)
    (store : PlanStore) (sinks : List String) :
    (create settings (.create engine board) store sinks).Orderly where
  callers := by simp [create, say, setStatus]
  front := by simp [create, say, setStatus, Awaits]
  found := by simp [create, say, setStatus, Awaits]
  single := by simp [create, say, setStatus, InFlight]
  tracked := by simp [create, say, setStatus, InFlight]
  live := by simp [create, say, setStatus, Engine.create, Engine.say]
  scheduled := by simp [create, say, setStatus]
  finished := by simp [create, say, setStatus]
  linked := linked_create ..

theorem Orderly.move {y : Step Scheduler Move SchedulerEvent} (h : y.before.Orderly)
    (stays : Stays y) (taken : y.before.move y.action = some (y.after, y.events)) :
    y.after.Orderly := by
  have queued := h.toQueued.move h.linked taken
  have linked := h.linked.move taken
  rcases serves_or_proceeds h.linked taken with serves | proceeds
  · exact ⟨queued, h.single_serves stays serves, h.toShown.serves serves, linked⟩
  · exact ⟨queued, h.single_proceeds proceeds, h.shown_proceeds proceeds, linked⟩

end Cadence.Scheduler
