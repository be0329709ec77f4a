import Cadence.Proofs.Scheduler.Acceptances
import Mathlib.Data.List.Nodup

/-!
# Who got the lock

A caller gets the lock once.  Its change is accepted then, or when the change has
ended that it waits for, and meanwhile nobody else gets the lock.
-/

namespace Cadence.Scheduler

variable {s : Scheduler} {history : History} {y : Step Scheduler Move SchedulerEvent}
  {id change : Nat}

structure Lined (history : History) (s : Scheduler) : Prop where
  nodup : (granted history).Nodup
  past : ∀ id ∈ granted history,
    id < s.nextId ∧ ∀ request, s.callers.get? id ≠ some { request, stage := .queued }
  order : (accepted history).map (·.caller) |>.Sublist (granted history)
  waiting : ∀ id state name k, s.Awaits id (.change state name) k →
    ∃ earlier, granted history = earlier ++ [id] ∧
      ((accepted history).map (·.caller)).Sublist earlier

theorem granted_of_grant {caller : Nat} {request : ChangeRequest} {stage : CallerStage}
    (haction : y.action = .act (.grant caller))
    (hcaller : y.before.callers.get? caller = some { request, stage }) :
    granted? y = match request with
      | .change .. => some caller
      | _ => none := by
  cases request <;> simp [granted?, haction, hcaller]

theorem granted_of_resume {caller : Nat} (haction : y.action = .act (.resume caller)) :
    granted? y = none := by
  simp [granted?, haction]

/-- Nobody gets the lock, and whoever waits has waited before. -/
theorem Lined.stays (h : Lined history y.before) (hgranted : granted? y = none)
    (haccepted : acceptance? y = none) (hnextId : y.before.nextId ≤ y.after.nextId)
    (hqueued : ∀ id request, id < y.before.nextId →
      y.after.callers.get? id = some { request, stage := .queued } →
      y.before.callers.get? id = some { request, stage := .queued })
    (hawaits : ∀ id state name k, y.after.Awaits id (.change state name) k →
      y.before.Awaits id (.change state name) k) : Lined (history ++ [y]) y.after := by
  have hgranted : granted (history ++ [y]) = granted history := by
    rw [granted_snoc, hgranted, Option.toList_none, List.append_nil]
  have haccepted : accepted (history ++ [y]) = accepted history := by
    rw [accepted_snoc, haccepted, Option.toList_none, List.append_nil]
  refine ⟨?_, ?_, ?_, ?_⟩
  · rw [hgranted]
    exact h.nodup
  · rw [hgranted]
    intro id hid
    obtain ⟨hlt, hnever⟩ := h.past id hid
    exact ⟨by omega, fun request hafter => hnever request (hqueued id request hlt hafter)⟩
  · rw [hgranted, haccepted]
    exact h.order
  · rw [hgranted, haccepted]
    exact fun id state name k awaits => h.waiting id state name k (hawaits id state name k awaits)

theorem Lined.nodup_grant (h : Lined history s) {request : ChangeRequest}
    (hcaller : s.callers.get? id = some { request, stage := .queued }) :
    (granted history ++ [id]).Nodup := by
  rw [← List.concat_eq_append]
  exact h.nodup.concat fun hid => (h.past id hid).2 _ hcaller

/-- The caller whose turn it is, with a change, gets the lock or has it already, and leaves. -/
theorem Lined.leaves (h : Lined history y.before) (orderly : y.before.Orderly)
    {state : InstanceState} {name : String}
    (turn : y.before.Turn id (.change state name) y.action)
    (hcallers : y.after.callers = y.before.callers.erase id)
    (hnextId : y.before.nextId ≤ y.after.nextId)
    (haccepted : ((accepted (history ++ [y])).map (·.caller)).Sublist
      ((accepted history).map (·.caller) ++ [id])) : Lined (history ++ [y]) y.after := by
  have hnobody : ∀ other request k, ¬ y.after.Awaits other request k := by
    intro other request k awaits
    rw [Awaits, hcallers, Table.get?_erase] at awaits
    split at awaits
    · contradiction
    · next hother => exact hother (orderly.alone turn awaits)
  have hpast : ∀ k ∈ granted history, k < y.after.nextId ∧
      ∀ request, y.after.callers.get? k ≠ some { request, stage := .queued } := by
    intro k hk
    obtain ⟨hlt, hnever⟩ := h.past k hk
    refine ⟨by omega, fun request hqueued => hnever request ?_⟩
    rw [hcallers] at hqueued
    exact Table.get?_of_get?_erase hqueued
  generalize haction : y.action = action at turn
  cases turn with
  | first hhead hcaller =>
      have hgranted : granted (history ++ [y]) = granted history ++ [id] := by
        rw [granted_snoc, granted_of_grant haction hcaller, Option.toList_some]
      have hlt := orderly.callers id _ hcaller
      refine ⟨?_, ?_, ?_, fun other state name k awaits => absurd awaits (hnobody other _ k)⟩
      · rw [hgranted]
        exact h.nodup_grant hcaller
      · rw [hgranted]
        intro k hk
        rcases List.mem_append.1 hk with hk | hk
        · exact hpast k hk
        · obtain rfl := List.mem_singleton.1 hk
          refine ⟨by omega, fun request hqueued => ?_⟩
          rw [hcallers, Table.get?_erase, if_pos rfl] at hqueued
          contradiction
      · rw [hgranted]
        exact haccepted.trans (h.order.append_right [id])
  | again hcaller =>
      have hgranted : granted (history ++ [y]) = granted history := by
        rw [granted_snoc, granted_of_resume haction, Option.toList_none, List.append_nil]
      obtain ⟨earlier, hearlier, horder⟩ := h.waiting id state name _ hcaller
      refine ⟨?_, ?_, ?_, fun other state name k awaits => absurd awaits (hnobody other _ k)⟩
      · rw [hgranted]
        exact h.nodup
      · rw [hgranted]
        exact hpast
      · rw [hgranted, hearlier]
        exact haccepted.trans (horder.append_right [id])

/-- The caller whose turn it is gets the lock, and waits. -/
theorem Lined.awaits (h : Lined history y.before) (orderly : y.before.Orderly)
    {request : ChangeRequest} (haction : y.action = .act (.grant id))
    (hhead : y.before.lock.head? = some id)
    (hcaller : y.before.callers.get? id = some { request, stage := .queued })
    (hcallers : y.after.callers = y.before.callers.insert id { request, stage := .awaiting change })
    (hnextId : y.after.nextId = y.before.nextId) (hnone : acceptance? y = none) :
    Lined (history ++ [y]) y.after := by
  have haccepted : accepted (history ++ [y]) = accepted history := by
    rw [accepted_snoc, hnone, Option.toList_none, List.append_nil]
  have hnew : ∀ other request' k, y.after.Awaits other request' k →
      other = id ∧ request' = request := by
    intro other request' k awaits
    rw [Awaits, hcallers, Table.get?_insert] at awaits
    split at awaits
    · next hother =>
        have hsame : request = request' ∧ change = k := by simpa using awaits
        exact ⟨hother, hsame.1.symm⟩
    · next hother => exact absurd (orderly.alone (.first hhead hcaller) awaits) hother
  have hqueued : ∀ k request',
      y.after.callers.get? k = some { request := request', stage := .queued } →
      y.before.callers.get? k = some { request := request', stage := .queued } := by
    intro k request' hk
    rw [hcallers, Table.get?_insert] at hk
    split at hk
    · simp at hk
    · exact hk
  have hgranted := granted_of_grant haction hcaller
  cases request with
  | change state name =>
      have hgranted : granted (history ++ [y]) = granted history ++ [id] := by
        rw [granted_snoc, hgranted, Option.toList_some]
      refine ⟨?_, fun k hk => ?_, ?_, fun other state' name' k awaits => ?_⟩
      · rw [hgranted]
        exact h.nodup_grant hcaller
      · rw [hgranted] at hk
        rw [hnextId]
        rcases List.mem_append.1 hk with hk | hk
        · obtain ⟨hlt, hnever⟩ := h.past k hk
          exact ⟨hlt, fun request' hk => hnever request' (hqueued k request' hk)⟩
        · obtain rfl := List.mem_singleton.1 hk
          refine ⟨orderly.callers k _ hcaller, fun request' hk => ?_⟩
          rw [hcallers, Table.get?_insert_self] at hk
          simp at hk
      · rw [hgranted, haccepted]
        exact h.order.trans (List.sublist_append_left _ _)
      · obtain ⟨rfl, -⟩ := hnew other _ k awaits
        rw [hgranted, haccepted]
        exact ⟨granted history, rfl, h.order⟩
  | wait =>
      refine h.stays hgranted hnone (Nat.le_of_eq hnextId.symm)
        (fun k request' _ => hqueued k request') fun other state name k awaits => ?_
      simpa using (hnew other _ k awaits).2
  | shutdown =>
      refine h.stays hgranted hnone (Nat.le_of_eq hnextId.symm)
        (fun k request' _ => hqueued k request') fun other state name k awaits => ?_
      simpa using (hnew other _ k awaits).2

/-- A caller without a change leaves. -/
theorem Lined.erased (h : Lined history y.before) (hgranted : granted? y = none)
    (haccepted : acceptance? y = none) (hcallers : y.after.callers = y.before.callers.erase id)
    (hnextId : y.after.nextId = y.before.nextId) : Lined (history ++ [y]) y.after := by
  refine h.stays hgranted haccepted (Nat.le_of_eq hnextId.symm) ?_ ?_
  · rw [hcallers]
    exact fun k request _ hk => Table.get?_of_get?_erase hk
  · simp only [Awaits, hcallers]
    exact fun k state name earlier awaits => Table.get?_of_get?_erase awaits

theorem Lined.serves (h : Lined history y.before) (orderly : y.before.Orderly)
    (serves : Serves y.before y.after y.action (own y.events)) :
    Lined (history ++ [y]) y.after := by
  obtain ⟨before, action, after, events⟩ := y
  simp only at serves orderly
  generalize hown : own events = raised at serves
  have silent := acceptance_eq_none (y := ⟨before, action, after, events⟩)
  simp only [hown] at silent
  have idle : ∀ {id request}, before.Turn id request action →
      (∀ state name, request ≠ .change state name) →
      granted? (⟨before, action, after, events⟩ : Step Scheduler Move SchedulerEvent) = none := by
    intro id request turn hother
    cases turn with
    | first _ hcaller =>
        rw [granted_of_grant rfl hcaller]
        cases request with
        | change state name => exact absurd rfl (hother state name)
        | wait => rfl
        | shutdown => rfl
    | again => rfl
  cases serves with
  | @asks _ request hkind hcontrol =>
      have hcallers : after.callers = before.callers.insert before.nextId { request } :=
        congrArg Control.callers hcontrol
      have hnextId : after.nextId = before.nextId + 1 := congrArg Control.nextId hcontrol
      have hgranted : granted?
          (⟨before, action, after, events⟩ : Step Scheduler Move SchedulerEvent) = none := by
        rcases hkind with rfl | ⟨rfl, -⟩ <;> rfl
      refine h.stays hgranted (silent (by simp)) (by simp [hnextId])
        (fun k request' hk hqueued => ?_) fun k state name earlier awaits => ?_
      · simp only at hk hqueued
        rw [hcallers, Table.get?_insert, if_neg (Nat.ne_of_lt hk)] at hqueued
        exact hqueued
      · simp only [Awaits] at awaits
        rw [hcallers, Table.get?_insert] at awaits
        split at awaits
        · simp at awaits
        · exact awaits
  | refuses turn _ hcontrol =>
      refine h.leaves orderly turn (congrArg Control.callers hcontrol)
        (Nat.le_of_eq (congrArg Control.nextId hcontrol).symm) ?_
      rw [accepted_snoc, silent (by simp), Option.toList_none, List.append_nil]
      exact List.sublist_append_left _ _
  | accepts turn hlatest hfound hcontrol =>
      have hnextId : after.nextId = before.nextId + 1 := congrArg Control.nextId hcontrol
      refine h.leaves orderly turn (congrArg Control.callers hcontrol) (by simp [hnextId]) ?_
      rw [accepted_snoc, acceptance_of_change hown turn hfound, List.map_append]
      exact List.Sublist.refl _
  | awaits hhead hcaller _ _ _ hcontrol =>
      exact h.awaits orderly rfl hhead hcaller (congrArg Control.callers hcontrol)
        (congrArg Control.nextId hcontrol) (silent (by simp))
  | joins hhead hcaller _ hcontrol =>
      exact h.awaits orderly rfl hhead hcaller (congrArg Control.callers hcontrol)
        (congrArg Control.nextId hcontrol) (silent (by simp))
  | answers turn _ hcontrol =>
      exact h.erased (idle turn (by simp)) (acceptance_of_wait hown turn)
        (congrArg Control.callers hcontrol) (congrArg Control.nextId hcontrol)
  | closes turn _ hcontrol =>
      exact h.erased (idle turn (by simp)) (silent (by simp)) (congrArg Control.callers hcontrol)
        (congrArg Control.nextId hcontrol)
  | drops _ _ hcontrol =>
      exact h.erased rfl (silent (by simp)) (congrArg Control.callers hcontrol)
        (congrArg Control.nextId hcontrol)

theorem Lined.proceeds (h : Lined history y.before)
    (proceeds : Proceeds y.before y.after y.action (own y.events)) :
    Lined (history ++ [y]) y.after := by
  obtain ⟨hcallers, -, -, hnextId⟩ := proceeds.frame
  refine h.stays proceeds.not_granted proceeds.not_accepted (Nat.le_of_eq hnextId.symm) ?_ ?_
  · rw [hcallers]
    exact fun _ _ _ hqueued => hqueued
  · simp only [Awaits, hcallers]
    exact fun _ _ _ _ awaits => awaits

end Cadence.Scheduler
