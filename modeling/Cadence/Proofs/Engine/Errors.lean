import Mathlib.Data.List.DropRight
import Cadence.Proofs.Engine.Cancelling
import Cadence.Proofs.Engine.Coverage
import Cadence.Proofs.Engine.Recording

/-!
# What a recorded error means

At any time the error of a domain is that of the last round that has collected
it, unless a preparation has come to its end since then and found the domain not
live any more.

While no preparation is between its swap and its end, one would say less: a
domain has an error exactly if it is live and the last round that has collected
it since it became so has ended with this error.  That holds for each domain
whose error has not been left behind.  Preparations that come one by one leave
none behind, as long as each that has swapped comes to its end; but one that a
cleanup breaks off in between does.
-/

namespace Cadence

/-- The preparation has replaced the live state. -/
def PrepareStage.isSwapped : PrepareStage → Bool
  | swapped _ | pruning => true
  | _ => false

theorem PrepareStage.isConcluded_of_isSwapped {stage : PrepareStage} (h : stage.isSwapped = true) :
    stage.isConcluded = true := by
  cases stage with
  | swapped cleanups => rfl
  | pruning => rfl
  | _ => contradiction

/-- The preparation that has replaced the live state with an action. -/
def EngineAction.swapped? : EngineAction → Option Nat
  | swap id .all => some id
  | _ => none

/-- Whether a preparation comes to its end with an action. -/
def EngineAction.prunes : EngineAction → Bool
  | prune _ => true
  | _ => false

namespace Engine

/-- The latest steps, in all of which a domain was live. -/
def sinceLive (d : String) (history : List (Step Engine EngineAction EngineEvent)) :
    List (Step Engine EngineAction EngineEvent) :=
  history.rtakeWhile (fun x => d ∈ x.before.live.domains)

/-- What has been recorded of a domain, the latest last. -/
def verdicts (d : String) (history : List (Step Engine EngineAction EngineEvent)) :
    List (Option String) :=
  history.filterMap (verdict? d)

/-- A preparation has swapped the live state but has not come to its end.  One that a cleanup
breaks off in between never comes to it. -/
def Pending (history : List (Step Engine EngineAction EngineEvent)) (id : Nat) : Prop :=
  (∃ x ∈ history, x.action = .swap id .all) ∧ ∀ x ∈ history, x.action ≠ .prune id

/-- The latest steps, among which no preparation has come to its end without the domain live. -/
def sinceForgotten (d : String) (history : List (Step Engine EngineAction EngineEvent)) :
    List (Step Engine EngineAction EngineEvent) :=
  history.rtakeWhile (fun x => ¬ (x.action.prunes = true ∧ d ∉ x.before.live.domains))

/-- A swap has taken the domain out of the live plan, and no preparation has come to its end since
then without the domain live. -/
def LeftBehind (d : String) (history : List (Step Engine EngineAction EngineEvent)) : Prop :=
  ∃ pre x post, history = pre ++ x :: post ∧ d ∈ x.before.live.domains ∧
    d ∉ x.after.live.domains ∧
    ∀ y ∈ post, y.action.prunes = true → d ∈ y.before.live.domains

/-- A preparation begins only when no other is under way. -/
def OneByOne (x : Step Engine EngineAction EngineEvent) : Prop :=
  x.action.begins = true → x.before.preparations = ∅

variable {e e' : Engine} {id : Nat} {action : EngineAction} {events : List EngineEvent}
variable {history : List (Step Engine EngineAction EngineEvent)}
variable {x : Step Engine EngineAction EngineEvent} {d : String}

/-- What the history says of the error of a live domain. -/
def lastError? (d : String) (history : List (Step Engine EngineAction EngineEvent)) :
    Option String :=
  (verdicts d (sinceLive d history)).getLast?.join

theorem lastError?_snoc_of_live (hlive : d ∈ x.before.live.domains) :
    lastError? d (history ++ [x]) = (verdict? d x).getD (lastError? d history) := by
  rw [lastError?, lastError?, sinceLive, List.rtakeWhile_concat_pos _ _ _ (by simpa using hlive),
    verdicts, List.filterMap_append]
  cases hverdict : verdict? d x with
  | none => simp [hverdict, verdicts, sinceLive]
  | some verdict => simp [hverdict]

theorem lastError?_snoc_of_not (hgone : d ∉ x.before.live.domains) :
    lastError? d (history ++ [x]) = none := by
  rw [lastError?, sinceLive, List.rtakeWhile_concat_neg _ _ _ (by simpa using hgone)]
  rfl

/-- A step with a verdict on a domain closes a round that has collected it. -/
theorem closed_of_verdict? (taken : x.before.step x.action = some (x.after, x.events))
    {verdict : Option String} (h : verdict? d x = some verdict) :
    ∃ id now r batch, x.action = .close id now ∧ x.before.rounds.get? id = some r ∧
      r.stage.isQueued = false ∧ .collected id batch ∈ x.events ∧
      (d ∈ batch.values ∨ d ∈ batch.errors) ∧ (x.before.task? id d).isSome = true := by
  obtain ⟨event, hevent, hverdict⟩ := List.exists_of_findSome?_eq_some h
  cases event with
  | collected id batch =>
      have hmem := Batch.mem_of_verdict? hverdict
      obtain ⟨r, now, hr, ⟨-, -, rfl⟩ | ⟨plan, began, tasks, haction, hstage, hended, rfl⟩⟩ :=
        collected_step taken hevent
      · simp [emptyBatch, Batch.empty, Table.mem_iff] at hmem
      · refine ⟨id, now, r, _, haction, hr, by simp [hstage, RoundStage.isQueued], hevent, hmem, ?_⟩
        rw [task?_eq_get? hr hstage]
        exact (mem_batchOf hended d).1 hmem
  | _ => simp [EngineEvent.verdict?] at hverdict

/-- Only domains of the live plan have anything recorded. -/
theorem mem_domains_of_verdict? (complete : x.before.Complete)
    (taken : x.before.step x.action = some (x.after, x.events)) {verdict : Option String}
    (h : verdict? d x = some verdict) : d ∈ x.before.live.domains := by
  obtain ⟨id, now, r, batch, -, hr, hopen, -, -, htask⟩ := closed_of_verdict? taken h
  exact LiveState.mem_domains_of_asked (((complete.rounds id r hr hopen).2 d).1 htask)

/-! ## Preparations that come one by one -/

/-- The preparation is over, and no other will have its number. -/
def Over (e : Engine) (id : Nat) : Prop := id < e.nextId ∧ e.preparations.get? id = none

theorem Over.step (h : e.Over id) (taken : e.step action = some (e', events)) : e'.Over id :=
  ⟨Nat.lt_of_lt_of_le h.1 (nextId_le_of_step taken), none_of_step taken h.1 h.2⟩

/-- A preparation that is there after a step has been there before, or begins with it. -/
theorem prepared_before (numbered : e.Numbered) (taken : e.step action = some (e', events))
    {later : Preparation} (hlater : e'.preparations.get? id = some later) :
    (∃ p, e.preparations.get? id = some p) ∨ action.begins = true ∧ id = e.nextId := by
  have old : e'.nextId = e.nextId → ∃ p, e.preparations.get? id = some p := by
    intro hnext
    obtain ⟨p, hp, -⟩ :=
      goes_of_step taken (hnext ▸ (numbered.step taken).preparations id later hlater) hlater
    exact ⟨p, hp⟩
  cases hkind : action.isOfRound with
  | true =>
      rw [(round_frame hkind taken).2.1] at hlater
      exact .inl ⟨later, hlater⟩
  | false =>
      have hprepares := prepares_of_step hkind taken
      generalize signals events = raised at hprepares
      cases hprepares with
      | begins _ hnext =>
          rw [hnext, Table.get?_insert] at hlater
          split at hlater
          · exact .inr ⟨rfl, ‹_›⟩
          · exact .inl ⟨later, hlater⟩
      | cancels same => exact .inl (old same.nextId)
      | goesOn same => exact .inl (old same.nextId)
      | concludes same => exact .inl (old same.nextId)
      | swaps same => exact .inl (old same.nextId)
      | goesLive same => exact .inl (old same.nextId)
      | breaksOff same => exact .inl (old same.nextId)
      | ends same => exact .inl (old same.nextId)
      | dropped same => exact .inl (old same.nextId)

theorem swapped_step (numbered : e.Numbered) (taken : e.step action = some (e', events))
    {p later : Preparation} (hp : e.preparations.get? id = some p)
    (hswapped : p.stage.isSwapped = true) (hlater : e'.preparations.get? id = some later) :
    later.stage.isSwapped = true := by
  have kept : e'.preparations.get? id = e.preparations.get? id → later.stage.isSwapped = true := by
    intro hsame
    rw [hsame, hp] at hlater
    exact Option.some.inj hlater ▸ hswapped
  have inserted : ∀ {k : Nat} {q q' : Preparation}, e.preparations.get? k = some q →
      e'.preparations = e.preparations.insert k q' →
      (q.stage.isSwapped = true → q'.stage.isSwapped = true) → later.stage.isSwapped = true := by
    intro k q q' hq hnext hstage
    by_cases hid : id = k
    · subst hid
      obtain rfl := Option.some.inj (hq.symm.trans hp)
      rw [hnext, Table.get?_insert_self] at hlater
      exact Option.some.inj hlater ▸ hstage hswapped
    · exact kept (by rw [hnext, Table.get?_insert, if_neg hid])
  have erased : ∀ {k : Nat}, e'.preparations = e.preparations.erase k →
      later.stage.isSwapped = true := by
    intro k hnext
    have hold : e.preparations.get? id = some later := Table.get?_of_get?_erase (hnext ▸ hlater)
    exact Option.some.inj (hp.symm.trans hold) ▸ hswapped
  cases hkind : action.isOfRound with
  | true => exact kept (by rw [(round_frame hkind taken).2.1])
  | false =>
      have hprepares := prepares_of_step hkind taken
      generalize signals events = raised at hprepares
      cases hprepares with
      | begins _ hnext =>
          have hlt := numbered.preparations id p hp
          exact kept (by rw [hnext, Table.get?_insert, if_neg (Nat.ne_of_lt hlt)])
      | cancels _ hq hnext => exact inserted hq hnext (fun h => h)
      | goesOn _ hq hnext _ _ hopen =>
          refine inserted hq hnext (fun h => ?_)
          simp [PrepareStage.isConcluded_of_isSwapped h] at hopen
      | concludes _ hq hstage _ hnext =>
          exact inserted hq hnext (by simp [hstage, PrepareStage.isSwapped])
      | swaps _ hq _ hnext => exact inserted hq hnext (fun _ => rfl)
      | goesLive _ hq _ hnext => exact inserted hq hnext (fun _ => rfl)
      | breaksOff _ _ _ hnext => exact erased hnext
      | ends _ _ _ _ hnext => exact erased hnext
      | dropped _ _ hnext => exact erased hnext

/-! ## The last word on a domain -/

theorem sinceForgotten_snoc :
    sinceForgotten d (history ++ [x]) =
      if x.action.prunes = true ∧ d ∉ x.before.live.domains then []
      else sinceForgotten d history ++ [x] := by
  simp only [sinceForgotten, List.rtakeWhile_concat]
  by_cases hforgets : x.action.prunes = true ∧ d ∉ x.before.live.domains <;> simp [hforgets]

/-- Whatever the preparations have come to, the last round that has collected a domain says which
error it has, unless that has been forgotten. -/
theorem error_of_run {settings : EngineSettings} {board : Board}
    (run : Run step (create settings board) history e) (d : String) :
    e.errors.get? d = (verdicts d (sinceForgotten d history)).getLast?.join := by
  induction run with
  | nil => rfl
  | @snoc history e e' action events run taken ih =>
      have complete := complete_of_run run
      have notes := notes_of_step ⟨e, action, e', events⟩ taken d
      rw [sinceForgotten_snoc]
      dsimp only at notes ⊢
      generalize hverdict : verdict? d ⟨e, action, e', events⟩ = verdict at notes
      have kept : ¬ (action.prunes = true ∧ d ∉ e.live.domains) →
          verdicts d (if action.prunes = true ∧ d ∉ e.live.domains then []
            else sinceForgotten d history ++ [⟨e, action, e', events⟩]) =
          verdicts d (sinceForgotten d history) ++ verdict.toList := by
        intro hkept
        rw [if_neg hkept, verdicts, List.filterMap_append, ← hverdict]
        cases h : verdict? d ⟨e, action, e', events⟩ <;> simp [verdicts, h]
      cases notes with
      | nothing hsame _ hlive =>
          have hkept : ¬ (action.prunes = true ∧ d ∉ e.live.domains) := by
            rintro ⟨hprunes, hgone⟩
            cases action with
            | prune id => exact hgone ((complete.live.collectors d).1 (hlive id rfl))
            | _ => contradiction
          rw [kept hkept, Option.toList_none, List.append_nil, ← ih, hsame]
      | failure herror =>
          rw [kept (by simp [EngineAction.prunes]), Option.toList_some, List.getLast?_concat, herror]
          rfl
      | success hnone =>
          rw [kept (by simp [EngineAction.prunes]), Option.toList_some, List.getLast?_concat, hnone]
          rfl
      | forgets hgone hnone =>
          rw [if_pos ⟨rfl, fun h => hgone ((complete.live.collectors d).2 h)⟩, hnone]
          rfl

/-! ## Errors left behind -/

theorem leftBehind_snoc : LeftBehind d (history ++ [x]) ↔
    (d ∈ x.before.live.domains ∧ d ∉ x.after.live.domains) ∨
      LeftBehind d history ∧ (x.action.prunes = true → d ∈ x.before.live.domains) := by
  constructor
  · rintro ⟨pre, y, post, hsplit, hbefore, hafter, hpost⟩
    induction post using List.reverseRecOn with
    | nil =>
        obtain ⟨-, hy⟩ := List.append_inj' hsplit rfl
        obtain rfl := List.singleton_inj.1 hy
        exact .inl ⟨hbefore, hafter⟩
    | append_singleton post z _ =>
        rw [← List.cons_append, ← List.append_assoc] at hsplit
        obtain ⟨rfl, hz⟩ := List.append_inj' hsplit rfl
        obtain rfl := List.singleton_inj.1 hz
        exact .inr ⟨⟨pre, y, post, rfl, hbefore, hafter,
          fun w hw => hpost w (List.mem_append_left _ hw)⟩, hpost x (by simp)⟩
  · rintro (⟨hbefore, hafter⟩ | ⟨⟨pre, y, post, rfl, hbefore, hafter, hpost⟩, hx⟩)
    · exact ⟨history, x, [], rfl, hbefore, hafter, by simp⟩
    · refine ⟨pre, y, post ++ [x], by simp, hbefore, hafter, fun w hw => ?_⟩
      rcases List.mem_append.1 hw with hw | hw
      · exact hpost w hw
      · exact List.mem_singleton.1 hw ▸ hx

/-- The error of a domain is what the history since it became live says, and it has none if it is not
live. -/
def Settled (e : Engine) (history : List (Step Engine EngineAction EngineEvent)) (d : String) :
    Prop :=
  (d ∈ e.live.domains → e.errors.get? d = lastError? d history) ∧
    (d ∉ e.live.domains → e.errors.get? d = none)

theorem settled_of_leftBehind (complete : x.before.Complete)
    (taken : x.before.step x.action = some (x.after, x.events)) (hprunes : x.action.prunes = true)
    (hgone : d ∉ x.before.live.domains) : x.after.Settled (history ++ [x]) d := by
  have hlive : x.after.live = x.before.live := live_of_not_swapped (fun id haction => by
    rw [haction] at hprunes
    contradiction) taken
  refine ⟨fun hd => absurd (hlive ▸ hd) hgone, fun _ => ?_⟩
  have notes := notes_of_step x taken d
  generalize verdict? d x = verdict at notes
  generalize x.action = action at notes hprunes
  cases action with
  | prune id =>
      cases notes with
      | nothing _ _ hkept => exact absurd ((complete.live.collectors d).1 (hkept id rfl)) hgone
      | forgets _ hnone => exact hnone
  | _ => contradiction

theorem Settled.step (h : x.before.Settled history d) (complete : x.before.Complete)
    (taken : x.before.step x.action = some (x.after, x.events)) :
    x.after.Settled (history ++ [x]) d ∨ LeftBehind d (history ++ [x]) := by
  by_cases hbefore : d ∈ x.before.live.domains
  · by_cases hafter : d ∈ x.after.live.domains
    · refine .inl ⟨fun _ => ?_, fun hgone => absurd hafter hgone⟩
      rw [lastError?_snoc_of_live hbefore, ← h.1 hbefore]
      have notes := notes_of_step x taken d
      generalize verdict? d x = verdict at notes
      generalize x.action = action at notes
      cases notes with
      | nothing hsame => exact hsame
      | failure herror => exact herror
      | success hnone => exact hnone
      | forgets hgone => exact absurd ((complete.live.collectors d).2 hbefore) hgone
    · exact .inr (leftBehind_snoc.2 (.inl ⟨hbefore, hafter⟩))
  · -- nothing is recorded of a domain that is not live
    have hnone : x.after.errors.get? d = none := by
      have notes := notes_of_step x taken d
      generalize hverdict : verdict? d x = verdict at notes
      generalize x.action = action at notes
      cases notes with
      | nothing hsame => rw [hsame, h.2 hbefore]
      | failure => exact absurd (mem_domains_of_verdict? complete taken hverdict) hbefore
      | success hnone => exact hnone
      | forgets _ hnone => exact hnone
    exact .inl ⟨fun _ => by rw [lastError?_snoc_of_not hbefore, hnone], fun _ => hnone⟩

theorem settled_or_leftBehind {settings : EngineSettings} {board : Board}
    (run : Run Engine.step (create settings board) history e) (d : String) :
    e.Settled history d ∨ LeftBehind d history := by
  induction run with
  | nil => exact .inl ⟨by simp [create, say, LiveState.domains], fun _ => rfl⟩
  | @snoc history e e' action events run taken ih =>
      have complete := complete_of_run run
      rcases ih with hsettled | hleft
      · exact hsettled.step (x := ⟨e, action, e', events⟩) complete taken
      · by_cases hforgets : action.prunes = true ∧ d ∉ e.live.domains
        · exact .inl (settled_of_leftBehind (x := ⟨e, action, e', events⟩) complete taken hforgets.1
            hforgets.2)
        · refine .inr (leftBehind_snoc.2 (.inr ⟨hleft, fun hprunes => ?_⟩))
          by_contra hgone
          exact hforgets ⟨hprunes, hgone⟩

/-! ## Preparations that come to their end -/

theorem pending_snoc : Pending (history ++ [x]) id ↔
    x.action ≠ .prune id ∧ (Pending history id ∨ x.action = .swap id .all ∧
      ∀ y ∈ history, y.action ≠ .prune id) := by
  constructor
  · rintro ⟨⟨y, hy, hswap⟩, hprune⟩
    have hbefore : ∀ y ∈ history, y.action ≠ .prune id :=
      fun y hy => hprune y (List.mem_append_left _ hy)
    refine ⟨hprune x (by simp), ?_⟩
    rcases List.mem_append.1 hy with hy | hy
    · exact .inl ⟨⟨y, hy, hswap⟩, hbefore⟩
    · obtain rfl := List.mem_singleton.1 hy
      exact .inr ⟨hswap, hbefore⟩
  · rintro ⟨hx, hcases⟩
    have hall : (∀ y ∈ history, y.action ≠ .prune id) →
        ∀ y ∈ history ++ [x], y.action ≠ .prune id := by
      intro hprune y hy
      rcases List.mem_append.1 hy with hy | hy
      · exact hprune y hy
      · exact List.mem_singleton.1 hy ▸ hx
    rcases hcases with ⟨⟨y, hy, hswap⟩, hprune⟩ | ⟨hswap, hprune⟩
    · exact ⟨⟨y, List.mem_append_left _ hy, hswap⟩, hall hprune⟩
    · exact ⟨⟨x, by simp, hswap⟩, hall hprune⟩

/-- Preparations one by one: a domain whose error has been left behind is one that a preparation
has taken out that has not come to its end, and it is still out or that preparation is over. -/
structure Tended (e : Engine) (history : List (Step Engine EngineAction EngineEvent)) : Prop where
  alone : ∀ id id' p p', e.preparations.get? id = some p → e.preparations.get? id' = some p' →
    id = id'
  pruned : ∀ x ∈ history, ∀ id, x.action = .prune id → e.Over id
  left : ∀ d, LeftBehind d history → ∃ id, Pending history id ∧
    (e.Over id ∨ d ∉ e.live.domains ∧
      ∃ p, e.preparations.get? id = some p ∧ p.stage.isSwapped = true)

theorem tended_create (settings : EngineSettings) (board : Board) :
    (create settings board).Tended [] where
  alone := by simp [create, say]
  pruned := by simp
  left d h := by simp [LeftBehind] at h

namespace Tended

theorem alone_step (h : x.before.Tended history) (numbered : x.before.Numbered)
    (oneByOne : OneByOne x) (taken : x.before.step x.action = some (x.after, x.events)) :
    ∀ id id' p p', x.after.preparations.get? id = some p →
      x.after.preparations.get? id' = some p' → id = id' := by
  intro id id' p p' hp hp'
  rcases prepared_before numbered taken hp with ⟨q, hq⟩ | ⟨hbegins, rfl⟩
  · rcases prepared_before numbered taken hp' with ⟨q', hq'⟩ | ⟨hbegins, -⟩
    · exact h.alone id id' q q' hq hq'
    · simp [oneByOne hbegins] at hq
  · rcases prepared_before numbered taken hp' with ⟨q', hq'⟩ | ⟨-, rfl⟩
    · simp [oneByOne hbegins] at hq'
    · rfl

theorem pruned_step (h : x.before.Tended history) (numbered : x.before.Numbered)
    (taken : x.before.step x.action = some (x.after, x.events)) :
    ∀ y ∈ history ++ [x], ∀ id, y.action = .prune id → x.after.Over id := by
  intro y hy id hprune
  rcases List.mem_append.1 hy with hy | hy
  · exact (h.pruned y hy id hprune).step taken
  · obtain rfl := List.mem_singleton.1 hy
    have hle := nextId_le_of_step taken
    rw [hprune] at taken
    obtain ⟨p, hp, -, -, hnext⟩ := prune_eq_some taken
    have hlt := numbered.preparations id p hp
    refine ⟨Nat.lt_of_lt_of_le hlt hle, ?_⟩
    have hafter : y.after.preparations = y.before.preparations.erase id := congrArg (·.1.preparations) hnext
    rw [hafter, Table.get?_erase, if_pos rfl]

theorem pending_of_swap (h : x.before.Tended history) (hswap : x.action = .swap id .all)
    (taken : x.before.step x.action = some (x.after, x.events)) :
    Pending (history ++ [x]) id ∧
      ∃ p, x.after.preparations.get? id = some p ∧ p.stage.isSwapped = true := by
  have hpending : ∀ y ∈ history, y.action ≠ .prune id := by
    intro y hy hprune
    rw [hswap] at taken
    obtain ⟨p, hp, -⟩ := swap_all_eq_some taken
    simp [(h.pruned y hy id hprune).2] at hp
  refine ⟨pending_snoc.2 ⟨by simp [hswap], .inr ⟨hswap, hpending⟩⟩, ?_⟩
  rw [hswap] at taken
  obtain ⟨p, -, -, -, hnext⟩ := swap_all_eq_some taken
  have hafter : x.after.preparations =
      x.before.preparations.insert id { p with stage := .swapped x.before.live.cleanups } :=
    congrArg (·.1.preparations) hnext
  exact ⟨_, hafter ▸ Table.get?_insert_self .., rfl⟩

theorem left_step (h : x.before.Tended history) (numbered : x.before.Numbered)
    (taken : x.before.step x.action = some (x.after, x.events)) (d : String)
    (hleft : LeftBehind d (history ++ [x])) :
    ∃ id, Pending (history ++ [x]) id ∧ (x.after.Over id ∨ d ∉ x.after.live.domains ∧
      ∃ p, x.after.preparations.get? id = some p ∧ p.stage.isSwapped = true) := by
  obtain ⟨hbefore, hafter⟩ | ⟨hwas, hprunes⟩ := leftBehind_snoc.1 hleft
  · -- the domain goes with this step, which is a swap
    have hswap : ∃ id, x.action = .swap id .all := by
      by_contra hnot
      rw [live_of_not_swapped (fun id haction => hnot ⟨id, haction⟩) taken] at hafter
      exact hafter hbefore
    obtain ⟨id, hswap⟩ := hswap
    obtain ⟨hpending, hthere⟩ := h.pending_of_swap hswap taken
    exact ⟨id, hpending, .inr ⟨hafter, hthere⟩⟩
  · obtain ⟨id, hpending, hstill⟩ := h.left d hwas
    have hother : x.action ≠ .prune id := by
      intro hprune
      have htaken := taken
      rw [hprune] at htaken hprunes
      obtain ⟨p, hp, -⟩ := prune_eq_some htaken
      rcases hstill with hover | ⟨hgone, -⟩
      · simp [hover.2] at hp
      · exact hgone (hprunes rfl)
    refine ⟨id, pending_snoc.2 ⟨hother, .inl hpending⟩, ?_⟩
    rcases hstill with hover | ⟨hgone, p, hp, hswapped⟩
    · exact .inl (hover.step taken)
    · cases hlater : x.after.preparations.get? id with
      | none =>
          have hlt := numbered.preparations id p hp
          exact .inl ⟨Nat.lt_of_lt_of_le hlt (nextId_le_of_step taken), hlater⟩
      | some later =>
          refine .inr ⟨?_, later, rfl, swapped_step numbered taken hp hswapped hlater⟩
          -- nobody else is there to swap
          rw [live_of_not_swapped (fun k haction => ?_) taken]
          · exact hgone
          · rw [haction] at taken
            obtain ⟨q, hq, hstage, -⟩ := swap_all_eq_some taken
            obtain rfl := h.alone id k p q hp hq
            obtain rfl := Option.some.inj (hp.symm.trans hq)
            simp [hstage, PrepareStage.isSwapped] at hswapped

theorem step (h : x.before.Tended history) (numbered : x.before.Numbered) (oneByOne : OneByOne x)
    (taken : x.before.step x.action = some (x.after, x.events)) :
    x.after.Tended (history ++ [x]) where
  alone := h.alone_step numbered oneByOne taken
  pruned := h.pruned_step numbered taken
  left := h.left_step numbered taken

end Tended

section Runs

variable {settings : EngineSettings} {board : Board}

theorem tended_of_run (run : Run step (create settings board) history e)
    (oneByOne : ∀ x ∈ history, OneByOne x) : e.Tended history := by
  induction run with
  | nil => exact tended_create settings board
  | @snoc steps e e' action events run taken ih =>
      have before := ih (fun x hx => oneByOne x (List.mem_append_left _ hx))
      exact before.step (x := ⟨e, action, e', events⟩) (numbered_of_run run)
        (oneByOne _ (List.mem_append_right _ List.mem_cons_self)) taken

/-- Preparations that come one by one and to their end leave no error behind. -/
theorem not_leftBehind_of_run (run : Run step (create settings board) history e)
    (oneByOne : ∀ x ∈ history, OneByOne x) (ended : ∀ id, ¬ Pending history id) (d : String) :
    ¬ LeftBehind d history := by
  intro hleft
  obtain ⟨id, hpending, -⟩ := (tended_of_run run oneByOne).left d hleft
  exact ended id hpending

theorem Settled.error_iff (h : e.Settled history d) (error : String) :
    e.errors.get? d = some error ↔
      d ∈ e.live.domains ∧ (verdicts d (sinceLive d history)).getLast? = some (some error) := by
  by_cases hd : d ∈ e.live.domains
  · rw [h.1 hd, lastError?, Option.join_eq_some_iff]
    exact (and_iff_right hd).symm
  · simp [h.2 hd, hd]

/-- Only a round that has collected a domain, and the end of a preparation once the domain is gone,
change its error. -/
theorem changed_error {x : Step Engine EngineAction EngineEvent} (complete : x.before.Complete)
    (taken : x.before.step x.action = some (x.after, x.events))
    (changed : x.after.errors.get? d ≠ x.before.errors.get? d) :
    (∃ id batch, .collected id batch ∈ x.events ∧ (d ∈ batch.values ∨ d ∈ batch.errors)) ∨
      (∃ id, x.action = .prune id) ∧ d ∉ x.before.live.domains := by
  cases hverdict : verdict? d x with
  | some verdict =>
      obtain ⟨id, now, r, batch, -, -, -, hreturned, hmem, -⟩ := closed_of_verdict? taken hverdict
      exact .inl ⟨id, batch, hreturned, hmem⟩
  | none =>
      have notes := notes_of_step x taken d
      rw [hverdict] at notes
      generalize x.action = action at notes
      cases notes with
      | nothing hsame => exact absurd hsame changed
      | @forgets id hgone => exact .inr ⟨⟨id, rfl⟩, fun h => hgone ((complete.live.collectors d).2 h)⟩

/--
At any time the recorded error of a domain is that of the last round that has
collected it since a preparation came to its end without the domain live.  If its
error has not been left behind, it has one exactly if it is live and the last
round that has collected it since it became so has ended with this error.  So it
is for all domains if the preparations come one after the other and each that has
swapped has come to its end.  Nothing but such rounds, and the end of a
preparation for domains that are gone, ever changes an error.
-/
theorem error_iff_last_verdict (run : Run step (create settings board) history e) :
    (∀ d error, e.errors.get? d = some error ↔
      (verdicts d (sinceForgotten d history)).getLast? = some (some error)) ∧
    (∀ d, ¬ LeftBehind d history → ∀ error, e.errors.get? d = some error ↔
      d ∈ e.live.domains ∧ (verdicts d (sinceLive d history)).getLast? = some (some error)) ∧
    ((∀ x ∈ history, OneByOne x) → (∀ id, ¬ Pending history id) →
      ∀ d error, e.errors.get? d = some error ↔
        d ∈ e.live.domains ∧ (verdicts d (sinceLive d history)).getLast? = some (some error)) ∧
    ∀ x ∈ history, ∀ d, x.after.errors.get? d ≠ x.before.errors.get? d →
      (∃ id batch, .collected id batch ∈ x.events ∧ (d ∈ batch.values ∨ d ∈ batch.errors)) ∨
        (∃ id, x.action = .prune id) ∧ d ∉ x.before.live.domains := by
  have settled : ∀ d, ¬ LeftBehind d history → e.Settled history d :=
    fun d hkept => (settled_or_leftBehind run d).resolve_right hkept
  refine ⟨fun d error => ?_, fun d hkept => (settled d hkept).error_iff, ?_, ?_⟩
  · rw [error_of_run run d, Option.join_eq_some_iff]
  · exact fun oneByOne ended d => (settled d (not_leftBehind_of_run run oneByOne ended d)).error_iff
  · intro x hx d changed
    obtain ⟨pre, post, rfl⟩ := List.append_of_mem hx
    obtain ⟨before, taken, -⟩ := run.taken
    exact changed_error (complete_of_run before) taken changed

end Runs

/-- A domain fails, goes, comes back and fails in another way, while a round that does not collect
it is dropped and a preparation fails. -/
def failingAgain : List EngineAction :=
  goingLive 0 (planOf "a" "bad") ++ roundOf 1 "bad" (.failed ["query failed"]) ++
    goingLive 2 (planOf "b" "good") ++ goingLive 3 (planOf "c" "bad") ++
    roundOf 4 "bad" (.failed ["timeout"]) ++
    [.beginCollect "other", .dropRound 5, .beginPrepare (planOf "d" "good") false,
      .pinged 6 .answered, .copyLive 6, .visit 6 (.failed ["refused"]) false]

def runOfFailingAgain : List (Step Engine EngineAction EngineEvent) × Engine :=
  Run.follow step (create {} ∅) failingAgain

instance (x : Step Engine EngineAction EngineEvent) : Decidable (OneByOne x) :=
  inferInstanceAs (Decidable (_ → _))

theorem error_iff_last_verdict_failingAgain :
    Run step (create {} ∅) runOfFailingAgain.1 runOfFailingAgain.2 ∧
      (∀ x ∈ runOfFailingAgain.1, OneByOne x) ∧ (∀ id, ¬ Pending runOfFailingAgain.1 id) ∧
      runOfFailingAgain.2.errors.get? "bad" = some "timeout" ∧
      (verdicts "bad" (sinceForgotten "bad" runOfFailingAgain.1)).getLast? = some (some "timeout") ∧
      (verdicts "bad" (sinceLive "bad" runOfFailingAgain.1)).getLast? = some (some "timeout") := by
  have hrun : Run step (create {} ∅) runOfFailingAgain.1 runOfFailingAgain.2 := Run.of_follow ..
  have honeByOne : ∀ x ∈ runOfFailingAgain.1, OneByOne x := by decide +kernel
  have hended : ∀ x ∈ runOfFailingAgain.1, ∀ id ∈ x.action.swapped?,
      ∃ y ∈ runOfFailingAgain.1, y.action = .prune id := by decide +kernel
  have hsettled : ∀ id, ¬ Pending runOfFailingAgain.1 id := by
    rintro id ⟨⟨x, hx, hswap⟩, hprune⟩
    obtain ⟨y, hy, hend⟩ := hended x hx id (by rw [hswap]; rfl)
    exact hprune y hy hend
  have herror : runOfFailingAgain.2.errors.get? "bad" = some "timeout" := by decide +kernel
  obtain ⟨hforgotten, -, hsince, -⟩ := error_iff_last_verdict hrun
  exact ⟨hrun, honeByOne, hsettled, herror, (hforgotten "bad" "timeout").1 herror,
    ((hsince honeByOne hsettled "bad" "timeout").1 herror).2⟩

/-- A domain fails, and the preparation that takes it out of the live plan is broken off by a
cleanup, behind its swap. -/
def brokenOff : List EngineAction :=
  [.beginPrepare (planOf "a" "bad") false, .pinged 0 .answered, .copyLive 0,
    .visit 0 .created false, .collectorPrepared 0 (.prepared true), .conclude 0, .swap 0 .all,
    .cleanUp 0 none, .prune 0] ++
    roundOf 1 "bad" (.failed ["query failed"]) ++
    [.beginPrepare (planOf "b" "good") false, .pinged 2 .answered, .copyLive 2,
      .visit 2 .created false, .collectorPrepared 2 (.prepared false), .conclude 2, .swap 2 .all,
      .cleanUp 2 (some 0)]

def runOfBrokenOff : List (Step Engine EngineAction EngineEvent) × Engine :=
  Run.follow step (create {} ∅) brokenOff

/-- What the end of a preparation would have forgotten stays, though none is under way any more, and
no round has failed for a live domain. -/
theorem left_behind_by_cleanup :
    Run step (create {} ∅) runOfBrokenOff.1 runOfBrokenOff.2 ∧
      (∀ x ∈ runOfBrokenOff.1, OneByOne x) ∧ runOfBrokenOff.2.preparations = ∅ ∧
      ¬ (runOfBrokenOff.2.errors.get? "bad" = some "query failed" ↔
        "bad" ∈ runOfBrokenOff.2.live.domains ∧
          (verdicts "bad" (sinceLive "bad" runOfBrokenOff.1)).getLast? =
            some (some "query failed")) := by
  refine ⟨Run.of_follow .., by decide +kernel, by decide +kernel, fun h => ?_⟩
  have herror : runOfBrokenOff.2.errors.get? "bad" = some "query failed" := by decide +kernel
  have hgone : "bad" ∉ runOfBrokenOff.2.live.domains := by decide +kernel
  exact hgone (h.1 herror).1

end Engine

end Cadence
