import Cadence.Proofs.Engine.Actions
import Cadence.Proofs.Plan.Names
import Cadence.Proofs.Run

/-!
# The live plan, its collectors and what they select

Collectors are shared between the live plan and a plan under preparation, so a
preparation that comes to nothing leaves staged selections behind.  The invariant
`Consistent` says why none of them is ever published: every collector was made
for one domain and stays with it, whoever goes for the swap has staged the
selection of each of its collectors himself, and a round that has the live state
finds in each collector what the live plan asks of its domain.
-/

namespace Cadence

namespace Selection

@[simp] theorem commit_live (s : Selection) : s.commit.live = s.staged.getD s.live := by
  cases s with
  | mk live staged => cases staged <;> rfl

@[simp] theorem commit_staged (s : Selection) : s.commit.staged = none := by
  cases s with
  | mk live staged => cases staged <;> rfl

@[simp] theorem commit_commit (s : Selection) : s.commit.commit = s.commit := by
  cases s with
  | mk live staged => cases staged <;> rfl

end Selection

namespace Engine

/-- What a collector has staged and committed; nothing at first. -/
def selection (e : Engine) (collector : Nat) : Selection :=
  (e.selections.get? collector).getD {}

theorem selection_stageSelection (e : Engine) (collector : Nat) (plan : Plan) (domain : String)
    (c : Nat) :
    (e.stageSelection collector plan domain).selection c =
      if c = collector then (e.selection c).stage plan domain else e.selection c := by
  rw [selection, stageSelection, Table.get?_insert]
  by_cases hc : c = collector
  · rw [if_pos hc, if_pos hc, hc]
    rfl
  · rw [if_neg hc, if_neg hc]
    rfl

/-- What is staged is not live yet. -/
theorem live_stageSelection (e : Engine) (collector : Nat) (plan : Plan) (domain : String)
    (c : Nat) : ((e.stageSelection collector plan domain).selection c).live =
      (e.selection c).live := by
  rw [selection_stageSelection]
  split <;> rfl

private theorem getD_foldl_commit (collectors : List Nat) (selections : Table Nat Selection)
    (c : Nat) :
    ((collectors.foldl (fun s c => s.modify c Selection.commit) selections).get? c).getD {} =
      if c ∈ collectors then ((selections.get? c).getD {}).commit
      else (selections.get? c).getD {} := by
  induction collectors generalizing selections with
  | nil => rfl
  | cons first rest ih =>
      rw [List.foldl_cons, ih, Table.get?_modify]
      by_cases hfirst : c = first
      · subst hfirst
        have hcommit : ((selections.get? c).map Selection.commit).getD {} =
            ((selections.get? c).getD {}).commit := by
          cases selections.get? c <;> rfl
        simp [hcommit]
      · simp [hfirst]

theorem selection_commitAll (e : Engine) (collectors : Table String Nat) (c : Nat) :
    (e.commitAll collectors).selection c =
      if c ∈ collectors.values then (e.selection c).commit else e.selection c :=
  getD_foldl_commit collectors.values e.selections c

theorem bind_get?_selections (e : Engine) (collector : Nat) (level : String) :
    e.selections[collector]?.bind (·.get? level) = (e.selection collector).get? level := by
  rw [selection, Table.getElem?_eq_get?]
  cases e.selections.get? collector <;> rfl

end Engine

/-! ## The invariant -/

def LiveState.asks? (live : LiveState) (level domain : String) : Option Selected :=
  live.plan.bind (·.asks? level domain)

/-- The live collectors are those of the live plan and answer as it asks. -/
structure LiveState.Fits (live : LiveState) (selection : Nat → Selection) : Prop where
  levels : ∀ name, live.levels.get? name =
    live.plan.bind (fun plan => (LiveState.ofPlan plan live.collectors []).levels.get? name)
  covers : ∀ plan, live.plan = some plan → ∀ d ∈ plan.domains, d ∈ live.collectors
  answers : ∀ plan d c, live.plan = some plan → live.collectors.get? d = some c →
    (selection c).live = plan.selections d

namespace Preparation

def Holds (p : Preparation) (domain : String) (collector : Nat) : Prop :=
  p.known.get? domain = some collector ∨ p.collectors.get? domain = some collector ∨
    ∃ rest, p.stage = .preparing domain collector rest

theorem Holds.of_stage {p : Preparation} {stage : PrepareStage} {cancelled : Bool}
    (hstage : ∀ d c rest, stage ≠ .preparing d c rest) {d : String} {c : Nat}
    (hd : { p with cancelled, stage }.Holds d c) : p.Holds d c := by
  rcases hd with hknown | hprepared | ⟨rest, hpreparing⟩
  · exact Or.inl hknown
  · exact Or.inr (Or.inl hprepared)
  · exact absurd hpreparing (hstage d c rest)

def AllStaged (p : Preparation) (selection : Nat → Selection) : Prop :=
  ∀ d c, p.collectors.get? d = some c → (selection c).staged = some (p.plan.selections d)

/-- What a preparation has achieved by the stage it is at. -/
def Staged (p : Preparation) (selection : Nat → Selection) : Prop :=
  match p.stage with
  | .connecting _ | .retrying _ | .copying => p.collectors = ∅
  | .visiting rest =>
      p.AllStaged selection ∧ ∀ d ∈ p.plan.domains, d ∈ rest ∨ d ∈ p.collectors
  | .preparing domain collector rest =>
      p.AllStaged selection ∧ (selection collector).staged = some (p.plan.selections domain) ∧
        ∀ d ∈ p.plan.domains, d = domain ∨ d ∈ rest ∨ d ∈ p.collectors
  | .swapping => p.AllStaged selection ∧ ∀ d ∈ p.plan.domains, d ∈ p.collectors
  | .swapped _ | .pruning => True

end Preparation

namespace RoundTask

/-- The collector has been asked, and the task is not lost. -/
def Asked (t : RoundTask) : Prop :=
  t.stage = .collecting ∨ ∃ result, t.stage = .finished result ∧ result ≠ .died

theorem asked_of_result? {t : RoundTask} {result : CollectResult} (h : t.result? = some result)
    (halive : result ≠ .died) : t.Asked := by
  rw [result?] at h
  split at h
  · next _ hstage =>
      obtain rfl := Option.some.inj h
      exact Or.inr ⟨_, hstage, halive⟩
  · contradiction

end RoundTask

/-- An open round collects its level from the live collectors, each as it selects. -/
def EngineRound.Follows (r : EngineRound) (live : LiveState) (selection : Nat → Selection) : Prop :=
  ∀ plan began tasks, r.stage = .collecting plan began tasks →
    plan = (live.plan.map (·.name)).getD "" ∧
    (∀ d, (tasks.get? d).map (·.collector) = ((live.levels.get? r.level).getD ∅).get? d) ∧
    ∀ d task, tasks.get? d = some task → task.Asked →
      task.selected = (selection task.collector).get? r.level

namespace Engine

/-- Every collector in use was made for one domain. -/
def Owned (live : LiveState) (preparations : Table Nat Preparation) (nextCollector : Nat) : Prop :=
  ∃ owner : Nat → String,
    (∀ d c, live.collectors.get? d = some c → owner c = d ∧ c < nextCollector) ∧
    ∀ id p d c, preparations.get? id = some p → p.Holds d c → owner c = d ∧ c < nextCollector

/-- What holds in every state of an engine whose preparations come one at a time. -/
structure Consistent (e : Engine) : Prop where
  fits : e.live.Fits e.selection
  owned : Owned e.live e.preparations e.nextCollector
  alone : ∀ id id' p p', e.preparations.get? id = some p → e.preparations.get? id' = some p' →
    id = id'
  staged : ∀ id p, e.preparations.get? id = some p → p.Staged e.selection
  follows : ∀ id r, e.rounds.get? id = some r → r.Follows e.live e.selection

theorem consistent_create (settings : EngineSettings) (board : Board) :
    (create settings board).Consistent where
  fits := ⟨fun _ => rfl, by simp [create, say], by simp [create, say]⟩
  owned := ⟨fun _ => "", by simp [create, say], by simp [create, say]⟩
  alone := by simp [create, say]
  staged := by simp [create, say]
  follows := by simp [create, say]

/-! ## Steps that leave live state, selections and rounds alone -/

structure Alike (e e' : Engine) : Prop where
  live : e'.live = e.live
  selections : e'.selections = e.selections
  rounds : e'.rounds = e.rounds
  nextCollector : e.nextCollector ≤ e'.nextCollector

variable {e e' : Engine} {id : Nat} {p p' : Preparation} {events : List EngineEvent}

theorem Alike.selection_eq (h : Alike e e') : e'.selection = e.selection := by
  funext c
  rw [selection, selection, h.selections]

theorem Owned.goesOn {live : LiveState} {preparations : Table Nat Preparation} {next next' : Nat}
    (h : Owned live preparations next) (hnext : next ≤ next')
    (holds : ∀ d c, p'.Holds d c → live.collectors.get? d = some c ∨
      ∃ id p, preparations.get? id = some p ∧ p.Holds d c) :
    Owned live (preparations.insert id p') next' := by
  obtain ⟨owner, hlive, hprepared⟩ := h
  refine ⟨owner, fun d c hd => ⟨(hlive d c hd).1, by have := (hlive d c hd).2; omega⟩, ?_⟩
  intro k q d c hq hd
  have hold : live.collectors.get? d = some c ∨ ∃ id p, preparations.get? id = some p ∧ p.Holds d c := by
    rw [Table.get?_insert] at hq
    split at hq
    · obtain rfl := Option.some.inj hq
      exact holds d c hd
    · exact Or.inr ⟨k, q, hq, hd⟩
  rcases hold with hlive' | ⟨k', q', hq', hd'⟩
  · exact ⟨(hlive d c hlive').1, by have := (hlive d c hlive').2; omega⟩
  · exact ⟨(hprepared k' q' d c hq' hd').1, by have := (hprepared k' q' d c hq' hd').2; omega⟩

theorem alone_insert (h : ∀ k q, e.preparations.get? k = some q → k = id) {k k' : Nat}
    {q q' : Preparation} (hq : (e.preparations.insert id p').get? k = some q)
    (hq' : (e.preparations.insert id p').get? k' = some q') : k = k' := by
  have only : ∀ j r, (e.preparations.insert id p').get? j = some r → j = id := by
    intro j r hr
    rw [Table.get?_insert] at hr
    split at hr
    · assumption
    · exact h j r hr
  rw [only k q hq, only k' q' hq']

namespace Consistent

theorem goesOn (h : e.Consistent) (hp : e.preparations.get? id = some p) (same : Alike e e')
    (hpreparations : e'.preparations = e.preparations.insert id p')
    (holds : ∀ d c, p'.Holds d c → p.Holds d c ∨ e.live.collectors.get? d = some c)
    (staged : p.Staged e.selection → p'.Staged e.selection) : e'.Consistent where
  fits := by
    rw [same.live, same.selection_eq]
    exact h.fits
  owned := by
    rw [same.live, hpreparations]
    refine h.owned.goesOn same.nextCollector (fun d c hd => ?_)
    rcases holds d c hd with hold | hlive
    · exact Or.inr ⟨id, p, hp, hold⟩
    · exact Or.inl hlive
  alone := by
    intro k k' q q' hq hq'
    rw [hpreparations] at hq hq'
    exact alone_insert (fun j r hr => h.alone j id r p hr hp) hq hq'
  staged := by
    intro k q hq
    rw [same.selection_eq]
    rw [hpreparations, Table.get?_insert] at hq
    split at hq
    · obtain rfl := Option.some.inj hq
      exact staged (h.staged id p hp)
    · exact h.staged k q hq
  follows := by
    rw [same.live, same.selection_eq, same.rounds]
    exact h.follows

theorem ends (h : e.Consistent) (same : Alike e e')
    (hpreparations : e'.preparations = e.preparations.erase id) : e'.Consistent := by
  have old : ∀ k q, e'.preparations.get? k = some q → e.preparations.get? k = some q := by
    intro k q hq
    rw [hpreparations, Table.get?_erase] at hq
    split at hq
    · contradiction
    · exact hq
  constructor
  · rw [same.live, same.selection_eq]
    exact h.fits
  · obtain ⟨owner, hlive, hprepared⟩ := h.owned
    have hnext := same.nextCollector
    rw [same.live]
    refine ⟨owner, fun d c hd => ?_, fun k q d c hq hd => ?_⟩
    · exact ⟨(hlive d c hd).1, Nat.lt_of_lt_of_le (hlive d c hd).2 hnext⟩
    · obtain ⟨howner, hlt⟩ := hprepared k q d c (old k q hq) hd
      exact ⟨howner, Nat.lt_of_lt_of_le hlt hnext⟩
  · intro k k' q q' hq hq'
    exact h.alone k k' q q' (old k q hq) (old k' q' hq')
  · intro k q hq
    rw [same.selection_eq]
    exact h.staged k q (old k q hq)
  · rw [same.live, same.selection_eq, same.rounds]
    exact h.follows

theorem beginPrepare (h : e.Consistent) (idle : e.preparations = ∅) (plan : Plan)
    (cancelled : Bool) : (e.beginPrepare plan cancelled).Consistent where
  fits := h.fits
  owned := by
    refine h.owned.goesOn (Nat.le_refl _) ?_
    rintro d c (hknown | hprepared | ⟨rest, hstage⟩)
    · simp at hknown
    · simp at hprepared
    · simp at hstage
  alone := by
    intro k k' q q' hq hq'
    have none_before : ∀ j r, e.preparations.get? j = some r → j = e.nextId := by simp [idle]
    exact alone_insert none_before hq hq'
  staged := by
    intro k q hq
    have hq : (e.preparations.insert e.nextId { plan, cancelled }).get? k = some q := hq
    rw [Table.get?_insert, idle] at hq
    split at hq
    · obtain rfl := Option.some.inj hq
      exact (rfl : ({ plan, cancelled } : Preparation).collectors = ∅)
    · simp at hq
  follows := h.follows

theorem cancel (h : e.Consistent) (taken : e.cancelPreparation id = some (e', events)) :
    e'.Consistent := by
  obtain ⟨p, hp, hnext⟩ := cancelPreparation_eq_some taken
  cases hnext
  exact h.goesOn hp ⟨rfl, rfl, rfl, Nat.le_refl _⟩ rfl (fun d c hd => Or.inl hd)
    (fun hstaged => hstaged)

theorem pinged (h : e.Consistent) {result : PingResult}
    (taken : e.pinged id result = some (e', events)) : e'.Consistent := by
  obtain ⟨p, attempt, hp, hstage, ⟨-, hnext⟩ | ⟨-, hnext⟩⟩ := pinged_eq_some taken
  all_goals
    cases hnext
    refine h.goesOn hp ⟨rfl, rfl, rfl, Nat.le_refl _⟩ rfl
      (fun d c hd => Or.inl (.of_stage (by simp) hd)) (fun hstaged => ?_)
    simpa [Preparation.Staged, hstage] using hstaged

theorem retry (h : e.Consistent) (taken : e.retry id = some (e', events)) : e'.Consistent := by
  obtain ⟨p, attempt, hp, hstage, hnext⟩ := retry_eq_some taken
  cases hnext
  refine h.goesOn hp ⟨rfl, rfl, rfl, Nat.le_refl _⟩ rfl
    (fun d c hd => Or.inl (.of_stage (by simp) hd)) (fun hstaged => ?_)
  simpa [Preparation.Staged, hstage] using hstaged

theorem noticeCancel (h : e.Consistent) (taken : e.noticeCancel id = some (e', events)) :
    e'.Consistent := by
  obtain ⟨p, -, -, -, hnext⟩ := noticeCancel_eq_some taken
  cases hnext
  exact h.ends ⟨rfl, rfl, rfl, Nat.le_refl _⟩ rfl

theorem copyLive (h : e.Consistent) (taken : e.copyLive id = some (e', events)) :
    e'.Consistent := by
  obtain ⟨p, hp, hstage, -, hnext⟩ := copyLive_eq_some taken
  cases hnext
  refine h.goesOn hp ⟨rfl, rfl, rfl, Nat.le_refl _⟩ rfl ?_ (fun hstaged => ?_)
  · rintro d c (hknown | hprepared | ⟨rest, hpreparing⟩)
    · exact Or.inr hknown
    · exact Or.inl (Or.inr (Or.inl hprepared))
    · simp at hpreparing
  · have hnone : p.collectors = ∅ := by simpa [Preparation.Staged, hstage] using hstaged
    refine ⟨fun d c hd => ?_, fun d hd => Or.inl hd⟩
    simp [hnone] at hd

theorem conclude (h : e.Consistent) (taken : e.conclude id = some (e', events)) :
    e'.Consistent := by
  obtain ⟨p, hp, hstage, ⟨-, hnext⟩ | ⟨-, hnext⟩⟩ := conclude_eq_some taken
  · cases hnext
    exact h.ends ⟨rfl, rfl, rfl, Nat.le_refl _⟩ rfl
  · cases hnext
    refine h.goesOn hp ⟨rfl, rfl, rfl, Nat.le_refl _⟩ rfl
      (fun d c hd => Or.inl (.of_stage (by simp) hd)) (fun hstaged => ?_)
    simpa [Preparation.Staged, hstage, Preparation.AllStaged] using hstaged

theorem collectorPrepared (h : e.Consistent) {result : CollectorPrepared}
    (taken : e.collectorPrepared id result = some (e', events)) : e'.Consistent := by
  obtain ⟨p, domain, collector, rest, hp, hstage, ⟨outcome, -, hnext⟩ | ⟨cleanup, -, hnext⟩⟩ :=
    collectorPrepared_eq_some taken
  · cases hnext
    exact h.ends ⟨rfl, rfl, rfl, Nat.le_refl _⟩ rfl
  · cases hnext
    refine h.goesOn hp ⟨rfl, rfl, rfl, Nat.le_refl _⟩ rfl ?_ (fun hstaged => ?_)
    · rintro d c (hknown | hprepared | ⟨rest', hpreparing⟩)
      · exact Or.inl (Or.inl hknown)
      · rw [Table.get?_insert] at hprepared
        split at hprepared
        · next hd =>
            obtain rfl := Option.some.inj hprepared
            exact Or.inl (Or.inr (Or.inr ⟨rest, hd ▸ hstage⟩))
        · exact Or.inl (Or.inr (Or.inl hprepared))
      · simp at hpreparing
    · obtain ⟨hall, hcollector, hcovers⟩ : p.AllStaged e.selection ∧
          (e.selection collector).staged = some (p.plan.selections domain) ∧
          ∀ d ∈ p.plan.domains, d = domain ∨ d ∈ rest ∨ d ∈ p.collectors := by
        simpa [Preparation.Staged, hstage] using hstaged
      refine ⟨fun d c hd => ?_, fun d hd => ?_⟩
      · rw [Table.get?_insert] at hd
        split at hd
        · next hdomain =>
            obtain rfl := Option.some.inj hd
            exact hdomain ▸ hcollector
        · exact hall d c hd
      · rw [Table.mem_insert]
        rcases hcovers d hd with hdomain | hrest | hprepared
        · exact Or.inr (Or.inl hdomain)
        · exact Or.inl hrest
        · exact Or.inr (Or.inr hprepared)

theorem cleanUp (h : e.Consistent) {finished : Option Nat}
    (taken : e.cleanUp id finished = some (e', events)) : e'.Consistent := by
  obtain ⟨p, cleanups, hp, hstage, ⟨-, hnext⟩ | ⟨n, -, -, hnext⟩⟩ := cleanUp_eq_some taken
  · cases hnext
    exact h.goesOn hp ⟨rfl, rfl, rfl, Nat.le_refl _⟩ rfl
      (fun d c hd => Or.inl (.of_stage (by simp) hd)) (fun _ => trivial)
  · cases hnext
    exact h.ends ⟨rfl, rfl, rfl, Nat.le_refl _⟩ rfl

theorem prune (h : e.Consistent) (taken : e.prune id = some (e', events)) : e'.Consistent := by
  obtain ⟨p, -, -, -, hnext⟩ := prune_eq_some taken
  cases hnext
  exact h.ends ⟨rfl, rfl, rfl, Nat.le_refl _⟩ rfl

theorem dropPreparation (h : e.Consistent) (taken : e.dropPreparation id = some (e', events)) :
    e'.Consistent := by
  obtain ⟨p, -, -, hnext⟩ := dropPreparation_eq_some taken
  cases hnext
  exact h.ends ⟨rfl, rfl, rfl, Nat.le_refl _⟩ rfl

/-! ## Staging -/

private theorem same_domain (h : e.Consistent) (hp : e.preparations.get? id = some p)
    {domain d : String} {collector made : Nat}
    (hsource : p.known.get? domain = some collector ∧ made = e.nextCollector ∨
      p.known.get? domain = none ∧ collector = e.nextCollector ∧ made = e.nextCollector + 1)
    (hd : p.collectors.get? d = some collector) : d = domain := by
  obtain ⟨owner, -, hprepared⟩ := h.owned
  obtain ⟨howner, hlt⟩ := hprepared id p d collector hp (Or.inr (Or.inl hd))
  rcases hsource with ⟨hknown, -⟩ | ⟨-, hnew, -⟩
  · exact howner.symm.trans (hprepared id p domain collector hp (Or.inl hknown)).1
  · omega

private theorem owned_asked (h : e.Consistent) (hp : e.preparations.get? id = some p)
    {domain : String} {collector : Nat} {rest : List String} {made : Nat}
    (hsource : p.known.get? domain = some collector ∧ made = e.nextCollector ∨
      p.known.get? domain = none ∧ collector = e.nextCollector ∧ made = e.nextCollector + 1) :
    Owned e.live (e.preparations.insert id { p with stage := .preparing domain collector rest })
      made := by
  rcases hsource with ⟨hknown, rfl⟩ | ⟨-, rfl, rfl⟩
  · refine h.owned.goesOn (Nat.le_refl _) ?_
    rintro d c (hd | hd | ⟨rest', hd⟩)
    · exact Or.inr ⟨id, p, hp, Or.inl hd⟩
    · exact Or.inr ⟨id, p, hp, Or.inr (Or.inl hd)⟩
    · obtain ⟨rfl, rfl, -⟩ : domain = d ∧ collector = c ∧ rest = rest' := by simpa using hd
      exact Or.inr ⟨id, p, hp, Or.inl hknown⟩
  · -- a new collector belongs to the domain it was made for
    obtain ⟨owner, hlive, hprepared⟩ := h.owned
    have old : ∀ d c, owner c = d ∧ c < e.nextCollector →
        (if c = e.nextCollector then domain else owner c) = d ∧ c < e.nextCollector + 1 := by
      rintro d c ⟨howner, hlt⟩
      rw [if_neg (Nat.ne_of_lt hlt)]
      exact ⟨howner, Nat.lt_succ_of_lt hlt⟩
    refine ⟨fun c => if c = e.nextCollector then domain else owner c,
      fun d c hd => old d c (hlive d c hd), ?_⟩
    intro k q d c hq hd
    rw [Table.get?_insert] at hq
    split at hq
    · obtain rfl := Option.some.inj hq
      rcases hd with hd | hd | ⟨rest', hd⟩
      · exact old d c (hprepared id p d c hp (Or.inl hd))
      · exact old d c (hprepared id p d c hp (Or.inr (Or.inl hd)))
      · obtain ⟨rfl, rfl, -⟩ : domain = d ∧ e.nextCollector = c ∧ rest = rest' := by simpa using hd
        simp
    · exact old d c (hprepared k q d c hq hd)

private theorem fits_congr {live : LiveState} {selection selection' : Nat → Selection}
    (h : live.Fits selection) (same : ∀ c, (selection' c).live = (selection c).live) :
    live.Fits selection' where
  levels := h.levels
  covers := h.covers
  answers plan d c hplan hd := (same c).trans (h.answers plan d c hplan hd)

private theorem follows_congr {r : EngineRound} {live : LiveState}
    {selection selection' : Nat → Selection} (h : r.Follows live selection)
    (same : ∀ c, (selection' c).live = (selection c).live) : r.Follows live selection' := by
  intro plan began tasks hstage
  obtain ⟨hplan, hcollectors, hselected⟩ := h plan began tasks hstage
  refine ⟨hplan, hcollectors, fun d task htask hasked => ?_⟩
  rw [hselected d task htask hasked, Selection.get?, Selection.get?, same]

private theorem asked (h : e.Consistent) (hp : e.preparations.get? id = some p) {domain : String}
    {collector made : Nat} {rest : List String} (hstage : p.stage = .visiting (domain :: rest))
    (hsource : p.known.get? domain = some collector ∧ made = e.nextCollector ∨
      p.known.get? domain = none ∧ collector = e.nextCollector ∧ made = e.nextCollector + 1)
    (hlive : e'.live = e.live) (hrounds : e'.rounds = e.rounds) (hmade : e'.nextCollector = made)
    (hpreparations : e'.preparations =
      e.preparations.insert id { p with stage := .preparing domain collector rest })
    (hselection : ∀ c, e'.selection c =
      if c = collector then (e.selection c).stage p.plan domain else e.selection c) :
    e'.Consistent := by
  have hsame : ∀ c, (e'.selection c).live = (e.selection c).live := by
    intro c
    rw [hselection]
    split <;> rfl
  have hid : ∀ k q, e.preparations.get? k = some q → k = id :=
    fun k q hq => h.alone k id q p hq hp
  have hstaged : ({ p with stage := .preparing domain collector rest } : Preparation).Staged
      e'.selection := by
    obtain ⟨hall, hcovers⟩ : p.AllStaged e.selection ∧
        ∀ d ∈ p.plan.domains, d ∈ domain :: rest ∨ d ∈ p.collectors := by
      simpa only [Preparation.Staged, hstage] using h.staged id p hp
    refine ⟨fun d c hd => ?_, ?_, fun d hd => ?_⟩
    · rw [hselection]
      split
      · next hc =>
          subst hc
          rw [same_domain h hp hsource hd]
          rfl
      · exact hall d c hd
    · rw [hselection, if_pos rfl]
      rfl
    · rw [← or_assoc, ← List.mem_cons]
      exact hcovers d hd
  constructor
  · rw [hlive]
    exact fits_congr h.fits hsame
  · rw [hlive, hpreparations, hmade]
    exact owned_asked h hp hsource
  · intro k k' q q' hq hq'
    rw [hpreparations] at hq hq'
    exact alone_insert hid hq hq'
  · intro k q hq
    rw [hpreparations, Table.get?_insert] at hq
    split at hq
    · obtain rfl := Option.some.inj hq
      exact hstaged
    · next hk => exact absurd (hid k q hq) hk
  · intro k r hr
    rw [hrounds] at hr
    rw [hlive]
    exact follows_congr (h.follows k r hr) hsame

theorem visit (h : e.Consistent) {creation : Creation} {noticed : Bool}
    (taken : e.visit id creation noticed = some (e', events)) : e'.Consistent := by
  obtain ⟨p, domain, rest, made, hp, hstage, ⟨hmade, _, -, hnext⟩ | ⟨collector, hsource, hnext⟩⟩ :=
    visit_eq_some taken
  · have hle : e.nextCollector ≤ made := by omega
    cases hnext
    exact h.ends ⟨rfl, rfl, rfl, hle⟩ rfl
  · cases hnext
    exact asked h hp hstage hsource rfl rfl rfl rfl
      (selection_stageSelection { e with nextCollector := made } collector p.plan domain)

/-! ## The swap -/

theorem not_collecting (hfree : e.inUse = false) {r : EngineRound} (hr : e.rounds.get? id = some r) :
    r.stage = .queued := by
  have hidle : r.stage.isQueued = true := by
    simpa using List.any_eq_false.1 hfree r (Table.mem_values.2 ⟨id, hr⟩)
  cases hstage : r.stage with
  | queued => rfl
  | collecting plan began tasks => simp [hstage, RoundStage.isQueued] at hidle

/-- The staged selections of a plan that is ready are those that its swap publishes. -/
theorem fits_swapped (h : e.Consistent) (hp : e.preparations.get? id = some p)
    (hstage : p.stage = .swapping) :
    (LiveState.ofPlan p.plan p.collectors p.cleanups).Fits (e.commitAll p.collectors).selection := by
  obtain ⟨hall, hcovers⟩ : p.AllStaged e.selection ∧ ∀ d ∈ p.plan.domains, d ∈ p.collectors := by
    simpa only [Preparation.Staged, hstage] using h.staged id p hp
  constructor
  · intro name
    rfl
  · intro plan hplan d hd
    obtain rfl : p.plan = plan := Option.some.inj hplan
    exact hcovers d hd
  · intro plan d c hplan hd
    obtain rfl : p.plan = plan := Option.some.inj hplan
    have hd : p.collectors.get? d = some c := hd
    rw [selection_commitAll, if_pos (Table.mem_values.2 ⟨d, hd⟩), Selection.commit_live,
      hall d c hd]
    rfl

theorem swap (h : e.Consistent) (taken : e.swap id .all = some (e', events)) : e'.Consistent := by
  obtain ⟨p, hp, hstage, hturn, hnext⟩ := swap_all_eq_some taken
  cases hnext
  obtain ⟨owner, -, hprepared⟩ := h.owned
  have hid : ∀ k q, e.preparations.get? k = some q → k = id :=
    fun k q hq => h.alone k id q p hq hp
  have hfits := fits_swapped h hp hstage
  constructor
  · exact hfits
  · refine ⟨owner, fun d c hd => hprepared id p d c hp (Or.inr (Or.inl hd)), ?_⟩
    intro k q d c hq hd
    have hq : (e.preparations.insert id { p with stage := .swapped e.live.cleanups }).get? k =
      some q := hq
    rw [Table.get?_insert] at hq
    split at hq
    · obtain rfl := Option.some.inj hq
      exact hprepared id p d c hp (.of_stage (by simp) hd)
    · exact hprepared k q d c hq hd
  · intro k k' q q' hq hq'
    exact alone_insert hid hq hq'
  · intro k q hq
    have hq : (e.preparations.insert id { p with stage := .swapped e.live.cleanups }).get? k =
      some q := hq
    rw [Table.get?_insert] at hq
    split at hq
    · obtain rfl := Option.some.inj hq
      trivial
    · next hk => exact absurd (hid k q hq) hk
  · intro k r hr plan began tasks hcollecting
    have hqueued := not_collecting (inUse_of_admits_swap hturn) hr
    rw [hqueued] at hcollecting
    contradiction

/-! ## Rounds -/

theorem ofRounds (h : e.Consistent) (hlive : e'.live = e.live)
    (hselections : e'.selections = e.selections) (hpreparations : e'.preparations = e.preparations)
    (hnext : e'.nextCollector = e.nextCollector)
    (hfollows : ∀ k r, e'.rounds.get? k = some r → r.Follows e.live e.selection) :
    e'.Consistent := by
  have hselection : e'.selection = e.selection := by
    funext c
    rw [selection, selection, hselections]
  constructor
  · rw [hlive, hselection]
    exact h.fits
  · rw [hlive, hpreparations, hnext]
    exact h.owned
  · rw [hpreparations]
    exact h.alone
  · rw [hpreparations, hselection]
    exact h.staged
  · rw [hlive, hselection]
    exact hfollows

private theorem follows_insert (h : e.Consistent) {r' : EngineRound}
    (hr' : r'.Follows e.live e.selection) (k : Nat) (r : EngineRound)
    (hr : (e.rounds.insert id r').get? k = some r) : r.Follows e.live e.selection := by
  rw [Table.get?_insert] at hr
  split at hr
  · obtain rfl := Option.some.inj hr
    exact hr'
  · exact h.follows k r hr

private theorem follows_erase (h : e.Consistent) (k : Nat) (r : EngineRound)
    (hr : (e.rounds.erase id).get? k = some r) : r.Follows e.live e.selection := by
  rw [Table.get?_erase] at hr
  split at hr
  · contradiction
  · exact h.follows k r hr

theorem beginCollect (h : e.Consistent) (level : String) : (e.beginCollect level).Consistent :=
  h.ofRounds rfl rfl rfl rfl (follows_insert h (by simp [EngineRound.Follows]))

theorem dropRound (h : e.Consistent) (id : Nat) : (e.dropRound id).Consistent :=
  h.ofRounds rfl rfl rfl rfl (follows_erase h)

theorem enter (h : e.Consistent) {now : Utc} (taken : e.enter id now = some (e', events)) :
    e'.Consistent := by
  obtain ⟨r, -, -, -, ⟨-, hnext⟩ | ⟨-, hnext⟩⟩ := enter_eq_some taken
  · cases hnext
    exact h.dropRound id
  · cases hnext
    refine h.ofRounds rfl rfl rfl rfl (follows_insert h ?_)
    intro plan began tasks hstage
    obtain ⟨rfl, rfl, rfl⟩ : _ ∧ _ ∧ _ := by simpa using hstage
    refine ⟨rfl, fun d => ?_, fun d task htask hasked => ?_⟩
    · rw [Table.get?_map, Option.map_map]
      exact Option.map_id'
    · rw [Table.get?_map] at htask
      obtain ⟨collector, -, rfl⟩ := Option.map_eq_some_iff.1 htask
      simp [RoundTask.Asked] at hasked

/-- A task has changed but kept its collector, and its selection is the collector's if it asked. -/
private theorem ofTask (h : e.Consistent) {r : EngineRound} {plan : String} {began : Utc}
    {tasks : Table String RoundTask} {domain : String} {task task' : RoundTask} {permits : Nat}
    (hr : e.rounds.get? id = some r) (hstage : r.stage = .collecting plan began tasks)
    (htask : tasks.get? domain = some task) (hcollector : task'.collector = task.collector)
    (hselected : task'.Asked → (task.Asked ∧ task'.selected = task.selected) ∨
      task'.selected = (e.selection task.collector).get? r.level) :
    (e.setRound id { r with
      stage := .collecting plan began (tasks.insert domain task'), permits }).Consistent := by
  refine h.ofRounds rfl rfl rfl rfl (follows_insert h ?_)
  obtain ⟨hplan, hcollectors, hold⟩ := h.follows id r hr plan began tasks hstage
  intro plan' began' tasks' hstage'
  obtain ⟨rfl, rfl, rfl⟩ : plan = plan' ∧ began = began' ∧ tasks.insert domain task' = tasks' := by
    simpa using hstage'
  refine ⟨hplan, fun d => ?_, fun d t ht hasked => ?_⟩
  · rw [Table.get?_insert]
    split
    · next hd =>
        rw [← hcollectors d, hd, htask]
        exact congrArg some hcollector
    · exact hcollectors d
  · rw [Table.get?_insert] at ht
    split at ht
    · obtain rfl := Option.some.inj ht
      rcases hselected hasked with ⟨hwas, hsame⟩ | hfresh
      · rw [hsame, hcollector]
        exact hold domain task htask hwas
      · rw [hfresh, hcollector]
    · exact hold d t ht hasked

theorem startTask (h : e.Consistent) {domain : String}
    (taken : e.startTask id domain = some (e', events)) : e'.Consistent := by
  obtain ⟨r, plan, began, tasks, task, hr, hstage, htask, -, -, hnext⟩ := startTask_eq_some taken
  cases hnext
  exact ofTask h hr hstage htask rfl
    (fun _ => Or.inr (bind_get?_selections e task.collector r.level))

theorem finishTask (h : e.Consistent) {domain : String} {result : CollectResult}
    (taken : e.finishTask id domain result = some (e', events)) : e'.Consistent := by
  obtain ⟨r, plan, began, tasks, task, hr, hstage, htask, hcollecting, -, hnext⟩ :=
    finishTask_eq_some taken
  cases hnext
  exact ofTask h hr hstage htask rfl (fun _ => Or.inl ⟨Or.inl hcollecting, rfl⟩)

theorem loseTask (h : e.Consistent) {domain : String}
    (taken : e.loseTask id domain = some (e', events)) : e'.Consistent := by
  obtain ⟨r, plan, began, tasks, task, hr, hstage, htask, -, hnext⟩ := loseTask_eq_some taken
  cases hnext
  exact ofTask h hr hstage htask rfl (fun hasked => by simp [RoundTask.Asked] at hasked)

theorem close (h : e.Consistent) {now : Utc} (taken : e.close id now = some (e', events)) :
    e'.Consistent := by
  obtain ⟨r, plan, began, tasks, -, -, -, hnext⟩ := close_eq_some taken
  cases hnext
  have hdropped := h.dropRound id
  refine hdropped.ofRounds (record_live ..) (record_selections ..) (record_preparations ..)
    (record_nextCollector ..) ?_
  rw [record_rounds]
  exact hdropped.follows

end Consistent

/-! ## Steps and runs -/

end Engine

namespace EngineAction

def begins : EngineAction → Bool
  | .beginPrepare .. => true
  | _ => false

def commits : EngineAction → Bool
  | .swap _ (.only _) => false
  | _ => true

end EngineAction

namespace Engine

/-- Preparations come one at a time, and the collectors of a swap all commit. -/
def Successive (x : Step Engine EngineAction EngineEvent) : Prop :=
  (x.action.begins = true → x.before.preparations = ∅) ∧ x.action.commits = true

instance (x : Step Engine EngineAction EngineEvent) : Decidable (Successive x) :=
  inferInstanceAs (Decidable (_ ∧ _))

theorem consistent_step (x : Step Engine EngineAction EngineEvent) (successive : Successive x)
    (taken : x.before.step x.action = some (x.after, x.events)) (h : x.before.Consistent) :
    x.after.Consistent := by
  obtain ⟨e, action, e', events⟩ := x
  dsimp only at taken h ⊢
  cases action with
  | beginPrepare plan cancelled =>
      obtain ⟨rfl, -⟩ := Prod.mk.inj (Option.some.inj taken)
      exact h.beginPrepare (successive.1 rfl) plan cancelled
  | cancel id => exact h.cancel taken
  | pinged id result => exact h.pinged taken
  | retry id => exact h.retry taken
  | noticeCancel id => exact h.noticeCancel taken
  | copyLive id => exact h.copyLive taken
  | visit id creation noticed => exact h.visit taken
  | collectorPrepared id result => exact h.collectorPrepared taken
  | conclude id => exact h.conclude taken
  | swap id commits =>
      cases commits with
      | all => exact h.swap taken
      | only domains => exact absurd successive.2 Bool.false_ne_true
  | cleanUp id finished => exact h.cleanUp taken
  | prune id => exact h.prune taken
  | dropPreparation id => exact h.dropPreparation taken
  | beginCollect level =>
      obtain ⟨rfl, -⟩ := Prod.mk.inj (Option.some.inj taken)
      exact h.beginCollect level
  | enter id now => exact h.enter taken
  | startTask id domain => exact h.startTask taken
  | finishTask id domain result => exact h.finishTask taken
  | loseTask id domain => exact h.loseTask taken
  | close id now => exact h.close taken
  | dropRound id =>
      obtain ⟨rfl, -⟩ := Prod.mk.inj (step_dropRound_eq_some taken).2
      exact h.dropRound id

theorem consistent_run {settings : EngineSettings} {board : Board}
    {steps : List (Step Engine EngineAction EngineEvent)} {e : Engine}
    (run : Run step (create settings board) steps e) (successive : ∀ x ∈ steps, Successive x) :
    e.Consistent :=
  run.keeps (consistent_create settings board) consistent_step successive

theorem consistent_before {settings : EngineSettings} {board : Board}
    {steps : List (Step Engine EngineAction EngineEvent)} {e : Engine}
    (run : Run step (create settings board) steps e) (successive : ∀ x ∈ steps, Successive x)
    {x : Step Engine EngineAction EngineEvent} (hx : x ∈ steps) : x.before.Consistent := by
  obtain ⟨pre, post, rfl⟩ := List.append_of_mem hx
  exact consistent_run run.taken.1 (fun y hy => successive y (List.mem_append_left _ hy))

end Engine

end Cadence
