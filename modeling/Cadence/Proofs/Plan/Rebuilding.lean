import Cadence.Plan.Json
import Cadence.Proofs.Json.Reading
import Cadence.Proofs.Plan.Loading
import Cadence.Proofs.Plan.Sorting
import Mathlib.Data.List.Forall2
import Mathlib.Data.List.Nodup

/-!
# Plans rebuilt from their levels

The levels of a plan are written without names, and what is empty is left out.
Reading them back fills in the empty parts, and the keys give the names again.  So
whatever format the levels go through, as long as it keeps texts, lists and maps,
the plan can be built from them anew.  That it has been sorted is not written.
-/

namespace Cadence

open Json (field? fieldUnlessEmpty)

namespace Json

/-- Made up of texts, lists and maps, no name of which stands twice. -/
inductive Plain : Json → Prop
  | text (s : String) : Plain (.string s)
  | list {items : List Json} : (∀ item ∈ items, Plain item) → Plain (.list items)
  | map {fields : List (String × Json)} : (fields.map (·.1)).Nodup →
      (∀ field ∈ fields, Plain field.2) → Plain (.object fields)

/-- The second value is the first one again, with the entries of its maps in whatever order. -/
inductive Matches : Json → Json → Prop
  | text (s : String) : Matches (.string s) (.string s)
  | list {items items' : List Json} : List.Forall₂ Matches items items' →
      Matches (.list items) (.list items')
  | map {fields fields' : List (String × Json)} : (fields'.map (·.1)).Nodup →
      (∀ name, name ∈ fields'.map (·.1) ↔ name ∈ fields.map (·.1)) →
      (∀ name v v', (name, v) ∈ fields → (name, v') ∈ fields' → Matches v v') →
      Matches (.object fields) (.object fields')

/-- A format that values are written in and read from. -/
structure Format (α : Type) where
  write : Json → α
  read : α → Option Json

/-- Texts, lists and maps come back from the format as they were written. -/
def Format.Keeps {α : Type} (f : Format α) : Prop :=
  ∀ v : Json, v.Plain → ∃ w, f.read (f.write v) = some w ∧ Matches v w

variable {α β : Type} {v w : Json} {fields : List (String × Json)}

/-! ### Reading what matches -/

theorem texts?_of_matches {texts : List String} (h : Matches (.ofTexts texts) w) :
    w.texts? = some texts := by
  cases h with
  | @list _ items hall =>
      change items.mapM text? = some texts
      induction texts generalizing items with
      | nil =>
          cases hall
          rfl
      | cons s rest ih =>
          obtain ⟨item, others, hitem, hothers, rfl⟩ := List.forall₂_cons_left_iff.1 hall
          cases hitem
          rw [List.mapM_cons, ih hothers]
          rfl

/-- Fields that decode one by one give a pair each. -/
theorem mapM_fields {decode : Json → Option β} {value? : String → Option β}
    (h : ∀ field ∈ fields, ∃ b, decode field.2 = some b ∧ value? field.1 = some b) :
    ∃ pairs, fields.mapM (fun (name, v) => (decode v).map (name, ·)) = some pairs ∧
      pairs.map (·.1) = fields.map (·.1) ∧ ∀ e ∈ pairs, value? e.1 = some e.2 := by
  induction fields with
  | nil => exact ⟨[], rfl, rfl, by simp⟩
  | cons first rest ih =>
      obtain ⟨name, v⟩ := first
      obtain ⟨⟨b, hdecode, hvalue⟩, hrest⟩ := List.forall_mem_cons.1 h
      obtain ⟨pairs, hpairs, hnames, hvalues⟩ := ih hrest
      refine ⟨(name, b) :: pairs, ?_, ?_, List.forall_mem_cons.2 ⟨hvalue, hvalues⟩⟩
      · change decode v = some b at hdecode
        simp [hpairs, hdecode]
      · rw [List.map_cons, List.map_cons, hnames]

/-- A map is read back if each of its values is, wherever it stands. -/
theorem table?_of_matches {encode : α → Json} {decode : Json → Option β} {f : α → β}
    {t : Table String α} (hw : Matches (ofTable encode t) w)
    (h : ∀ a ∈ t.values, ∀ v, Matches (encode a) v → decode v = some (f a)) :
    w.table? decode = some (t.map (fun _ => f)) := by
  cases hw with
  | @map _ fields hnodup hnames hvalues =>
      have hkeys (name : String) : name ∈ fields.map (·.1) ↔ name ∈ t.keys := by
        rw [hnames, List.map_map]
        rfl
      have hfields : ∀ field ∈ fields, ∃ b, decode field.2 = some b ∧
          (t.map (fun _ => f)).get? field.1 = some b := by
        rintro ⟨name, v⟩ hfield
        have hname := (hkeys name).1 (List.mem_map_of_mem hfield)
        obtain ⟨a, ha⟩ := Table.mem_iff.1 (Table.mem_keys.1 hname)
        have hmatches : Matches (encode a) v := by
          refine hvalues name _ v (List.mem_map.2 ⟨(name, a), ?_, rfl⟩) hfield
          exact Table.get?_eq_some_iff.1 ha
        refine ⟨f a, h a (Table.mem_values.2 ⟨name, ha⟩) v hmatches, ?_⟩
        rw [Table.get?_map, ha]
        rfl
      obtain ⟨pairs, hpairs, hpairnames, hpairvalues⟩ := mapM_fields hfields
      rw [table?, hpairs]
      refine congrArg some (Table.ofList_eq_of_forall hpairvalues fun name hname => ?_)
      rw [hpairnames, hkeys]
      rwa [Table.keys_map] at hname

/-- What a record has come back with: its fields, and no others. -/
structure Carries (fields known : List (String × Json)) : Prop where
  present : ∀ name v, (name, v) ∈ fields → ∃ v', known.lookup name = some v' ∧ Matches v v'
  absent : ∀ name, name ∉ fields.map (·.1) → known.lookup name = none

theorem record?_of_matches (names : List String) (hw : Matches (.object fields) w)
    (hfields : ∀ name ∈ fields.map (·.1), name ∈ names) :
    ∃ known, w.record? names = some known ∧ Carries fields known := by
  cases hw with
  | @map _ known hnodup hnames hvalues =>
      have hall : known.filter (·.1 ∈ names) = known := by
        refine List.filter_eq_self.2 fun field hfield => decide_eq_true ?_
        exact hfields _ ((hnames field.1).1 (List.mem_map_of_mem hfield))
      have habsent (name : String) : known.lookup name = none ↔ name ∉ fields.map (·.1) := by
        rw [← hnames, List.lookup_eq_none_iff, List.mem_map]
        simp only [bne_iff_ne, not_exists, not_and]
        exact forall₂_congr fun field _ => ne_comm
      refine ⟨known, ?_, fun name v hv => ?_, fun name hname => (habsent name).2 hname⟩
      · simp only [record?, hall]
        exact if_pos hnodup
      · cases hlookup : known.lookup name with
        | none => exact absurd (List.mem_map.2 ⟨_, hv, rfl⟩) ((habsent name).1 hlookup)
        | some v' =>
            obtain ⟨before, behind, hsplit, -⟩ := List.lookup_eq_some_iff.1 hlookup
            exact ⟨v', rfl, hvalues name v v' hv (by simp [hsplit])⟩

theorem Carries.field? {known : List (String × Json)} (h : Carries fields known) {name : String}
    (hv : (name, v) ∈ fields) {absent : Option β} {decode : Json → Option β} {b : β}
    (hdecode : ∀ w, Matches v w → decode w = some b) :
    Json.field? known name absent decode = some b := by
  obtain ⟨v', hlookup, hmatches⟩ := h.present name v hv
  rw [Json.field?, hlookup]
  exact hdecode v' hmatches

theorem map_fst_fieldUnlessEmpty (name : String) (encode : α → Json) (t : Table String α) :
    (fieldUnlessEmpty name encode t).map (·.1) = if t.isEmpty then [] else [name] := by
  rw [fieldUnlessEmpty]
  split <;> rfl

/-- A table of texts is left out if it is empty, and comes back as the empty one. -/
theorem Carries.texts {known : List (String × Json)} (h : Carries fields known) {name : String}
    {t : Table String String} (hempty : t.isEmpty = true → name ∉ fields.map (·.1))
    (hwritten : ∀ field ∈ fieldUnlessEmpty name .string t, field ∈ fields) :
    Json.field? known name (some ∅) (Json.table? Json.text?) = some t := by
  cases ht : t.isEmpty with
  | true =>
      rw [Json.field?, h.absent name (hempty ht), Table.isEmpty_iff.1 ht]
  | false =>
      refine h.field? (hwritten (name, .ofTable .string t) ?_) fun w hw => ?_
      · simp [fieldUnlessEmpty, ht]
      · have hmap : t.map (fun _ s => s) = t := by
          ext k : 1
          rw [Table.get?_map]
          cases t.get? k <;> rfl
        rw [table?_of_matches (f := fun s => s) hw, hmap]
        intro s _ v hv
        cases hv
        rfl

end Json

/-! ### Levels and domains -/

variable {v w : Json}

def Domain.unnamed (d : Domain) : Domain := { d with name := "" }

def Level.unnamed (level : Level) : Level :=
  { level with name := "", collect := level.collect.map (fun _ => Domain.unnamed) }

theorem Domain.ofJson?_of_matches {d : Domain} (h : Json.Matches d.toJson w) :
    ofJson? w = some d.unnamed := by
  obtain ⟨known, hknown, hcarries⟩ :=
    Json.record?_of_matches ["options", "metrics", "errors"] h (by
      simp only [List.map_append, Json.map_fst_fieldUnlessEmpty]
      grind)
  have hoptions : field? known "options" (some ∅) (Json.table? Json.text?) = some d.options := by
    refine hcarries.texts (fun hempty => ?_) (fun field hfield => ?_)
    · simp only [List.map_append, Json.map_fst_fieldUnlessEmpty]
      grind
    · simp [hfield]
  have herrors : field? known "errors" (some ∅) (Json.table? Json.text?) = some d.errorPolicies := by
    refine hcarries.texts (fun hempty => ?_) (fun field hfield => ?_)
    · simp only [List.map_append, Json.map_fst_fieldUnlessEmpty]
      grind
    · simp [hfield]
  have hmetrics : field? known "metrics" (some []) Json.texts? = some d.metrics :=
    hcarries.field? (by simp) fun w hw => Json.texts?_of_matches hw
  rw [ofJson?, hknown]
  simp [hoptions, hmetrics, herrors, unnamed]

theorem Level.ofJson?_of_matches {level : Level} (h : Json.Matches level.toJson w) :
    ofJson? w = some level.unnamed := by
  obtain ⟨known, hknown, hcarries⟩ := Json.record?_of_matches ["freq", "collect"] h (by simp)
  have hfreq : field? known "freq" none Json.text? = some level.freq := by
    refine hcarries.field? (v := .string level.freq) (by simp) fun w hw => ?_
    cases hw
    rfl
  have hcollect : field? known "collect" (some ∅) (Json.table? Domain.ofJson?) =
      some (level.collect.map (fun _ => Domain.unnamed)) := by
    refine hcarries.field? (v := .ofTable Domain.toJson level.collect) (by simp) fun w hw => ?_
    exact Json.table?_of_matches hw fun d _ v hv => Domain.ofJson?_of_matches hv
  rw [ofJson?, hknown]
  simp [hfreq, hcollect, unnamed]

/-! ### What is written -/

namespace Json

theorem plain_ofTable {α : Type} {encode : α → Json} {t : Table String α}
    (h : ∀ a ∈ t.values, (encode a).Plain) : (ofTable encode t).Plain := by
  refine .map ?_ fun field hfield => ?_
  · rw [List.map_map]
    exact t.nodup_keys
  · obtain ⟨e, he, rfl⟩ := List.mem_map.1 hfield
    exact h e.2 (List.mem_map_of_mem he)

theorem plain_texts (t : Table String String) : (ofTable .string t).Plain :=
  plain_ofTable fun s _ => .text s

theorem Plain.matches (h : v.Plain) : Matches v v := by
  induction h with
  | text s => exact .text s
  | list _ ih => exact .list (List.forall₂_same.2 ih)
  | map hnodup _ ih =>
      refine .map hnodup (fun _ => Iff.rfl) fun name v v' hv hv' => ?_
      cases List.inj_on_of_nodup_map hnodup hv hv' rfl
      exact ih (name, v) hv

theorem Plain.printable (h : v.Plain) : v.Printable := by
  induction h with
  | text s => exact printable_string s
  | list _ ih => exact printable_list.2 ih
  | map _ _ ih => exact printable_object.2 ih

/-- Values as lines of text. -/
def lines : Format String where
  write v := v.render ++ "\n"
  read := parse?

theorem keeps_lines : lines.Keeps :=
  fun v hv => ⟨v, parse?_render hv.printable, hv.matches⟩

end Json

theorem Domain.plain_toJson (d : Domain) : d.toJson.Plain := by
  have hmetrics : (Json.ofTexts d.metrics).Plain := by
    refine .list fun item hitem => ?_
    obtain ⟨s, -, rfl⟩ := List.mem_map.1 hitem
    exact .text s
  have hunlessEmpty (name : String) (t : Table String String) :
      ∀ field ∈ fieldUnlessEmpty name .string t, field.2.Plain := by
    intro field hfield
    rw [fieldUnlessEmpty] at hfield
    split at hfield
    · simp at hfield
    · rw [List.mem_singleton.1 hfield]
      exact Json.plain_texts t
  refine .map ?_ fun field hfield => ?_
  · simp only [List.map_append, Json.map_fst_fieldUnlessEmpty]
    split <;> split <;> simp
  · simp only [List.mem_append, List.mem_singleton] at hfield
    rcases hfield with (hfield | rfl) | hfield
    · exact hunlessEmpty _ _ field hfield
    · exact hmetrics
    · exact hunlessEmpty _ _ field hfield

theorem Level.plain_toJson (level : Level) : level.toJson.Plain := by
  refine .map (by simp) fun field hfield => ?_
  simp only [List.mem_cons, List.not_mem_nil, or_false] at hfield
  rcases hfield with rfl | rfl
  · exact .text level.freq
  · exact Json.plain_ofTable fun d _ => d.plain_toJson

namespace Plan

variable {α : Type} {plan : Plan}

/-- The keys give a level back the names that were not written. -/
theorem nameLevel_unnamed {level : Level} (h : level.NamedByKey) :
    nameLevel level.name level.unnamed = level := by
  obtain ⟨name, freq, collect⟩ := level
  have hcollect : (collect.map (fun _ => Domain.unnamed)).map (fun name d => { d with name }) =
      collect := by
    ext key : 1
    rw [Table.get?_map, Table.get?_map]
    cases hget : collect.get? key with
    | none => rfl
    | some d =>
        have hname : d.name = key := h (key, d) (Table.get?_eq_some_iff.1 hget)
        subst hname
        rfl
  rw [Level.unnamed, nameLevel]
  exact congrArg (Level.mk name freq) hcollect

theorem ofLevels_unnamed (levels : plan.NamedByKey)
    (domains : ∀ level ∈ plan.levels.values, level.NamedByKey) :
    ofLevels plan.name plan.source (plan.levels.map (fun _ => Level.unnamed)) =
      { plan with inherited := false } := by
  have hlevels : (plan.levels.map (fun _ => Level.unnamed)).map nameLevel = plan.levels := by
    ext key : 1
    rw [Table.get?_map, Table.get?_map]
    cases hget : plan.levels.get? key with
    | none => rfl
    | some level =>
        have hlevel := nameLevel_unnamed (domains level (Table.mem_values.2 ⟨key, hget⟩))
        rw [levels.name_eq hget] at hlevel
        exact congrArg some hlevel
  rw [ofLevels, hlevels]

/-- A plan whose names are its keys is rebuilt from what is written of its levels, in any format that
keeps texts, lists and maps.  It is not taken for sorted; if it was not, it is checked and sorted as
before, to the same result or the same error. -/
theorem rebuilt_from_levels (format : Json.Format α) (keeps : format.Keeps)
    (levels : plan.NamedByKey) (domains : ∀ level ∈ plan.levels.values, level.NamedByKey) :
    ∃ read, (format.read (format.write plan.levelsToJson)).bind levelsOfJson? = some read ∧
      ofLevels plan.name plan.source read = { plan with inherited := false } ∧
      (plan.inherited = false →
        (ofLevels plan.name plan.source read).validate = plan.validate ∧
          (ofLevels plan.name plan.source read).sort = plan.sort) := by
  obtain ⟨w, hw, hmatches⟩ :=
    keeps plan.levelsToJson (Json.plain_ofTable fun level _ => level.plain_toJson)
  have hread : levelsOfJson? w = some (plan.levels.map (fun _ => Level.unnamed)) :=
    Json.table?_of_matches hmatches fun level _ v hv => Level.ofJson?_of_matches hv
  have hrebuilt := ofLevels_unnamed levels domains
  refine ⟨_, by rw [hw, Option.bind_some, hread], hrebuilt, fun hfresh => ?_⟩
  have hsame : { plan with inherited := false } = plan := by
    rw [← hfresh]
  rw [hrebuilt, hsame]
  exact ⟨rfl, rfl⟩

/-- Levels with and without domains, and domains with and without each of their parts. -/
def patchwork : Plan :=
  ofLevels "patchwork" "patchwork.yaml" (.ofList [
    ("bare", { freq := "5s" }),
    ("full", {
      freq := "1s"
      collect := .ofList [
        ("app", {
          options := .ofList [("all", "yes")]
          errorPolicies := .ofList [("denied", "skip")] }),
        ("cpu", { metrics := ["usage", "usage"] }), ("disk", {})] })])

def unclocked : Plan := ofLevels "unclocked" "inline" (.ofList [("kpi", { freq := "often \"" })])

/-- A sorted plan comes back as one that has not been sorted, and a plan that is refused is refused
again for the same reason. -/
theorem rebuilt_from_levels_lines :
    (∃ read, (Json.parse? (patchwork.inheriting.levelsToJson.render ++ "\n")).bind levelsOfJson? =
        some read ∧ ofLevels "patchwork" "patchwork.yaml" read ≠ patchwork ∧
        ofLevels "patchwork" "patchwork.yaml" read =
          { patchwork.inheriting with inherited := false }) ∧
      ∃ read, (Json.parse? (unclocked.levelsToJson.render ++ "\n")).bind levelsOfJson? = some read ∧
        (ofLevels "unclocked" "inline" read).sort = .error
          (.invalidFreq "unclocked" "kpi" "often \"" "expected number at 0") := by
  obtain ⟨sorted, hsorted, hrebuilt, -⟩ := rebuilt_from_levels Json.lines Json.keeps_lines
    (by decide +kernel : patchwork.inheriting.NamedByKey)
    (by unfold Level.NamedByKey; decide +kernel)
  obtain ⟨read, hread, -, hsame⟩ := rebuilt_from_levels Json.lines Json.keeps_lines
    (ofLevels_namedByKey _ _ _ : unclocked.NamedByKey)
    (by unfold Level.NamedByKey; decide +kernel)
  refine ⟨⟨sorted, hsorted, ?_, hrebuilt⟩, read, hread, ?_⟩
  · have hdiffers : ({ patchwork.inheriting with inherited := false } : Plan) ≠ patchwork := by
      decide +kernel
    exact fun h => hdiffers (hrebuilt.symm.trans h)
  · exact (hsame rfl).2.trans (by decide +kernel)

end Plan

end Cadence
