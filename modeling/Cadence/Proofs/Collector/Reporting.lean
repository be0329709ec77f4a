import Cadence.Collector.GlobalStatus
import Cadence.Proofs.Collector.Selecting
import Mathlib.Data.List.Forall2

/-!
# What is reported of the status variables

Every row is read for its name, but only a row that is asked for is read for its
value.  So a row without a name spoils the whole answer, a row without a value
only if it is asked for, and a value that is no number spoils nothing: its row is
passed over.  What is left is reported row by row.
-/

namespace Cadence.GlobalStatus

/-- The entry of a level asks for the variable with this lower-cased name. -/
def Asked (entry : Domain) (name : String) : Prop :=
  entry.options.get? "all" = some "yes" ∨ entry.metrics = [] ∨ name ∈ entry.metrics

/-- The row cannot be read, for want of this column. -/
inductive Unreadable (entry : Domain) (row : Row) : String → Prop
  | name : (∀ text, row.get? "Variable_name" ≠ some (.text text)) →
      Unreadable entry row "Variable_name"
  | value {name : String} : row.get? "Variable_name" = some (.text name) →
      Asked entry (Text.lower name) → (∀ text, row.get? "Value" ≠ some (.text text)) →
      Unreadable entry row "Value"

/-- The row is asked for, and its value reads as this number under this lower-cased name. -/
structure Reads (entry : Domain) (row : Row) (name : String) (value : Float) : Prop where
  named : ∃ text, row.get? "Variable_name" = some (.text text) ∧ Text.lower text = name
  asked : Asked entry name
  valued : ∃ text, row.get? "Value" = some (.text text) ∧ parseFloat? (Text.trim text) = some value

/-- What is reported of a row. -/
inductive Reports (entry : Domain) (row : Row) : MetricValue → Prop
  | gauge {name : String} {value : Float} : Reads entry row name value → name ∈ gauges →
      Reports entry row (.gauge name value)
  | counter {name : String} {value : Float} : Reads entry row name value → name ∉ gauges →
      Reports entry row (.counter name value)

variable {entry : Domain} {row : Row} {rows : List Row} {name text : String} {v : MetricValue}

theorem asksFor_iff : asksFor (.ofDomain entry) name = true ↔ Asked entry name := by
  rw [asksFor, Bool.or_eq_true, decide_eq_true_iff, Selected.wants_iff]
  rfl

/-! ### One row -/

theorem text_of_get? {column : String} (h : row.get? column = some (.text text)) :
    row.text column = .ok text := by
  rw [Row.text, Table.getElem?_eq_get?, h]

theorem text_of_unreadable {column : String} (h : ∀ text, row.get? column ≠ some (.text text)) :
    row.text column = .error (.unreadable column) := by
  rw [Row.text, Table.getElem?_eq_get?]
  split
  · next s hs => exact absurd hs (h s)
  · rfl

/-- What is made of a row that is asked for and has both its texts. -/
def valueOf? (name text : String) : Option MetricValue :=
  (parseFloat? (Text.trim text)).map (fun value =>
    if name ∈ gauges then .gauge name value else .counter name value)

theorem readRow_eq (hname : row.get? "Variable_name" = some (.text name)) :
    readRow (.ofDomain entry) row =
      if asksFor (.ofDomain entry) (Text.lower name) then
        ((row.text "Value").mapError .column).map (valueOf? (Text.lower name))
      else .ok none := by
  rw [readRow, text_of_get? hname]
  simp only [Except.mapError, bind, Except.bind]
  cases asksFor (.ofDomain entry) (Text.lower name) with
  | false => rfl
  | true => cases row.text "Value" <;> rfl

theorem unreadable_iff (hname : row.get? "Variable_name" = some (.text name)) {column : String} :
    Unreadable entry row column ↔ Asked entry (Text.lower name) ∧
      (∀ text, row.get? "Value" ≠ some (.text text)) ∧ column = "Value" := by
  constructor
  · rintro (hnone | ⟨hname', hasked, hnone⟩)
    · exact absurd hname (hnone name)
    · rw [hname] at hname'
      cases hname'
      exact ⟨hasked, hnone, rfl⟩
  · rintro ⟨hasked, hnone, rfl⟩
    exact .value hname hasked hnone

theorem Unreadable.unique {column column' : String} (h : Unreadable entry row column)
    (h' : Unreadable entry row column') : column = column' := by
  rcases h with hnone | ⟨hname, -, -⟩
  · rcases h' with - | ⟨hname', -, -⟩
    · rfl
    · exact absurd hname' (hnone _)
  · exact ((unreadable_iff hname).1 h').2.2.symm

theorem reads_iff (hname : row.get? "Variable_name" = some (.text name)) {n : String} {x : Float} :
    Reads entry row n x ↔ Text.lower name = n ∧ Asked entry (Text.lower name) ∧
      ∃ text, row.get? "Value" = some (.text text) ∧ parseFloat? (Text.trim text) = some x := by
  constructor
  · rintro ⟨⟨name', hname', rfl⟩, hasked, hvalued⟩
    rw [hname] at hname'
    cases hname'
    exact ⟨rfl, hasked, hvalued⟩
  · rintro ⟨rfl, hasked, hvalued⟩
    exact ⟨⟨name, hname, rfl⟩, hasked, hvalued⟩

theorem Reports.reads (h : Reports entry row v) : ∃ n, Reads entry row n v.value := by
  cases h with
  | gauge h => exact ⟨_, h⟩
  | counter h => exact ⟨_, h⟩

theorem Reports.readable (h : Reports entry row v) (column : String) :
    ¬ Unreadable entry row column := by
  obtain ⟨n, ⟨name, hname, -⟩, -, ⟨text, hvalue, -⟩⟩ := h.reads
  intro hcolumn
  exact ((unreadable_iff hname).1 hcolumn).2.1 text hvalue

theorem reports_iff (hname : row.get? "Variable_name" = some (.text name))
    (hvalue : row.get? "Value" = some (.text text)) (hasked : Asked entry (Text.lower name)) :
    Reports entry row v ↔ valueOf? (Text.lower name) text = some v := by
  have hreads {n : String} {x : Float} : Reads entry row n x ↔
      Text.lower name = n ∧ parseFloat? (Text.trim text) = some x := by
    simp [reads_iff hname, hasked, hvalue]
  constructor
  · rintro (⟨h, hgauge⟩ | ⟨h, hgauge⟩) <;> obtain ⟨rfl, hx⟩ := hreads.1 h <;>
      simp [valueOf?, hx, hgauge]
  · intro hv
    obtain ⟨x, hx, rfl⟩ := Option.map_eq_some_iff.1 hv
    split
    · next hgauge => exact .gauge (hreads.2 ⟨rfl, hx⟩) hgauge
    · next hgauge => exact .counter (hreads.2 ⟨rfl, hx⟩) hgauge

/-- Either the row is unreadable and says so, or all that is read of it is what it reports. -/
theorem readRow_cases (entry : Domain) (row : Row) :
    (∃ column, Unreadable entry row column ∧
        readRow (.ofDomain entry) row = .error (.column (.unreadable column))) ∨
      (∀ column, ¬ Unreadable entry row column) ∧
        ∃ found, readRow (.ofDomain entry) row = .ok found ∧
          ∀ v, Reports entry row v ↔ found = some v := by
  by_cases hnamed : ∃ name, row.get? "Variable_name" = some (.text name)
  · obtain ⟨name, hname⟩ := hnamed
    rw [readRow_eq hname]
    by_cases hasked : Asked entry (Text.lower name)
    · rw [if_pos (asksFor_iff.2 hasked)]
      by_cases hvalued : ∃ text, row.get? "Value" = some (.text text)
      · obtain ⟨text, hvalue⟩ := hvalued
        right
        refine ⟨fun column hcolumn => ((unreadable_iff hname).1 hcolumn).2.1 text hvalue, ?_⟩
        rw [text_of_get? hvalue]
        exact ⟨_, rfl, fun v => reports_iff hname hvalue hasked⟩
      · have hnone := not_exists.1 hvalued
        left
        rw [text_of_unreadable hnone]
        exact ⟨_, .value hname hasked hnone, rfl⟩
    · right
      rw [if_neg (fun h => hasked (asksFor_iff.1 h))]
      refine ⟨fun column hcolumn => hasked ((unreadable_iff hname).1 hcolumn).1, none, rfl, ?_⟩
      intro v
      simp only [reduceCtorEq, iff_false]
      intro h
      obtain ⟨n, hreads⟩ := h.reads
      exact hasked ((reads_iff hname).1 hreads).2.1
  · have hnone := not_exists.1 hnamed
    left
    refine ⟨_, .name hnone, ?_⟩
    rw [readRow, text_of_unreadable hnone]
    rfl

/-! ### All rows -/

instance (entry : Domain) (row : Row) : Decidable (∃ v, Reports entry row v) :=
  decidable_of_iff ((readRow (.ofDomain entry) row).toOption.join.isSome = true) (by
    obtain ⟨column, hcolumn, hread⟩ | ⟨-, found, hread, hreports⟩ := readRow_cases entry row
    · rw [hread]
      simp only [Except.toOption, Option.join_none, Option.isSome_none, Bool.false_eq_true,
        false_iff]
      rintro ⟨v, hv⟩
      exact hv.readable column hcolumn
    · rw [hread]
      simp only [hreports]
      exact Option.isSome_iff_exists)

theorem readRows_cons (s : Selected) (row : Row) (rows : List Row) :
    readRows s (row :: rows) = do
      let found ← readRow s row
      let values ← readRows s rows
      return found.toList ++ values := by
  rw [readRows, readRows, List.mapM_cons]
  cases readRow s row with
  | error e => rfl
  | ok found =>
      cases rows.mapM (readRow s) with
      | error e => rfl
      | ok founds => cases found <;> rfl

/-- An answer fails for its first unreadable row, whatever comes behind it. -/
theorem readRows_of_unreadable {before after : List Row} {column : String}
    (hbefore : ∀ r ∈ before, ∀ c, ¬ Unreadable entry r c) (hrow : Unreadable entry row column) :
    readRows (.ofDomain entry) (before ++ row :: after) = .error (.column (.unreadable column)) := by
  induction before with
  | nil =>
      rw [List.nil_append, readRows_cons]
      obtain ⟨column', hcolumn', hread⟩ | ⟨hreadable, -⟩ := readRow_cases entry row
      · rw [hread, hrow.unique hcolumn']
        rfl
      · exact absurd hrow (hreadable column)
  | cons first before ih =>
      obtain ⟨hfirst, hrest⟩ := List.forall_mem_cons.1 hbefore
      rw [List.cons_append, readRows_cons, ih hrest]
      obtain ⟨column', hcolumn', -⟩ | ⟨-, found, hread, -⟩ := readRow_cases entry first
      · exact absurd hcolumn' (hfirst column')
      · rw [hread]
        rfl

/-- With every row readable, the answer has what is reported of them, row by row. -/
theorem readRows_of_readable (hrows : ∀ r ∈ rows, ∀ c, ¬ Unreadable entry r c) :
    ∃ values, readRows (.ofDomain entry) rows = .ok values ∧
      List.Forall₂ (Reports entry) (rows.filter (fun r => ∃ v, Reports entry r v)) values := by
  induction rows with
  | nil => exact ⟨[], rfl, .nil⟩
  | cons first rest ih =>
      obtain ⟨hfirst, hrest⟩ := List.forall_mem_cons.1 hrows
      obtain ⟨values, hvalues, hall⟩ := ih hrest
      rw [readRows_cons, hvalues]
      obtain ⟨column, hcolumn, -⟩ | ⟨-, found, hread, hreports⟩ := readRow_cases entry first
      · exact absurd hcolumn (hfirst column)
      rw [hread]
      cases found with
      | none =>
          refine ⟨values, rfl, ?_⟩
          rw [List.filter_cons_of_neg (by simp [hreports])]
          exact hall
      | some v =>
          refine ⟨v :: values, rfl, ?_⟩
          rw [List.filter_cons_of_pos (by simp [hreports])]
          exact .cons ((hreports v).2 rfl) hall

theorem exists_first_unreadable (h : ∃ r ∈ rows, ∃ c, Unreadable entry r c) :
    ∃ before row after column, rows = before ++ row :: after ∧
      (∀ r ∈ before, ∀ c, ¬ Unreadable entry r c) ∧ Unreadable entry row column := by
  induction rows with
  | nil => simp at h
  | cons first rest ih =>
      by_cases hfirst : ∃ c, Unreadable entry first c
      · obtain ⟨column, hcolumn⟩ := hfirst
        exact ⟨[], first, rest, column, rfl, by simp, hcolumn⟩
      · have hrest : ∃ r ∈ rest, ∃ c, Unreadable entry r c := by simpa [hfirst] using h
        obtain ⟨before, row, after, column, rfl, hbefore, hrow⟩ := ih hrest
        refine ⟨first :: before, row, after, column, rfl, ?_, hrow⟩
        exact List.forall_mem_cons.2 ⟨not_exists.1 hfirst, hbefore⟩

theorem readRows_fails_iff :
    (∃ e, readRows (.ofDomain entry) rows = .error e) ↔ ∃ r ∈ rows, ∃ c, Unreadable entry r c := by
  constructor
  · rintro ⟨e, he⟩
    by_contra hrows
    have hreadable : ∀ r ∈ rows, ∀ c, ¬ Unreadable entry r c :=
      fun r hr c hc => hrows ⟨r, hr, c, hc⟩
    obtain ⟨values, hvalues, -⟩ := readRows_of_readable hreadable
    rw [hvalues] at he
    contradiction
  · intro hrows
    obtain ⟨before, row, after, column, rfl, hbefore, hrow⟩ := exists_first_unreadable hrows
    exact ⟨_, readRows_of_unreadable hbefore hrow⟩

theorem reports_of_readRows {values : List MetricValue}
    (h : readRows (.ofDomain entry) rows = .ok values) :
    List.Forall₂ (Reports entry) (rows.filter (fun row => ∃ v, Reports entry row v)) values := by
  have hrows : ∀ r ∈ rows, ∀ c, ¬ Unreadable entry r c := by
    intro r hr c hc
    obtain ⟨e, he⟩ := readRows_fails_iff.2 ⟨r, hr, c, hc⟩
    rw [h] at he
    contradiction
  obtain ⟨found, hfound, hall⟩ := readRows_of_readable hrows
  obtain rfl := Except.ok.inj (h.symm.trans hfound)
  exact hall

/-! ### What a level gets -/

/-- How a level asks shows only in what it asks for. -/
theorem asksFor_congr {other : Domain} (hall : other.options.get? "all" = entry.options.get? "all")
    (hmetrics : ∀ m, m ∈ other.metrics ↔ m ∈ entry.metrics) :
    asksFor (.ofDomain other) = asksFor (.ofDomain entry) := by
  funext name
  have hempty : other.metrics = [] ↔ entry.metrics = [] := by
    simp only [List.eq_nil_iff_forall_not_mem, hmetrics]
  rw [Bool.eq_iff_iff, asksFor_iff, asksFor_iff, Asked, Asked, hall, hempty, hmetrics]

theorem readRow_congr {s other : Selected} (h : asksFor other = asksFor s) :
    readRow other = readRow s := by
  funext row
  rw [readRow, readRow, h]

/-- The collector of status variables answers with nothing for a level that does not collect the
domain.  For another one it fails if a row has no readable name or is asked for and has no readable
value, and does so for the first such row; or else it reports the rows that are asked for and read as
numbers, in their order and each once.  In what order and how often the metrics are listed does not
count. -/
theorem reports_what_is_asked (before : Selection) (plan : Plan) (level : String) (rows : List Row) :
    let outcome := collect ((before.stage plan domain).commit.get? level) (.ok rows)
    ((∀ l ∈ plan.levels.values, l.name = level → domain ∉ l.collect) → outcome = .ok []) ∧
      ∀ asked, plan.entryFor? level domain = some asked →
        ((∃ e, outcome = .error e) ↔ ∃ row ∈ rows, ∃ column, Unreadable asked row column) ∧
          (∀ earlier row later column, rows = earlier ++ row :: later →
            (∀ r ∈ earlier, ∀ c, ¬ Unreadable asked r c) → Unreadable asked row column →
            outcome = .error (.column (.unreadable column))) ∧
          (∀ values, outcome = .ok values →
            List.Forall₂ (Reports asked) (rows.filter (fun row => ∃ v, Reports asked row v)) values) ∧
          ∀ (before' : Selection) (plan' : Plan) (level' : String) (asked' : Domain),
            plan'.entryFor? level' domain = some asked' →
            asked'.options.get? "all" = asked.options.get? "all" →
            (∀ m, m ∈ asked'.metrics ↔ m ∈ asked.metrics) →
            collect ((before'.stage plan' domain).commit.get? level') (.ok rows) = outcome := by
  intro outcome
  refine ⟨fun hnone => ?_, fun asked hasked => ?_⟩
  · simp only [outcome, Selection.get?_commit_stage, Plan.entryFor?_eq_none_iff.2 hnone]
    rfl
  have houtcome : outcome = readRows (.ofDomain asked) rows := by
    simp only [outcome, Selection.get?_commit_stage, hasked]
    rfl
  refine ⟨?_, ?_, ?_, ?_⟩
  · rw [houtcome]
    exact readRows_fails_iff
  · rintro earlier row later column rfl hearlier hrow
    rw [houtcome]
    exact readRows_of_unreadable hearlier hrow
  · intro values hvalues
    exact reports_of_readRows (houtcome.symm.trans hvalues)
  · intro before' plan' level' asked' hasked' hoption hmetrics
    rw [houtcome, Selection.get?_commit_stage, hasked', readRows,
      ← readRow_congr (asksFor_congr hoption hmetrics)]
    rfl

/-- Two levels, of which the slower one names a variable twice once it has inherited, and a third one
that asks for everything. -/
def queriesTwice : Plan :=
  Plan.ofLevels "p" "inline" (.ofList [
    ("fast", { freq := "1s", collect := .ofList [(domain, { metrics := ["queries"] })] }),
    ("slow", {
      freq := "2s"
      collect := .ofList [(domain, { metrics := ["threads_running", "queries"] })] }),
    ("whole", {
      freq := "4s"
      collect := .ofList [(domain, { options := .ofList [("all", "yes")] })] })])

def statusRow (name : String) (value : Cell) : Row :=
  .ofList [("Variable_name", .text name), ("Value", value)]

theorem get?_statusRow (name : String) (value : Cell) :
    (statusRow name value).get? "Variable_name" = some (.text name) ∧
      (statusRow name value).get? "Value" = some value := by
  simp [statusRow, Table.ofList, Table.get?_insert]

theorem readable_statusRow (name text column : String) :
    ¬ Unreadable entry (statusRow name (.text text)) column := by
  intro h
  exact ((unreadable_iff (get?_statusRow _ _).1).1 h).2.1 text (get?_statusRow _ _).2

/-- A number in blanks, a word, a number and a null. -/
def mixedRows : List Row :=
  [statusRow "THREADS_RUNNING" (.text " 7 "), statusRow "Ssl_cipher" (.text "AES"),
    statusRow "Queries" (.text "1e2"), statusRow "Uptime" .null]

theorem reports_what_is_asked_inherited :
    let outcome := collect
      ((({} : Selection).stage queriesTwice.inheriting domain).commit.get? "slow") (.ok mixedRows)
    (∃ asked, queriesTwice.inheriting.entryFor? "slow" domain = some asked ∧
        asked.metrics = ["threads_running", "queries", "queries"] ∧
        List.Forall₂ (Reports asked)
          [statusRow "THREADS_RUNNING" (.text " 7 "), statusRow "Queries" (.text "1e2")]
          [.gauge "threads_running" 7.0, .counter "queries" 100.0]) ∧
      outcome = .ok [.gauge "threads_running" 7.0, .counter "queries" 100.0] ∧
      collect ((({} : Selection).stage queriesTwice domain).commit.get? "slow") (.ok mixedRows) =
        outcome ∧
      collect ((({} : Selection).stage queriesTwice.inheriting domain).commit.get? "whole")
        (.ok mixedRows) = .error (.column (.unreadable "Value")) := by
  intro outcome
  have hslow : queriesTwice.inheriting.entryFor? "slow" domain = some
      { name := domain, metrics := ["threads_running", "queries", "queries"] } := by
    decide +kernel
  have hplain : queriesTwice.entryFor? "slow" domain = some
      { name := domain, metrics := ["threads_running", "queries"] } := by
    decide +kernel
  have hwhole : queriesTwice.inheriting.entryFor? "whole" domain = some
      { name := domain, options := .ofList [("all", "yes")]
        metrics := ["queries", "threads_running", "queries", "queries"] } := by
    decide +kernel
  obtain ⟨-, hasked⟩ := reports_what_is_asked {} queriesTwice.inheriting "slow" mixedRows
  obtain ⟨-, -, hreports, hother⟩ := hasked _ hslow
  have houtcome : outcome = .ok [.gauge "threads_running" 7.0, .counter "queries" 100.0] := by
    decide +kernel
  refine ⟨⟨_, hslow, rfl, ?_⟩, houtcome, ?_, ?_⟩
  · have hkept : mixedRows.filter (fun row => ∃ v, Reports
        { name := domain, metrics := ["threads_running", "queries", "queries"] } row v) =
        [statusRow "THREADS_RUNNING" (.text " 7 "), statusRow "Queries" (.text "1e2")] := by
      decide +kernel
    rw [← hkept]
    exact hreports _ houtcome
  · exact hother {} queriesTwice "slow" _ hplain rfl (by simp)
  · obtain ⟨-, hasked⟩ := reports_what_is_asked {} queriesTwice.inheriting "whole" mixedRows
    obtain ⟨-, hfirst, -⟩ := hasked _ hwhole
    refine hfirst (mixedRows.take 3) (statusRow "Uptime" .null) [] "Value" rfl ?_ ?_
    · intro r hr c
      have hthree : r ∈ [statusRow "THREADS_RUNNING" (.text " 7 "),
          statusRow "Ssl_cipher" (.text "AES"), statusRow "Queries" (.text "1e2")] := hr
      simp only [List.mem_cons, List.not_mem_nil, or_false] at hthree
      rcases hthree with rfl | rfl | rfl <;> exact readable_statusRow _ _ c
    · exact .value (get?_statusRow _ _).1 (.inl rfl) (by simp [(get?_statusRow _ _).2])

end Cadence.GlobalStatus
