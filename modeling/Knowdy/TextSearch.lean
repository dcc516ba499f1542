import Knowdy.TextIndexing

/-! # Text search

`knd_text_search` takes the text sources a search names and the classes its statement declares, and builds the reports
that are then exported: `build_search_plan` walks the indices of the classes one after another.

* `TextSearchReport`, `NamedSource` — the reports, and the sources of a search.
* `approveSrc`, `buildSearchPlan`, `kndTextSearch` — the functions.
* `Reported` — the reports hold the locations of each class for each source, and no other ones.
* `reported_iff` — they do, if and only if no source is named or there are no locations. -/

namespace Knowdy

namespace TextSearch

open TextIndexing (TextIndex TextRef TextLoc Statement)

/-! ## (1) Reports -/

/-- **`struct kndTextSearchReport`.** -/
structure TextSearchReport where
  /-- `entry`: the class of the sources. -/
  entry : Nat
  /-- `attr`. -/
  attr : Option Nat := none
  /-- `idx`. -/
  idx : Option Nat := none
  /-- `num_locs`. -/
  numLocs : Nat := 0

/-- The locations that `knd_text_export_query_report_GSL` prints for a report. -/
def TextSearchReport.locs (s : TextIndex) (report : TextSearchReport) : List TextLoc :=
  match report.idx with
  | some idx => (s.idxs idx).locs
  | none => []

/-- A source that a search names, by its class and attributes of it. -/
structure NamedSource where
  /-- The class. -/
  entry : Nat
  /-- The attributes, if any, in the order in which they are given: the last one counts. -/
  attrs : List Nat := []

/-! ## (2) The search -/

/-- **`approve_src`.** -/
def approveSrc (ref : TextRef) : List TextSearchReport → Except KndErr Unit
  | [] => .error .noMatch
  | pref :: next => if pref.entry = ref.entry ∧ pref.attr = some ref.attr then .ok () else approveSrc ref next

/-- **`set_text_src`.** The new report is also `ctx->report`. -/
def setTextSrc (entry : Nat) (reports : List TextSearchReport) : List TextSearchReport := { entry } :: reports

/-- **`parse_src_attr`**, on `ctx->report`. -/
def parseSrcAttr (attr : Nat) : List TextSearchReport → Except KndErr (List TextSearchReport)
  | [] => .error .format
  | report :: next => .ok ({ report with attr := some attr } :: next)

/-- **`parse_text_src`.** -/
def parseTextSrc (reports : List TextSearchReport) (source : NamedSource) : Except KndErr (List TextSearchReport) :=
  source.attrs.foldlM (fun reports attr => parseSrcAttr attr reports) (setTextSrc source.entry reports)

/-- `pref->num_locs = num_locs`, where `pref` is the head of the reports. -/
def setNumLocs (numLocs : Nat) : List TextSearchReport → List TextSearchReport
  | [] => []
  | pref :: next => { pref with numLocs } :: next

variable (s : TextIndex)

/-- One reference on `text_idxs`, if there are sources to prefer. -/
def preferRef (reports : List TextSearchReport) (ref : TextRef) : List TextSearchReport :=
  match approveSrc ref reports with
  | .error _ => reports
  | .ok () => setNumLocs (s.idxs ref.idx).numLocs reports

/-- One reference on `text_idxs`, if there are none. -/
def reportRef (reports : List TextSearchReport) (ref : TextRef) : List TextSearchReport :=
  { entry := ref.entry, idx := some ref.idx } :: reports

/-- **`build_search_plan`.** Whether `pref` is null is decided once, before the loops. -/
def buildSearchPlan (stm : Option Statement) (reports : List TextSearchReport) :
    Except KndErr (List TextSearchReport) :=
  match stm with
  | none => .error .format
  | some stm =>
      let round := if reports.isEmpty then reportRef else preferRef s
      .ok (stm.classDeclars.foldl (fun reports c => (s.textIdxs c).foldl round reports) reports)

/-- **`knd_text_search`.** -/
def kndTextSearch (sources : List NamedSource) (stm : Option Statement) : Except KndErr (List TextSearchReport) := do
  let reports ← sources.foldlM parseTextSrc []
  buildSearchPlan s stm reports

/-! ## (3) What is to be reported -/

/-- The source of an index is present in the indices of all the classes. -/
def Present (declars : List Nat) (ref : TextRef) : Prop :=
  ∀ c ∈ declars, ∃ other ∈ s.textIdxs c, other.entry = ref.entry ∧ other.attr = ref.attr

/-- **Each source is reported with its own locations.** -/
structure Reported (stm : Statement) (reports : List TextSearchReport) : Prop where
  /-- For each class, and each source that is present for every class, there is a report with the class's locations. -/
  complete : ∀ c ∈ stm.classDeclars, ∀ ref ∈ s.textIdxs c, Present s stm.classDeclars ref →
    (s.idxs ref.idx).locs ≠ [] → ∃ report ∈ reports, report.entry = ref.entry ∧ report.locs s = (s.idxs ref.idx).locs
  /-- The locations of a report are those of a class for the source that it names. -/
  attributed : ∀ report ∈ reports, report.locs s ≠ [] →
    ∃ c ∈ stm.classDeclars, ∃ ref ∈ s.textIdxs c, ref.entry = report.entry ∧ report.locs s = (s.idxs ref.idx).locs

/-- There are no locations to report: none of a class for a source that is present for every class. -/
def NothingFound (stm : Statement) : Prop :=
  ∀ c ∈ stm.classDeclars, ∀ ref ∈ s.textIdxs c, Present s stm.classDeclars ref → (s.idxs ref.idx).locs = []

variable {s} {sources : List NamedSource} {stm : Statement} {reports : List TextSearchReport} {ref : TextRef}

/-! ## (4) The reports -/

/-- The report of a named source. -/
def NamedSource.report (source : NamedSource) : TextSearchReport :=
  { entry := source.entry, attr := source.attrs.getLast? }

/-- The attributes are set one after another. -/
theorem foldlM_parseSrcAttr (attrs : List Nat) (report : TextSearchReport) (next : List TextSearchReport) :
    attrs.foldlM (fun reports attr => parseSrcAttr attr reports) (report :: next) =
      .ok ({ report with attr := attrs.getLast?.or report.attr } :: next) := by
  induction attrs generalizing report with
  | nil => rfl
  | cons attr attrs ih =>
      rw [List.foldlM_cons]
      refine (ih { report with attr := some attr }).trans ?_
      cases attrs with
      | nil => rfl
      | cons attr' attrs => simp [List.getLast?_cons]

/-- **The sources are on the list, newest first.** -/
theorem foldlM_parseTextSrc (sources : List NamedSource) (reports : List TextSearchReport) :
    sources.foldlM parseTextSrc reports = .ok ((sources.map NamedSource.report).reverse ++ reports) := by
  induction sources generalizing reports with
  | nil => rfl
  | cons source sources ih =>
      have hone : parseTextSrc reports source = .ok (source.report :: reports) := by
        rw [parseTextSrc, setTextSrc, foldlM_parseSrcAttr, Option.or_none, NamedSource.report]
      rw [List.foldlM_cons, hone, List.map_cons, List.reverse_cons, List.append_assoc, List.singleton_append]
      exact ih (source.report :: reports)

/-- A change of the counter leaves the locations of the reports alone. -/
theorem mem_setNumLocs {numLocs : Nat} {report : TextSearchReport} (h : report ∈ setNumLocs numLocs reports) :
    ∃ old ∈ reports, old.idx = report.idx := by
  cases reports with
  | nil => exact absurd h List.not_mem_nil
  | cons pref next =>
      rcases List.mem_cons.mp h with rfl | hnext
      · exact ⟨pref, List.mem_cons_self .., rfl⟩
      · exact ⟨report, List.mem_cons_of_mem _ hnext, rfl⟩

/-- **With sources to prefer** no report gets an index. -/
def Unindexed (reports : List TextSearchReport) : Prop := ∀ report ∈ reports, report.idx = none

theorem Unindexed.foldl_preferRef (h : Unindexed reports) (refs : List TextRef) :
    Unindexed (refs.foldl (preferRef s) reports) := by
  induction refs generalizing reports with
  | nil => exact h
  | cons ref refs ih =>
      refine ih ?_
      rw [preferRef]
      split
      · exact h
      · intro report hreport
        obtain ⟨old, hold, hidx⟩ := mem_setNumLocs hreport
        rw [← hidx]
        exact h old hold

theorem mem_foldl_reportRef {report : TextSearchReport} (refs : List TextRef) :
    report ∈ refs.foldl reportRef reports ↔
      (∃ ref ∈ refs, report = { entry := ref.entry, idx := some ref.idx }) ∨ report ∈ reports := by
  induction refs generalizing reports with
  | nil => simp
  | cons ref refs ih =>
      rw [List.foldl_cons, ih, reportRef, List.mem_cons]
      simp only [List.mem_cons, exists_eq_or_imp]
      rw [or_left_comm, or_assoc]

/-- The references of the declared classes. -/
def refsOf (s : TextIndex) (stm : Statement) : List TextRef := stm.classDeclars.flatMap s.textIdxs

theorem mem_refsOf : ref ∈ refsOf s stm ↔ ∃ c ∈ stm.classDeclars, ref ∈ s.textIdxs c := List.mem_flatMap

/-- **A search that names no source** reports every index. -/
theorem kndTextSearch_nil (s : TextIndex) (stm : Statement) :
    kndTextSearch s [] (some stm) = .ok ((refsOf s stm).foldl reportRef []) := by
  rw [kndTextSearch, foldlM_parseTextSrc, refsOf, List.foldl_flatMap]
  rfl

/-- **A search that names sources** walks the indices, and changes counters only. -/
theorem kndTextSearch_of_ne_nil (hsources : sources ≠ []) (stm : Statement) :
    kndTextSearch s sources (some stm) =
      .ok ((refsOf s stm).foldl (preferRef s) (sources.map NamedSource.report).reverse) := by
  have hsome : (sources.map NamedSource.report).reverse.isEmpty = false := by
    simpa [List.isEmpty_eq_false_iff] using hsources
  rw [kndTextSearch, foldlM_parseTextSrc, List.append_nil, refsOf, List.foldl_flatMap]
  show buildSearchPlan s (some stm) _ = _
  rw [buildSearchPlan, hsome]
  rfl

theorem unindexed_named (sources : List NamedSource) :
    Unindexed (sources.map NamedSource.report).reverse := by
  intro report hreport
  obtain ⟨source, -, rfl⟩ := List.mem_map.mp (List.mem_reverse.mp hreport)
  rfl

/-- Without an index there are no locations. -/
theorem Unindexed.locs (h : Unindexed reports) {report : TextSearchReport} (hmem : report ∈ reports) :
    report.locs s = [] := by
  rw [TextSearchReport.locs, h report hmem]

/-! ## (5) When each source is reported -/

/-- **Each source is reported with its own locations if and only if** the search names no source, or there are no
locations to report: a report of a named source never gets an index. -/
theorem reported_iff (s : TextIndex) (sources : List NamedSource) (stm : Statement) :
    (∃ reports, kndTextSearch s sources (some stm) = .ok reports ∧ Reported s stm reports) ↔
      sources = [] ∨ NothingFound s stm := by
  by_cases hsources : sources = []
  · subst hsources
    refine iff_of_true ⟨_, kndTextSearch_nil s stm, fun c hc ref href _ _ => ?_, fun report hreport _ => ?_⟩ (.inl rfl)
    · have hmem : ref ∈ refsOf s stm := mem_refsOf.mpr ⟨c, hc, href⟩
      exact ⟨_, (mem_foldl_reportRef _).mpr (.inl ⟨ref, hmem, rfl⟩), rfl, rfl⟩
    · rcases (mem_foldl_reportRef _).mp hreport with ⟨ref, href, rfl⟩ | hnone
      · obtain ⟨c, hc, href⟩ := mem_refsOf.mp href
        exact ⟨c, hc, ref, href, rfl, rfl⟩
      · exact absurd hnone List.not_mem_nil
  · have hrun := kndTextSearch_of_ne_nil (s := s) hsources stm
    have hunindexed := (unindexed_named sources).foldl_preferRef (s := s) (refsOf s stm)
    constructor
    · rintro ⟨reports, hreports, hreported⟩
      rw [hrun] at hreports
      obtain rfl := Except.ok.inj hreports
      refine .inr fun c hc ref href hpresent => ?_
      by_contra hlocs
      obtain ⟨report, hmem, -, hsame⟩ := hreported.complete c hc ref href hpresent hlocs
      exact hlocs (hsame.symm.trans (hunindexed.locs hmem))
    · rintro (hnil | hnothing)
      · exact absurd hnil hsources
      exact ⟨_, hrun, fun c hc ref href hpresent hlocs => absurd (hnothing c hc ref href hpresent) hlocs,
        fun report hmem hne => absurd (hunindexed.locs hmem) hne⟩

/-- An index of class 1 for source 7 by attribute 3, with one location. -/
def oneIndex : TextIndex where
  textIdxs c := if c = 1 then [{ entry := 7, attr := 3, idx := 0 }] else []
  idxs _ := {
    entry := 1
    locs := [{ src := { inst := 5, blueprint := 7 }, parId := 1, sentId := 1, obj := 1 }]
    numLocs := 1 }
  nextIdx := 1

/-- **A search that names the source** reports no location of it. -/
theorem not_reported_named : ¬ ∃ reports, kndTextSearch oneIndex [{ entry := 7, attrs := [3] }]
    (some { classDeclars := [1] }) = .ok reports ∧ Reported oneIndex { classDeclars := [1] } reports := by
  rintro ⟨reports, hrun, hreported⟩
  obtain rfl := Except.ok.inj hrun
  have hpresent : Present oneIndex [1] { entry := 7, attr := 3, idx := 0 } := by
    intro c hc
    obtain rfl := List.mem_singleton.mp hc
    exact ⟨_, List.mem_singleton_self _, rfl, rfl⟩
  obtain ⟨report, hmem, -, hlocs⟩ := hreported.complete 1 (List.mem_singleton_self 1) _ (List.mem_singleton_self _)
    hpresent (List.cons_ne_nil _ _)
  obtain rfl := List.mem_singleton.mp hmem
  exact absurd hlocs (List.cons_ne_nil _ _).symm

end TextSearch

end Knowdy
