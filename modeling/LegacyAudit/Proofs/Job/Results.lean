import LegacyAudit.Proofs.Job.Plan
import Mathlib.Data.List.Forall2

/-!
# What the plan of a run brings

The results that a run is to store are those of the analysed files, in the order of the files and
within a file in the order of its analysis. They are given here from the submitted files and their
outcomes, and the plan brings exactly them.

## Main definitions

- `OutcomesOf` - outcomes that belong to files
- `storedFindings`, `storedRecommendations`, `storedDependencies` - the results of analysed files
-/

namespace LegacyAudit

/-- An outcome may belong to a file if its analysis, if any, carries the name of the file. -/
def FileOutcome.IsOf (outcome : FileOutcome) (file : SourceFile) : Prop :=
  ∀ analysis, outcome.analysis? = some analysis → analysis.filename = file.filename

/-- Outcomes that may belong to files, each to the file at its place. -/
abbrev OutcomesOf (files : List SourceFile) (outcomes : List FileOutcome) : Prop :=
  List.Forall₂ (fun file outcome => outcome.IsOf file) files outcomes

theorem analyzeFile_isOf (trees : TreeSource) (chain : Chain) (file : SourceFile) :
    (analyzeFile trees chain file).IsOf file := by
  intro analysis h
  simp only [analyzeFile] at h
  split at h
  · simp [FileOutcome.analysis?] at h
  · split at h
    · rw [FileOutcome.analysis?, Option.some.injEq] at h
      exact h ▸ rfl
    · simp [FileOutcome.analysis?] at h

theorem outcomesOf_analyzeFile (trees : TreeSource) (chain : Chain) (files : List SourceFile) :
    OutcomesOf files (files.map (analyzeFile trees chain)) := by
  rw [OutcomesOf, List.forall₂_map_right_iff, List.forall₂_same]
  exact fun file _ => analyzeFile_isOf trees chain file

theorem OutcomesOf.getElem?_file {files : List SourceFile} {outcomes : List FileOutcome} {i : Nat}
    {analysis : FileAnalysis} (h : OutcomesOf files outcomes)
    (houtcome : outcomes[i]? = some (.analyzed analysis)) :
    ∃ file, files[i]? = some file ∧ analysis.filename = file.filename := by
  induction h generalizing i with
  | nil => simp at houtcome
  | @cons file outcome files outcomes hfile _ ih =>
    cases i with
    | zero =>
      rw [List.getElem?_cons_zero, Option.some.injEq] at houtcome
      exact ⟨file, rfl, hfile analysis (houtcome ▸ rfl)⟩
    | succ i => exact ih houtcome

/-- What the analyzers said about a file; nothing if it was not analysed. -/
def FileOutcome.output : FileOutcome → Output
  | analyzed analysis => analysis.output
  | undecodable _ | crashed => {}

def FileOutcome.isAnalyzed (outcome : FileOutcome) : Bool :=
  outcome.analysis?.isSome

/-- Whether the file at a place was analysed. -/
def analyzedAt (outcomes : List FileOutcome) (i : Nat) : Bool :=
  outcomes[i]?.any (·.isAnalyzed)

theorem analyzedAt_eq {outcomes : List FileOutcome} {i : Nat} {outcome : FileOutcome}
    (h : outcomes[i]? = some outcome) : analyzedAt outcomes i = outcome.isAnalyzed := by
  rw [analyzedAt, h]
  rfl

theorem analyzedAt_iff {outcomes : List FileOutcome} {i : Nat} :
    analyzedAt outcomes i = true ↔ ∃ analysis, outcomes[i]? = some (.analyzed analysis) := by
  unfold analyzedAt
  rcases outcomes[i]? with _ | (_ | _ | _) <;> simp [FileOutcome.isAnalyzed, FileOutcome.analysis?]

theorem analyzedAt_take {outcomes : List FileOutcome} {n i : Nat} :
    analyzedAt (outcomes.take n) i = true ↔ i < n ∧ analyzedAt outcomes i = true := by
  rw [analyzedAt, List.getElem?_take]
  by_cases hi : i < n <;> simp [hi, analyzedAt]

/-- The findings in files, attached to the job and to the names of their files. -/
def storedFindings (id : JobId) (files : List SourceFile) (outcomes : List FileOutcome) :
    List Finding :=
  (files.zip outcomes).flatMap fun (file, outcome) =>
    outcome.output.findings.map (·.attach id file.filename)

/-- The recommendations for files, attached to the job. -/
def storedRecommendations (id : JobId) (outcomes : List FileOutcome) : List Recommendation :=
  outcomes.flatMap fun outcome => outcome.output.recommendations.map (·.attach id)

/-- The dependencies of files, attached to the job. -/
def storedDependencies (id : JobId) (outcomes : List FileOutcome) : List Dependency :=
  outcomes.flatMap fun outcome => outcome.output.dependencies.map (·.attach id)

/-- The marks of the analysed files from a place on. -/
def fileMarks (clock : MarkClock) (first : Nat) (outcomes : List FileOutcome) :
    List (Nat × Timestamp) :=
  (analysesFrom first outcomes).map fun (index, _) => (index, clock index)

variable {id : JobId} {clock : MarkClock} {files : List SourceFile} {outcomes : List FileOutcome}

theorem storedFindings_take_mono (id : JobId) (files : List SourceFile)
    (outcomes : List FileOutcome) {m n : Nat} (h : m ≤ n) :
    storedFindings id (files.take m) (outcomes.take m) <+:
      storedFindings id (files.take n) (outcomes.take n) := by
  obtain ⟨rest, hrest⟩ := List.take_prefix_take_left (l := files.zip outcomes) h
  simp only [storedFindings, List.zip, ← List.take_zipWith] at hrest ⊢
  rw [← hrest, List.flatMap_append]
  exact List.prefix_append _ _

theorem storedRecommendations_take_mono (id : JobId) (outcomes : List FileOutcome) {m n : Nat}
    (h : m ≤ n) : storedRecommendations id (outcomes.take m) <+:
      storedRecommendations id (outcomes.take n) := by
  obtain ⟨rest, hrest⟩ := List.take_prefix_take_left (l := outcomes) h
  rw [storedRecommendations, storedRecommendations, ← hrest, List.flatMap_append]
  exact List.prefix_append _ _

/-- What the analyses bring file by file is what the outcomes bring, those without an analysis
nothing. -/
theorem flatMap_analysesFrom {β : Type} (bring : Output → List β) (hnone : bring {} = [])
    (first : Nat) (outcomes : List FileOutcome) :
    (analysesFrom first outcomes).flatMap (fun pair => bring pair.2.output) =
      outcomes.flatMap fun outcome => bring outcome.output := by
  induction outcomes generalizing first with
  | nil => rfl
  | cons outcome rest ih =>
    rw [analysesFrom_cons, List.flatMap_append, ih, List.flatMap_cons]
    cases outcome <;> simp [FileOutcome.analysis?, FileOutcome.output, hnone]

theorem dependencyUpdates_dependencies (id : JobId) (first : Nat) (outcomes : List FileOutcome) :
    (dependencyUpdates id (analysesFrom first outcomes)).filterMap Update.dependency? =
      storedDependencies id outcomes := by
  rw [storedDependencies,
    ← flatMap_analysesFrom (fun output => output.dependencies.map (·.attach id)) rfl first,
    dependencyUpdates, List.filterMap_flatMap]
  simp [List.filterMap_map, Function.comp_def, Update.dependency?]

theorem dependencyUpdates_kind {first : Nat} {u : Update}
    (h : u ∈ dependencyUpdates id (analysesFrom first outcomes)) : ∃ d, u = .dependency d := by
  simp only [dependencyUpdates, List.mem_flatMap, List.mem_map] at h
  obtain ⟨_, _, draft, _, rfl⟩ := h
  exact ⟨_, rfl⟩

theorem findingUpdates_findings (clock : MarkClock) (first : Nat) (h : OutcomesOf files outcomes) :
    (findingUpdates id clock (analysesFrom first outcomes)).filterMap Update.finding? =
      storedFindings id files outcomes := by
  induction h generalizing first with
  | nil => rfl
  | @cons file outcome files rest hfile _ ih =>
    rw [storedFindings, List.zip_cons_cons, List.flatMap_cons, ← storedFindings, ← ih (first + 1),
      analysesFrom_cons, findingUpdates, List.flatMap_append, List.filterMap_append]
    cases outcome with
    | analyzed analysis =>
      have hname := hfile analysis rfl
      simp [FileOutcome.analysis?, FileOutcome.output, findingUpdates, fileUpdates,
        List.filterMap_map, Function.comp_def, Update.finding?, hname]
    | undecodable _ => simp [FileOutcome.analysis?, FileOutcome.output, findingUpdates]
    | crashed => simp [FileOutcome.analysis?, FileOutcome.output, findingUpdates]

theorem findingUpdates_recommendations (clock : MarkClock) (first : Nat)
    (outcomes : List FileOutcome) :
    (findingUpdates id clock (analysesFrom first outcomes)).filterMap Update.recommendation? =
      storedRecommendations id outcomes := by
  rw [storedRecommendations,
    ← flatMap_analysesFrom (fun output => output.recommendations.map (·.attach id)) rfl first,
    findingUpdates, List.filterMap_flatMap]
  simp [fileUpdates, List.filterMap_map, List.filterMap_cons, Function.comp_def,
    Update.recommendation?]

theorem findingUpdates_marks (id : JobId) (clock : MarkClock) (first : Nat)
    (outcomes : List FileOutcome) :
    (findingUpdates id clock (analysesFrom first outcomes)).filterMap Update.mark? =
      fileMarks clock first outcomes := by
  rw [fileMarks, List.map_eq_flatMap]
  simp [findingUpdates, fileUpdates, List.filterMap_flatMap, List.filterMap_map,
    Function.comp_def, Update.mark?]

theorem mem_analyses {i : Nat} {analysis : FileAnalysis} :
    (i, analysis) ∈ analyses outcomes ↔ outcomes[i]? = some (.analyzed analysis) := by
  simp only [analyses, analysesFrom, List.mem_filterMap, List.mem_zipIdx_iff_getElem?,
    Option.map_eq_some_iff, Prod.exists, Prod.mk.injEq]
  constructor
  · rintro ⟨outcome, _, hmem, _, houtcome, rfl, rfl⟩
    cases outcome with
    | analyzed analysis =>
      rw [FileOutcome.analysis?, Option.some.injEq] at houtcome
      exact houtcome ▸ hmem
    | undecodable _ => simp [FileOutcome.analysis?] at houtcome
    | crashed => simp [FileOutcome.analysis?] at houtcome
  · intro hmem
    exact ⟨_, i, hmem, analysis, rfl, rfl, rfl⟩

theorem findingUpdates_kind {u : Update} (h : u ∈ findingUpdates id clock (analyses outcomes)) :
    (∃ finding, u = .finding finding) ∨ (∃ recommendation, u = .recommendation recommendation) ∨
      ∃ i analysis, outcomes[i]? = some (.analyzed analysis) ∧
        u = .processed i analysis.filename (clock i) := by
  simp only [findingUpdates, fileUpdates, List.mem_flatMap, List.mem_append, List.mem_map,
    List.mem_singleton, Prod.exists] at h
  obtain ⟨i, analysis, hmem, (⟨_, _, rfl⟩ | ⟨_, _, rfl⟩) | rfl⟩ := h
  · exact .inl ⟨_, rfl⟩
  · exact .inr (.inl ⟨_, rfl⟩)
  · exact .inr (.inr ⟨i, analysis, mem_analyses.mp hmem, rfl⟩)

section Parts

variable {β : Type} {part : Update → Option β}

theorem filterMap_opening (total : Nat)
    (h : ∀ status progress, part (.status status progress) = none) :
    (opening total).filterMap part = [] := by
  simp [opening, scanUpdates, entry, h]

/-- What a plan brings besides reports comes from the two passes over the analyses. -/
theorem filterMap_plan (id : JobId) (clock : MarkClock) (outcomes : List FileOutcome)
    (h : ∀ status progress, part (.status status progress) = none) :
    (plan id clock outcomes).filterMap part =
      (dependencyUpdates id (analyses outcomes)).filterMap part ++
        (findingUpdates id clock (analyses outcomes)).filterMap part := by
  simp [plan, filterMap_opening _ h, entry, h]

theorem filterMap_dependencyUpdates (h : ∀ dependency, part (.dependency dependency) = none) :
    (dependencyUpdates id (analyses outcomes)).filterMap part = [] := by
  rw [List.filterMap_eq_nil_iff]
  intro u hu
  obtain ⟨dependency, rfl⟩ := dependencyUpdates_kind hu
  exact h dependency

theorem filterMap_findingUpdates (hfinding : ∀ finding, part (.finding finding) = none)
    (hrecommendation : ∀ recommendation, part (.recommendation recommendation) = none)
    (hprocessed : ∀ i filename time, part (.processed i filename time) = none) :
    (findingUpdates id clock (analyses outcomes)).filterMap part = [] := by
  rw [List.filterMap_eq_nil_iff]
  intro u hu
  rcases findingUpdates_kind hu with ⟨finding, rfl⟩ | ⟨recommendation, rfl⟩ | ⟨i, analysis, _, rfl⟩
  · exact hfinding finding
  · exact hrecommendation recommendation
  · exact hprocessed _ _ _

end Parts

theorem plan_findings (id : JobId) (clock : MarkClock) (h : OutcomesOf files outcomes) :
    (plan id clock outcomes).filterMap Update.finding? = storedFindings id files outcomes := by
  rw [filterMap_plan _ _ _ fun _ _ => rfl, filterMap_dependencyUpdates fun _ => rfl, analyses,
    findingUpdates_findings clock 0 h, List.nil_append]

theorem plan_recommendations (id : JobId) (clock : MarkClock) (outcomes : List FileOutcome) :
    (plan id clock outcomes).filterMap Update.recommendation? =
      storedRecommendations id outcomes := by
  rw [filterMap_plan _ _ _ fun _ _ => rfl, filterMap_dependencyUpdates fun _ => rfl, analyses,
    findingUpdates_recommendations, List.nil_append]

theorem plan_dependencies (id : JobId) (clock : MarkClock) (outcomes : List FileOutcome) :
    (plan id clock outcomes).filterMap Update.dependency? = storedDependencies id outcomes := by
  rw [filterMap_plan _ _ _ fun _ _ => rfl,
    filterMap_findingUpdates (fun _ => rfl) (fun _ => rfl) fun _ _ _ => rfl, analyses,
    dependencyUpdates_dependencies, List.append_nil]

theorem plan_marks (id : JobId) (clock : MarkClock) (outcomes : List FileOutcome) :
    (plan id clock outcomes).filterMap Update.mark? = fileMarks clock 0 outcomes := by
  rw [filterMap_plan _ _ _ fun _ _ => rfl, filterMap_dependencyUpdates fun _ => rfl, analyses,
    findingUpdates_marks, List.nil_append]

def planReports (total : Nat) : List (JobStatus × UInt8) :=
  [(.processing, 10), (.scanningCode, 25)] ++
    (scanSteps total total 0 (progressAfter 0 total)).map (.scanningCode, ·) ++
    [(.analyzingDependencies, 50), (.generatingRecommendations, 75), (.completed, 100)]

theorem scanUpdates_reports (values : List UInt8) :
    (scanUpdates values).filterMap Update.report? = values.map (.scanningCode, ·) := by
  rw [scanUpdates, List.filterMap_map]
  exact congrFun List.filterMap_eq_map values

theorem plan_reports (id : JobId) (clock : MarkClock) (outcomes : List FileOutcome) :
    (plan id clock outcomes).filterMap Update.report? = planReports outcomes.length := by
  have hdependencies :
      (dependencyUpdates id (analyses outcomes)).filterMap Update.report? = [] :=
    filterMap_dependencyUpdates fun _ => rfl
  have hfindings :
      (findingUpdates id clock (analyses outcomes)).filterMap Update.report? = [] :=
    filterMap_findingUpdates (fun _ => rfl) (fun _ => rfl) fun _ _ _ => rfl
  rw [plan, List.filterMap_append, List.filterMap_append, List.filterMap_append,
    List.filterMap_append, List.filterMap_append, hdependencies, hfindings]
  simp [planReports, opening, scanUpdates_reports, entry, Update.report?,
    JobStatus.entryProgress?]

theorem isFailure_of_mem_plan {u : Update} (h : u ∈ plan id clock outcomes) :
    u.isFailure = false := by
  simp only [plan, opening, scanUpdates, List.mem_append, List.mem_cons, List.mem_map,
    List.not_mem_nil, or_false] at h
  rcases h with ((((rfl | rfl) | ⟨_, _, rfl⟩) | rfl | hdependency) | rfl | hfinding) | rfl
  · rfl
  · rfl
  · rfl
  · rfl
  · obtain ⟨dependency, rfl⟩ := dependencyUpdates_kind hdependency
    rfl
  · rfl
  · rcases findingUpdates_kind hfinding with ⟨_, rfl⟩ | ⟨_, rfl⟩ | ⟨_, _, _, rfl⟩ <;> rfl
  · rfl

theorem analyzed_of_mem_plan {i : Nat} {filename : String} {time : Timestamp}
    (h : .processed i filename time ∈ plan id clock outcomes) :
    ∃ analysis, outcomes[i]? = some (.analyzed analysis) ∧ filename = analysis.filename := by
  simp only [plan, opening, scanUpdates, entry, List.mem_append, List.mem_cons, List.mem_map,
    List.not_mem_nil, reduceCtorEq, false_or, or_false, and_false, exists_false] at h
  rcases h with hdependency | hfinding
  · obtain ⟨_, hu⟩ := dependencyUpdates_kind hdependency
    exact absurd hu (by simp)
  · rcases findingUpdates_kind hfinding with ⟨_, hu⟩ | ⟨_, hu⟩ | ⟨j, analysis, hanalysis, hu⟩
    · exact absurd hu (by simp)
    · exact absurd hu (by simp)
    · rw [Update.processed.injEq] at hu
      exact ⟨analysis, hu.1 ▸ hanalysis, hu.2.1⟩

theorem mem_fileMarks {i : Nat} {time : Timestamp} :
    (i, time) ∈ fileMarks clock 0 outcomes ↔ time = clock i ∧ analyzedAt outcomes i = true := by
  simp only [fileMarks, List.mem_map, Prod.exists, Prod.mk.injEq, analyzedAt_iff]
  constructor
  · rintro ⟨i, analysis, h, rfl, rfl⟩
    exact ⟨rfl, analysis, mem_analyses.mp h⟩
  · rintro ⟨rfl, analysis, h⟩
    exact ⟨i, analysis, mem_analyses.mpr h, rfl, rfl⟩

theorem nodup_fileMarks (clock : MarkClock) (first : Nat) (outcomes : List FileOutcome) :
    ((fileMarks clock first outcomes).map Prod.fst).Nodup := by
  have hplaces : ((fileMarks clock first outcomes).map Prod.fst).Sublist
      (List.range' first outcomes.length) := by
    induction outcomes generalizing first with
    | nil => exact List.Sublist.refl _
    | cons outcome rest ih =>
      have hrest := ih (first + 1)
      rw [fileMarks, analysesFrom_cons, List.length_cons, List.range'_succ]
      cases outcome with
      | analyzed analysis => exact hrest.cons_cons first
      | undecodable _ => exact hrest.cons first
      | crashed => exact hrest.cons first
  exact hplaces.nodup List.nodup_range'

/-- The marks of a plan mark the analysed files and leave the other ones as they are. -/
theorem getElem?_applyMarks_fileMarks (files : List JobFile) (clock : MarkClock)
    (outcomes : List FileOutcome) (i : Nat) :
    (applyMarks files (fileMarks clock 0 outcomes))[i]? =
      files[i]?.map fun file => if analyzedAt outcomes i then file.marked (clock i) else file := by
  cases hanalyzed : analyzedAt outcomes i with
  | true =>
    have hmem : (i, clock i) ∈ fileMarks clock 0 outcomes := mem_fileMarks.mpr ⟨rfl, hanalyzed⟩
    simp only [getElem?_applyMarks_of_mem (nodup_fileMarks clock 0 outcomes) hmem, if_true]
  | false =>
    have hnotMem : i ∉ (fileMarks clock 0 outcomes).map Prod.fst := by
      rintro hmem
      obtain ⟨⟨_, time⟩, hmark, rfl⟩ := List.mem_map.mp hmem
      simp [(mem_fileMarks.mp hmark).2] at hanalyzed
    simp [getElem?_applyMarks_of_notMem hnotMem]

theorem foldl_count (us : List Update) (summary : AggregateSummary) :
    us.foldl .count summary =
      { summary with
        findings := summary.findings + (us.filterMap Update.finding?).length
        recommendations := summary.recommendations + (us.filterMap Update.recommendation?).length
        dependencies := summary.dependencies + (us.filterMap Update.dependency?).length } := by
  induction us generalizing summary with
  | nil => rfl
  | cons u us ih =>
    rw [List.foldl_cons, ih]
    cases u <;> simp [AggregateSummary.count, List.filterMap_cons, Update.finding?,
      Update.recommendation?, Update.dependency?, Nat.add_comm, Nat.add_left_comm]

theorem length_analyses (outcomes : List FileOutcome) :
    (analyses outcomes).length = outcomes.countP (·.isAnalyzed) := by
  have hoptions : ∀ pair : FileOutcome × Nat,
      (pair.1.analysis?.map fun analysis => (pair.2, analysis)).isSome = pair.1.isAnalyzed :=
    fun pair => Option.isSome_map
  rw [analyses, analysesFrom, List.length_filterMap_eq_countP]
  simp only [hoptions]
  calc (outcomes.zipIdx 0).countP (fun pair => pair.1.isAnalyzed)
      = ((outcomes.zipIdx 0).map Prod.fst).countP (·.isAnalyzed) := by
        rw [List.countP_map]
        rfl
    _ = outcomes.countP (·.isAnalyzed) := by rw [List.zipIdx_map_fst]

theorem planSummary_eq (id : JobId) (clock : MarkClock) (h : OutcomesOf files outcomes) :
    planSummary id clock outcomes =
      { findings := (storedFindings id files outcomes).length
        recommendations := (storedRecommendations id outcomes).length
        dependencies := (storedDependencies id outcomes).length
        filesAnalyzed := outcomes.countP (·.isAnalyzed) } := by
  rw [planSummary, foldl_count, ← plan_findings id clock h, ← plan_recommendations id clock,
    ← plan_dependencies id clock, filterMap_plan _ _ _ fun _ _ => rfl,
    filterMap_plan _ _ _ fun _ _ => rfl, filterMap_plan _ _ _ fun _ _ => rfl, length_analyses]
  simp

end LegacyAudit
