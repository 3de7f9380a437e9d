import LegacyAudit.Job.Summary
import LegacyAudit.Proofs.Job.Acceptance
import LegacyAudit.Proofs.Job.Exchanges

/-!
# Complete runs

On a storage that behaves as the job store, every run comes to its end: no call is refused, the job
is completed, and it holds the results of exactly the analysed files.

## Main definitions

- `Completion` - what a complete run leaves and reports
- `Storage.Faithful.runJob_completes` - runs are complete
- `Storage.Faithful.submit_completes` - so are the runs of submitted jobs
-/

namespace LegacyAudit

/-- What a complete run leaves of a job, given the submitted files with their outcomes, and what it
reports. -/
structure Completion (id : JobId) (files : List SourceFile) (outcomes : List FileOutcome)
    (job : Job) (summary : AggregateSummary) : Prop where
  status : job.status = .completed
  progress : job.progress = 100
  completedAt : job.completedAt.isSome
  errorMessage : job.errorMessage = none
  findings : job.findings = storedFindings id files outcomes
  recommendations : job.recommendations = storedRecommendations id outcomes
  dependencies : job.dependencies = storedDependencies id outcomes
  files_length : job.files.length = files.length
  /-- Every file is as submitted, and it is marked exactly if it was analysed. -/
  files_at : ∀ (i : Nat) (file : SourceFile) (outcome : FileOutcome),
    files[i]? = some file → outcomes[i]? = some outcome →
      ∃ kept : JobFile, job.files[i]? = some kept ∧ kept.filename = file.filename ∧
        kept.language = file.language ∧ kept.size = file.size ∧
        kept.status = if outcome.isAnalyzed then .processed else .uploaded
  filesSubmitted : job.summary.filesSubmitted = files.length
  filesAnalyzed : job.summary.filesAnalyzed = outcomes.countP (·.isAnalyzed)
  counted : summary = ⟨job.findings.length, job.recommendations.length, job.dependencies.length,
    outcomes.countP (·.isAnalyzed)⟩

variable {id : JobId} {clock : MarkClock} {files : List SourceFile} {outcomes : List FileOutcome}
  {created : Timestamp} {metadata : ProjectMetadata} {e : Entry}

theorem lastReport_plan (id : JobId) (clock : MarkClock) (outcomes : List FileOutcome) :
    lastReport (plan id clock outcomes) = (.completed, 100) := by
  rw [lastReport, plan_reports, planReports, List.getLast?_append]
  rfl

theorem filesProcessed_of_plan
    (hs : (Entry.new id created metadata files).Steps (plan id clock outcomes) e) :
    e.job.filesProcessed = outcomes.countP (·.isAnalyzed) := by
  rw [hs.filesProcessed_of_new, markedPlaces, List.length_map, plan_marks, fileMarks,
    List.length_map]
  exact length_analyses outcomes

theorem completion_of_steps (houtcomes : OutcomesOf files outcomes)
    (hs : (Entry.new id created metadata files).Steps (plan id clock outcomes) e) :
    Completion id files outcomes e.job (planSummary id clock outcomes) := by
  have hus : ∀ u ∈ plan id clock outcomes, u.isFailure = false := fun _ => isFailure_of_mem_plan
  have he : e.Consistent := hs.keep Entry.Consistent.step (Entry.consistent_new ..)
  have hstands := hs.lastReport_eq hus
  rw [lastReport_plan, Prod.mk.injEq] at hstands
  have hfindings : e.job.findings = storedFindings id files outcomes := by
    rw [hs.findings_eq, plan_findings id clock houtcomes]
    rfl
  have hrecommendations : e.job.recommendations = storedRecommendations id outcomes := by
    rw [hs.recommendations_eq, plan_recommendations]
    rfl
  have hdependencies : e.job.dependencies = storedDependencies id outcomes := by
    rw [hs.dependencies_eq, plan_dependencies]
    rfl
  have hfiles : e.job.files = applyMarks (files.map .ofSource) (fileMarks clock 0 outcomes) := by
    rw [hs.files_eq, plan_marks]
    rfl
  refine
    { status := hstands.1.symm
      progress := hstands.2.symm
      completedAt := he.completedAt_iff.mpr hstands.1.symm
      errorMessage := hs.errorMessage_eq hus
      findings := hfindings
      recommendations := hrecommendations
      dependencies := hdependencies
      files_length := by rw [hfiles, length_applyMarks, List.length_map]
      files_at := ?_
      filesSubmitted := ?_
      filesAnalyzed := filesProcessed_of_plan hs
      counted := ?_ }
  · intro i file outcome hfile houtcome
    rw [hfiles, getElem?_applyMarks_fileMarks, List.getElem?_map, hfile, analyzedAt_eq houtcome]
    cases outcome.isAnalyzed with
    | true => exact ⟨(JobFile.ofSource file).marked (clock i), rfl, rfl, rfl, rfl, rfl⟩
    | false => exact ⟨.ofSource file, rfl, rfl, rfl, rfl, rfl⟩
  · change e.job.files.length = files.length
    rw [hfiles, length_applyMarks, List.length_map]
  · rw [planSummary_eq id clock houtcomes, hfindings, hrecommendations, hdependencies]

theorem Storage.Faithful.execute_plan {σ : Type} {storage : Storage σ} {store : σ → Store} {s : σ}
    (h : storage.Faithful store) (clock : MarkClock) (houtcomes : OutcomesOf files outcomes)
    (hnew : (store s).find? id = some (.new id created metadata files)) :
    ∃ final e, execute storage id (plan id clock outcomes) s =
        (⟨plan id clock outcomes, .accepted⟩, final) ∧
      (Entry.new id created metadata files).Steps (plan id clock outcomes) e ∧
      (store final).find? id = some e :=
  h.execute_eq hnew fun _ _ _ _ hplan hdone now => exists_step_of_plan houtcomes hplan hdone now

/-- A job that is submitted to a faithful storage is created and makes all steps of its plan, with
the analyses of its files. -/
theorem Storage.Faithful.submit_steps {σ : Type} {storage : Storage σ} {store : σ → Store}
    (h : storage.Faithful store) (trees : TreeSource) (chain : Chain) (clock : MarkClock)
    (id : JobId) (metadata : ProjectMetadata) (files : List SourceFile) (s : σ) :
    ∃ final now e,
      submit storage trees chain clock id metadata files s = (.ran .finished, final) ∧
      (Entry.new id now metadata files).Steps
        (plan id clock (files.map (analyzeFile trees chain))) e ∧
      (store final).find? id = some e := by
  obtain ⟨now, hanswer, hstate⟩ := h (.create id metadata files) s
  rcases hcreate : storage (.create id metadata files) s with ⟨answer, s'⟩
  rw [hcreate] at hanswer hstate
  have hnew : (store s').find? id = some (.new id now metadata files) := by
    rw [hstate]
    exact Store.find?_put_self ..
  obtain ⟨final, e, hrun, hsteps, hfinal⟩ :=
    h.execute_plan clock (outcomesOf_analyzeFile trees chain files) hnew
  refine ⟨final, now, e, ?_, hsteps, hfinal⟩
  rw [submit, hcreate, show answer = .accepted from hanswer]
  simp only [runJob_of_accepted hrun]

theorem Storage.Faithful.submit_completes {σ : Type} {storage : Storage σ} {store : σ → Store}
    (h : storage.Faithful store) (trees : TreeSource) (chain : Chain) (clock : MarkClock)
    (id : JobId) (metadata : ProjectMetadata) (files : List SourceFile) (s : σ) :
    ∃ final job summary,
      submit storage trees chain clock id metadata files s = (.ran .finished, final) ∧
      (store final).getJob? id = some job ∧
      Completion id files (files.map (analyzeFile trees chain)) job summary := by
  obtain ⟨final, _, e, hsubmit, hsteps, hfinal⟩ :=
    h.submit_steps trees chain clock id metadata files s
  exact ⟨final, e.job, _, hsubmit, Store.getJob?_of_find? hfinal,
    completion_of_steps (outcomesOf_analyzeFile trees chain files) hsteps⟩

/-- Three files, two of them under the same name. -/
def sampleFiles : List SourceFile :=
  [⟨"a.py", []⟩, ⟨"b.py", []⟩, ⟨"a.py", []⟩]

def sampleOutcomes : List FileOutcome :=
  let finding : FindingDraft :=
    ⟨.security, .high, "Injection", "A query is put together", .line 3, none, none, 90⟩
  let recommendation : RecommendationDraft :=
    ⟨.codeQuality, .low, "Tidy up", "Remove dead code", "1 day", [], []⟩
  let dependency : DependencyDraft := ⟨"log4j", "library", .vulnerable, .critical, .simple⟩
  [.analyzed ⟨"a.py", .degraded .python "", ⟨[finding, finding], [recommendation], []⟩, []⟩,
    .crashed,
    .analyzed ⟨"a.py", .degraded .python "", ⟨[finding], [], [dependency, dependency]⟩, []⟩]

/-- A store in which the job of the three files is new. -/
def sampleStore : Store :=
  ⟨[(⟨7⟩, .new ⟨7⟩ default ⟨"demo", none, none, .standard⟩ sampleFiles)]⟩

theorem find?_sampleStore : sampleStore.find? ⟨7⟩ =
    some (.new ⟨7⟩ default ⟨"demo", none, none, .standard⟩ sampleFiles) :=
  rfl

theorem outcomesOf_sample : OutcomesOf sampleFiles sampleOutcomes := by
  refine .cons ?_ (.cons ?_ (.cons ?_ .nil)) <;>
    simp [FileOutcome.IsOf, FileOutcome.analysis?]

/-- A run of a new job on a faithful storage is complete, whatever becomes of the files. -/
theorem Storage.Faithful.runJob_completes {σ : Type} {storage : Storage σ} {store : σ → Store}
    {s : σ} (h : storage.Faithful store) (clock : MarkClock) (houtcomes : OutcomesOf files outcomes)
    (hnew : (store s).find? id = some (.new id created metadata files)) :
    ∃ final job summary, (drive storage id clock outcomes).run s = (.ok summary, final) ∧
      runJob storage id clock outcomes s = (.finished, final) ∧
      (store final).getJob? id = some job ∧ Completion id files outcomes job summary := by
  obtain ⟨final, e, hrun, hsteps, hfinal⟩ := h.execute_plan clock houtcomes hnew
  exact ⟨final, e.job, planSummary id clock outcomes, drive_run hrun, runJob_of_accepted hrun,
    Store.getJob?_of_find? hfinal, completion_of_steps houtcomes hsteps⟩

theorem sample_completes :
    ∃ final job summary, (drive (Store.storage default) ⟨7⟩ (default : Timestamp)
        sampleOutcomes).run sampleStore = (.ok summary, final) ∧
      runJob (Store.storage default) ⟨7⟩ (default : Timestamp) sampleOutcomes sampleStore =
        (.finished, final) ∧
      final.getJob? ⟨7⟩ = some job ∧ Completion ⟨7⟩ sampleFiles sampleOutcomes job summary ∧
      summary = ⟨3, 1, 2, 2⟩ := by
  obtain ⟨final, job, summary, hdrive, hrun, hjob, hcomplete⟩ :=
    (Store.storage_faithful default).runJob_completes (fun _ => default) outcomesOf_sample
      find?_sampleStore
  refine ⟨final, job, summary, hdrive, hrun, hjob, hcomplete, ?_⟩
  rw [hcomplete.counted, hcomplete.findings, hcomplete.recommendations, hcomplete.dependencies]
  rfl

end LegacyAudit
