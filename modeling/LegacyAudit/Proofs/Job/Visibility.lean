import LegacyAudit.Proofs.Job.Completion

/-!
# What a reader sees of a run

A reader may look at a job after every call of its run, and the run may stop there. What is seen is
a part of the final result that ends somewhere, not one with gaps: every list of results is cut off
once, no result is seen before its phase was entered, and a file is marked only with its results and
those of the files before it in place.

## Main definitions

- `Entry.PartOf` - a part of the final result
- `Storage.MayRefuse.runJob_visible` - a reader sees nothing else

## Design notes

A plan can be cut before the phase of its findings is entered or after. In the second case the
updates that are done consist of those of some first files as a whole and of some more that set no
mark, and everything that is claimed about findings and marks follows from that.
-/

namespace LegacyAudit

variable {id : JobId} {clock : MarkClock} {files : List SourceFile} {outcomes : List FileOutcome}
  {done : List Update}

/-- A list that goes on over a member is cut before that member or after it. -/
theorem prefix_append_cons {α : Type} {l a b : List α} {x : α} (h : l <+: a ++ x :: b) :
    l <+: a ∨ ∃ more, l = a ++ x :: more ∧ more <+: b := by
  have hx : a ++ [x] <+: a ++ x :: b := ⟨b, by simp⟩
  rcases List.prefix_or_prefix_of_prefix h hx with hbefore | ⟨more, rfl⟩
  · rcases List.prefix_concat_iff.mp hbefore with rfl | hl
    · exact .inr ⟨[], rfl, List.nil_prefix⟩
    · exact .inl hl
  · rw [List.append_assoc, List.prefix_append_right_inj, List.singleton_append,
      List.cons_prefix_cons] at h
    exact .inr ⟨more, by simp, h.2⟩

def resultUpdates (id : JobId) (file : FileAnalysis) : List Update :=
  (file.output.findings.map fun draft => .finding (draft.attach id file.filename)) ++
    file.output.recommendations.map fun draft => .recommendation (draft.attach id)

theorem resultUpdates_marks (id : JobId) (file : FileAnalysis) :
    (resultUpdates id file).filterMap Update.mark? = [] := by
  simp [resultUpdates, Update.mark?]

theorem findingUpdates_analyzed_cons (id : JobId) (clock : MarkClock) (first : Nat)
    (analysis : FileAnalysis) (rest : List FileOutcome) :
    findingUpdates id clock (analysesFrom first (.analyzed analysis :: rest)) =
      resultUpdates id analysis ++ .processed first analysis.filename (clock first) ::
        findingUpdates id clock (analysesFrom (first + 1) rest) := by
  rw [analysesFrom_cons]
  simp [FileOutcome.analysis?, findingUpdates, fileUpdates, resultUpdates]

/-- Wherever the updates for findings are cut, those of some first files are there as a whole, and
the rest sets no mark. -/
theorem exists_cut_of_prefix_findingUpdates {first : Nat}
    (h : done <+: findingUpdates id clock (analysesFrom first outcomes)) :
    ∃ n part, done = findingUpdates id clock (analysesFrom first (outcomes.take n)) ++ part ∧
      part.filterMap Update.mark? = [] := by
  induction outcomes generalizing first done with
  | nil => exact ⟨0, [], by simpa [analysesFrom, findingUpdates] using h, rfl⟩
  | cons outcome rest ih =>
    -- a file without an analysis brings no updates: the cut lies in the rest
    have hskip : outcome.analysis? = none →
        ∃ n part, done = findingUpdates id clock
            (analysesFrom first ((outcome :: rest).take n)) ++ part ∧
          part.filterMap Update.mark? = [] := by
      intro hnone
      rw [analysesFrom_cons, hnone] at h
      obtain ⟨n, part, hdone, hpart⟩ := ih h
      refine ⟨n + 1, part, ?_, hpart⟩
      rw [List.take_succ_cons, analysesFrom_cons, hnone]
      exact hdone
    cases outcome with
    | undecodable _ => exact hskip rfl
    | crashed => exact hskip rfl
    | analyzed analysis =>
      rw [findingUpdates_analyzed_cons] at h
      rcases prefix_append_cons h with hresults | ⟨more, rfl, hmore⟩
      · refine ⟨0, done, rfl, ?_⟩
        have hmarks := hresults.filterMap Update.mark?
        rwa [resultUpdates_marks, List.prefix_nil] at hmarks
      · obtain ⟨n, part, rfl, hpart⟩ := ih hmore
        refine ⟨n + 1, part, ?_, hpart⟩
        rw [List.take_succ_cons, findingUpdates_analyzed_cons]
        simp

/-- The updates of a plan before the phase of its findings. -/
def firstPhases (id : JobId) (outcomes : List FileOutcome) : List Update :=
  opening outcomes.length ++
    entry .analyzingDependencies :: dependencyUpdates id (analyses outcomes)

theorem plan_eq (id : JobId) (clock : MarkClock) (outcomes : List FileOutcome) :
    plan id clock outcomes = firstPhases id outcomes ++ entry .generatingRecommendations ::
      (findingUpdates id clock (analyses outcomes) ++ [entry .completed]) := by
  simp [plan, firstPhases]

/-- A plan is cut before the phase of its findings or after some of its files. -/
theorem exists_cut_of_prefix_plan (h : done <+: plan id clock outcomes) :
    done <+: firstPhases id outcomes ∨
      ∃ n part, done = firstPhases id outcomes ++ entry .generatingRecommendations ::
          (findingUpdates id clock (analyses (outcomes.take n)) ++ part) ∧
        part.filterMap Update.mark? = [] := by
  rw [plan_eq] at h
  rcases prefix_append_cons h with hfirst | ⟨more, rfl, hmore⟩
  · exact .inl hfirst
  · right
    rcases List.prefix_concat_iff.mp hmore with rfl | hfindings
    · exact ⟨outcomes.length, [entry .completed], by rw [List.take_length], rfl⟩
    · obtain ⟨n, part, rfl, hpart⟩ := exists_cut_of_prefix_findingUpdates hfindings
      exact ⟨n, part, rfl, hpart⟩

def statuses (us : List Update) : List JobStatus :=
  (us.filterMap Update.report?).map Prod.fst

theorem filterMap_firstPhases {β : Type} {part : Update → Option β}
    (hstatus : ∀ status progress, part (.status status progress) = none)
    (hdependency : ∀ dependency, part (.dependency dependency) = none) :
    (firstPhases id outcomes).filterMap part = [] := by
  simp [firstPhases, filterMap_opening _ hstatus, filterMap_dependencyUpdates hdependency, entry,
    hstatus]

/-- What is brought besides reports and dependencies is brought after the first phases. -/
theorem filterMap_firstPhases_append {β : Type} {part : Update → Option β}
    (hstatus : ∀ status progress, part (.status status progress) = none)
    (hdependency : ∀ dependency, part (.dependency dependency) = none) (us : List Update) :
    (firstPhases id outcomes ++ entry .generatingRecommendations :: us).filterMap part =
      us.filterMap part := by
  have hentry : part (entry .generatingRecommendations) = none := hstatus _ _
  rw [List.filterMap_append, filterMap_firstPhases hstatus hdependency, List.nil_append,
    List.filterMap_cons_none hentry]

theorem firstPhases_dependencies (id : JobId) (outcomes : List FileOutcome) :
    (firstPhases id outcomes).filterMap Update.dependency? = storedDependencies id outcomes := by
  rw [firstPhases, List.filterMap_append, filterMap_opening _ fun _ _ => rfl, List.nil_append,
    List.filterMap_cons_none rfl, analyses, dependencyUpdates_dependencies]

theorem generatingRecommendations_notMem_firstPhases (id : JobId) (outcomes : List FileOutcome) :
    .generatingRecommendations ∉ statuses (firstPhases id outcomes) := by
  have hdependencies :
      (dependencyUpdates id (analyses outcomes)).filterMap Update.report? = [] :=
    filterMap_dependencyUpdates fun _ => rfl
  simp [statuses, firstPhases, opening, scanUpdates_reports, hdependencies, entry, Update.report?]

theorem analyzingDependencies_mem_statuses (h : done <+: plan id clock outcomes)
    (hdependencies : done.filterMap Update.dependency? ≠ []) :
    .analyzingDependencies ∈ statuses done := by
  have hplan : plan id clock outcomes = opening outcomes.length ++ entry .analyzingDependencies ::
      (dependencyUpdates id (analyses outcomes) ++ entry .generatingRecommendations ::
        (findingUpdates id clock (analyses outcomes) ++ [entry .completed])) := by
    simp [plan]
  rw [hplan] at h
  rcases prefix_append_cons h with hopening | ⟨more, rfl, _⟩
  · have hnone := hopening.filterMap Update.dependency?
    rw [filterMap_opening _ fun _ _ => rfl, List.prefix_nil] at hnone
    exact absurd hnone hdependencies
  · simp [statuses, entry, Update.report?]

/-- The phase of the findings is entered before anything of it is stored, and after all dependencies
are stored. -/
theorem generatingRecommendations_mem_statuses (h : done <+: plan id clock outcomes) :
    (.generatingRecommendations ∉ statuses done ∧ done.filterMap Update.finding? = [] ∧
        done.filterMap Update.recommendation? = [] ∧ done.filterMap Update.mark? = []) ∨
      (.generatingRecommendations ∈ statuses done ∧
        done.filterMap Update.dependency? = storedDependencies id outcomes) := by
  have hall := h.filterMap Update.dependency?
  rw [plan_dependencies] at hall
  rcases exists_cut_of_prefix_plan h with hfirst | ⟨n, part, rfl, _⟩
  · left
    have hstatuses := (hfirst.filterMap Update.report?).map Prod.fst
    have hnone : ∀ {β : Type} {part : Update → Option β},
        (∀ status progress, part (.status status progress) = none) →
        (∀ dependency, part (.dependency dependency) = none) → done.filterMap part = [] := by
      intro β part hstatus hdependency
      have hpart := hfirst.filterMap part
      rwa [filterMap_firstPhases hstatus hdependency, List.prefix_nil] at hpart
    exact ⟨fun hmem => generatingRecommendations_notMem_firstPhases id outcomes
        (hstatuses.subset hmem), hnone (fun _ _ => rfl) fun _ => rfl,
      hnone (fun _ _ => rfl) fun _ => rfl, hnone (fun _ _ => rfl) fun _ => rfl⟩
  · right
    refine ⟨by simp [statuses, entry, Update.report?], hall.eq_of_length_le ?_⟩
    rw [List.filterMap_append, firstPhases_dependencies, List.length_append]
    omega

/-- The marks that are set are those of some first files, and the results of these files are
stored. -/
theorem exists_marked_files (houtcomes : OutcomesOf files outcomes)
    (h : done <+: plan id clock outcomes) :
    ∃ n, done.filterMap Update.mark? = fileMarks clock 0 (outcomes.take n) ∧
      storedFindings id (files.take n) (outcomes.take n) <+: done.filterMap Update.finding? ∧
      storedRecommendations id (outcomes.take n) <+: done.filterMap Update.recommendation? := by
  rcases exists_cut_of_prefix_plan h with hfirst | ⟨n, part, rfl, hpart⟩
  · have hmarks := hfirst.filterMap Update.mark?
    rw [filterMap_firstPhases (fun _ _ => rfl) fun _ => rfl, List.prefix_nil] at hmarks
    exact ⟨0, hmarks, List.nil_prefix, List.nil_prefix⟩
  · have htake : OutcomesOf (files.take n) (outcomes.take n) := List.forall₂_take n houtcomes
    refine ⟨n, ?_, ?_, ?_⟩
    · rw [filterMap_firstPhases_append (fun _ _ => rfl) fun _ => rfl, List.filterMap_append, hpart,
        List.append_nil, analyses, findingUpdates_marks]
    · rw [filterMap_firstPhases_append (fun _ _ => rfl) fun _ => rfl, List.filterMap_append,
        analyses, findingUpdates_findings clock 0 htake]
      exact List.prefix_append _ _
    · rw [filterMap_firstPhases_append (fun _ _ => rfl) fun _ => rfl, List.filterMap_append,
        analyses, findingUpdates_recommendations]
      exact List.prefix_append _ _

/-- A job has entered a phase according to its history. -/
def Entry.Entered (e : Entry) (status : JobStatus) : Prop :=
  status ∈ e.history.map Prod.fst

def Job.Processed (job : Job) (i : Nat) : Prop :=
  ∃ file, job.files[i]? = some file ∧ file.status = .processed

/-- What a reader sees is a part of the final result that ends somewhere. -/
structure Entry.PartOf (id : JobId) (files : List SourceFile) (outcomes : List FileOutcome)
    (complete : Job) (e : Entry) : Prop where
  dependencies : e.job.dependencies <+: complete.dependencies
  findings : e.job.findings <+: complete.findings
  recommendations : e.job.recommendations <+: complete.recommendations
  dependencies_entered : e.job.dependencies ≠ [] → e.Entered .analyzingDependencies
  findings_entered : e.job.findings ≠ [] → e.Entered .generatingRecommendations
  recommendations_entered : e.job.recommendations ≠ [] → e.Entered .generatingRecommendations
  processed_entered : ∀ i, e.job.Processed i → e.Entered .generatingRecommendations
  dependencies_complete : e.Entered .generatingRecommendations →
    e.job.dependencies = complete.dependencies
  /-- The processed files are the analysed ones among some first files. -/
  processed_initial : ∃ n, ∀ i, e.job.Processed i ↔ i < n ∧ analyzedAt outcomes i = true
  /-- The results of a processed file and of all files before it are stored. -/
  processed_stored : ∀ i, e.job.Processed i →
    storedFindings id (files.take (i + 1)) (outcomes.take (i + 1)) <+: e.job.findings ∧
      storedRecommendations id (outcomes.take (i + 1)) <+: e.job.recommendations
  filesAnalyzed_le : e.job.summary.filesAnalyzed ≤ e.job.summary.filesSubmitted

variable {created : Timestamp} {metadata : ProjectMetadata} {e : Entry}

theorem processed_iff {job : Job} (hlength : outcomes.length ≤ files.length)
    (hfiles : job.files = applyMarks (files.map .ofSource) (fileMarks clock 0 outcomes)) (i : Nat) :
    job.Processed i ↔ analyzedAt outcomes i = true := by
  rw [Job.Processed, hfiles, getElem?_applyMarks_fileMarks, List.getElem?_map]
  rcases hfile : files[i]? with _ | file
  · have hi : outcomes[i]? = none := by
      rw [List.getElem?_eq_none_iff] at hfile ⊢
      omega
    simp [analyzedAt, hi]
  · cases hanalyzed : analyzedAt outcomes i with
    | true => simp [JobFile.marked]
    | false => simp [JobFile.ofSource]

theorem entered_iff (hs : (Entry.new id created metadata files).Steps done e)
    (hus : ∀ u ∈ done, u.isFailure = false) (status : JobStatus) :
    e.Entered status ↔ status = .pending ∨ status ∈ statuses done := by
  rw [Entry.Entered, hs.history_eq hus]
  simp [Entry.new, statuses]

/-- The files that have been dealt with are the analysed ones among some first files, and what was
found in these is stored. -/
theorem exists_processed_of_steps (houtcomes : OutcomesOf files outcomes)
    (hdone : done <+: plan id clock outcomes)
    (hs : (Entry.new id created metadata files).Steps done e) :
    ∃ n, (∀ i, e.job.Processed i ↔ i < n ∧ analyzedAt outcomes i = true) ∧
      storedFindings id (files.take n) (outcomes.take n) <+: e.job.findings ∧
      storedRecommendations id (outcomes.take n) <+: e.job.recommendations := by
  obtain ⟨n, hmarks, hfindings, hrecommendations⟩ := exists_marked_files houtcomes hdone
  have hfiles : e.job.files =
      applyMarks (files.map .ofSource) (fileMarks clock 0 (outcomes.take n)) := by
    rw [hs.files_eq, hmarks]
    rfl
  have hlength : (outcomes.take n).length ≤ files.length := by
    rw [houtcomes.length_eq]
    exact List.length_take_le' n outcomes
  refine ⟨n, fun i => ?_, ?_, ?_⟩
  · rw [processed_iff hlength hfiles, analyzedAt_take]
  · rw [hs.findings_eq]
    exact hfindings
  · rw [hs.recommendations_eq]
    exact hrecommendations

/-- Until the phase of the findings is entered, none of them is stored and no file is dealt with;
from then on all dependencies are stored. -/
theorem generatingRecommendations_entered_cases (hdone : done <+: plan id clock outcomes)
    (hs : (Entry.new id created metadata files).Steps done e) :
    (¬ e.Entered .generatingRecommendations ∧ e.job.findings = [] ∧
        e.job.recommendations = [] ∧ ∀ i, ¬ e.job.Processed i) ∨
      (e.Entered .generatingRecommendations ∧
        e.job.dependencies = storedDependencies id outcomes) := by
  have hus : ∀ u ∈ done, u.isFailure = false := fun u hu =>
    isFailure_of_mem_plan (hdone.subset hu)
  have hentered : e.Entered .generatingRecommendations ↔
      .generatingRecommendations ∈ statuses done := by
    simp [entered_iff hs hus]
  rcases generatingRecommendations_mem_statuses hdone with
    ⟨hnotMem, hfindings, hrecommendations, hmarks⟩ | ⟨hmem, hdependencies⟩
  · refine .inl ⟨mt hentered.mp hnotMem, hs.findings_eq.trans hfindings,
      hs.recommendations_eq.trans hrecommendations, ?_⟩
    rintro i ⟨file, hfile, hprocessed⟩
    -- without marks the files are still as they were submitted
    rw [hs.files_eq, hmarks] at hfile
    obtain ⟨source, _, rfl⟩ := List.mem_map.mp (List.mem_of_getElem? hfile)
    simp [JobFile.ofSource] at hprocessed
  · exact .inr ⟨hentered.mpr hmem, hs.dependencies_eq.trans hdependencies⟩

/-- An entry that has made the first steps of a plan is a part of the final result. -/
theorem partOf_of_steps {complete : Job} {summary : AggregateSummary}
    (houtcomes : OutcomesOf files outcomes)
    (hcomplete : Completion id files outcomes complete summary)
    (hdone : done <+: plan id clock outcomes)
    (hs : (Entry.new id created metadata files).Steps done e) :
    e.PartOf id files outcomes complete := by
  have hdependencies : e.job.dependencies = done.filterMap Update.dependency? := hs.dependencies_eq
  have hfindings : e.job.findings = done.filterMap Update.finding? := hs.findings_eq
  have hrecommendations : e.job.recommendations = done.filterMap Update.recommendation? :=
    hs.recommendations_eq
  obtain ⟨n, hprocessed, hfindingsOf, hrecommendationsOf⟩ :=
    exists_processed_of_steps houtcomes hdone hs
  have hgenerating := generatingRecommendations_entered_cases hdone hs
  refine
    { dependencies := ?_
      findings := ?_
      recommendations := ?_
      dependencies_entered := ?_
      findings_entered := fun hne => (hgenerating.resolve_left fun h => hne h.2.1).1
      recommendations_entered := fun hne => (hgenerating.resolve_left fun h => hne h.2.2.1).1
      processed_entered := fun i hi => (hgenerating.resolve_left fun h => h.2.2.2 i hi).1
      dependencies_complete := fun hentered =>
        (hgenerating.resolve_left fun h => h.1 hentered).2.trans hcomplete.dependencies.symm
      processed_initial := ⟨n, hprocessed⟩
      processed_stored := ?_
      filesAnalyzed_le := List.countP_le_length }
  · rw [hdependencies, hcomplete.dependencies, ← plan_dependencies id clock]
    exact hdone.filterMap _
  · rw [hfindings, hcomplete.findings, ← plan_findings id clock houtcomes]
    exact hdone.filterMap _
  · rw [hrecommendations, hcomplete.recommendations, ← plan_recommendations id clock]
    exact hdone.filterMap _
  · intro hne
    rw [hdependencies] at hne
    have hus : ∀ u ∈ done, u.isFailure = false := fun u hu =>
      isFailure_of_mem_plan (hdone.subset hu)
    exact (entered_iff hs hus _).mpr (.inr (analyzingDependencies_mem_statuses hdone hne))
  · intro i hi
    have hle : i + 1 ≤ n := ((hprocessed i).mp hi).1
    exact ⟨(storedFindings_take_mono id files outcomes hle).trans hfindingsOf,
      (storedRecommendations_take_mono id outcomes hle).trans hrecommendationsOf⟩

theorem Entry.PartOf.failed {complete : Job} {now : Timestamp} {message : String} {e' : Entry}
    (h : e.PartOf id files outcomes complete) (hstep : e.Step now (.failed message) e') :
    e'.PartOf id files outcomes complete := by
  cases hstep with
  | failed hopen =>
    have hentered : ∀ status, e.Entered status →
        status ∈ (e.history ++ [(JobStatus.failed, e.job.progress)]).map Prod.fst := by
      intro status hmem
      rw [List.map_append]
      exact List.mem_append_left _ hmem
    refine
      { dependencies := h.dependencies
        findings := h.findings
        recommendations := h.recommendations
        dependencies_entered := fun hne => hentered _ (h.dependencies_entered hne)
        findings_entered := fun hne => hentered _ (h.findings_entered hne)
        recommendations_entered := fun hne => hentered _ (h.recommendations_entered hne)
        processed_entered := fun i hi => hentered _ (h.processed_entered i hi)
        dependencies_complete := ?_
        processed_initial := h.processed_initial
        processed_stored := h.processed_stored
        filesAnalyzed_le := h.filesAnalyzed_le }
    intro hmem
    rw [Entry.Entered, List.map_append, List.mem_append] at hmem
    rcases hmem with hmem | hmem
    · exact h.dependencies_complete hmem
    · simp at hmem

/-- Before and after every accepted update a reader sees a part of the final result. -/
theorem partOf_of_observed {σ : Type} {store : σ → Store} {s : σ} {complete : Job}
    {summary : AggregateSummary} {log : List (Exchange σ)} (houtcomes : OutcomesOf files outcomes)
    (hcomplete : Completion id files outcomes complete summary)
    (hnew : (store s).find? id = some (.new id created metadata files))
    (hdone : done <+: plan id clock outcomes)
    (hlog : Entry.Observed store id (.new id created metadata files) done log e) :
    ∀ seen ∈ s :: log.map Exchange.after, ∃ e', (store seen).find? id = some e' ∧
      e'.PartOf id files outcomes complete := by
  intro seen hseen
  rcases List.mem_cons.mp hseen with rfl | hafter
  · exact ⟨_, hnew, partOf_of_steps houtcomes hcomplete
      (List.nil_prefix.trans hdone) .nil⟩
  · obtain ⟨x, hx, rfl⟩ := List.mem_map.mp hafter
    obtain ⟨first, mid, hfirst, hs, hmid⟩ := hlog.after hx
    exact ⟨mid, hmid, partOf_of_steps houtcomes hcomplete (hfirst.trans hdone) hs⟩

/-- After every call of a run of a new job, a reader sees a part of what a run on the job store
itself ends with. -/
theorem Storage.MayRefuse.runJob_visible {σ : Type} {storage : Storage σ} {store : σ → Store}
    {s : σ} (h : storage.MayRefuse store) (clock : MarkClock)
    (houtcomes : OutcomesOf files outcomes)
    (hnew : (store s).find? id = some (.new id created metadata files)) (now : Timestamp) :
    ∃ final log finished complete,
      runJob storage.logged id clock outcomes (s, []) = (.finished, final, log) ∧
      runJob (Store.storage now) id clock outcomes (store s) = (.finished, finished) ∧
      finished.getJob? id = some complete ∧ complete.status = .completed ∧
      ∀ seen ∈ s :: log.map Exchange.after, ∃ e, (store seen).find? id = some e ∧
        e.PartOf id files outcomes complete := by
  obtain ⟨finished, e, hexecute, hsteps, hfinished⟩ :=
    (Store.storage_faithful now).execute_plan clock houtcomes hnew
  have hcomplete := completion_of_steps houtcomes hsteps
  have hgetJob : finished.getJob? id = some e.job := Store.getJob?_of_find? hfinished
  rcases h.runJob_cases hnew clock outcomes with
    ⟨final, log, _, hrun, hlog, _⟩ |
    ⟨done, u, rest, err, mid, answer, final, log, e₁, e₂, hplan, hrun, hlog, hmid, hfinal, hend⟩
  · exact ⟨final, log, finished, e.job, hrun, runJob_of_accepted hexecute, hgetJob,
      hcomplete.status, partOf_of_observed houtcomes hcomplete hnew (List.prefix_refl _) hlog⟩
  · refine ⟨final, _, finished, e.job, hrun, runJob_of_accepted hexecute, hgetJob,
      hcomplete.status, ?_⟩
    have hdone : done <+: plan id clock outcomes := ⟨u :: rest, hplan.symm⟩
    have hstopped : e₁.PartOf id files outcomes e.job :=
      partOf_of_steps houtcomes hcomplete hdone hlog.steps
    intro seen hseen
    rw [List.map_append, ← List.cons_append, List.mem_append] at hseen
    rcases hseen with hbefore | hlast
    · exact partOf_of_observed houtcomes hcomplete hnew hdone hlog seen hbefore
    · simp only [List.map_cons, List.map_nil, List.mem_cons, List.not_mem_nil, or_false] at hlast
      rcases hlast with rfl | rfl
      · exact ⟨e₁, hmid, hstopped⟩
      · rcases hend with ⟨_, _, hstep⟩ | ⟨_, rfl⟩
        · exact ⟨e₂, hfinal, hstopped.failed hstep⟩
        · exact ⟨e₂, hfinal, hstopped⟩

/-- The sample is seen part by part on a storage that refuses its last mark. -/
theorem sample_visible :
    let fault : Fault := ⟨.markFileProcessed, 2, none, .refused (.rejected "disk full")⟩
    let storage := Faults.storage [fault] (Store.storage default)
    let start : Counted Store := ⟨sampleStore, [], []⟩
    ∃ final log finished complete,
      runJob storage.logged ⟨7⟩ (default : Timestamp) sampleOutcomes (start, []) =
        (.finished, final, log) ∧
      runJob (Store.storage default) ⟨7⟩ (default : Timestamp) sampleOutcomes sampleStore =
        (.finished, finished) ∧
      finished.getJob? ⟨7⟩ = some complete ∧ complete.status = .completed ∧
      ∀ seen ∈ start :: log.map Exchange.after, ∃ e, seen.state.find? ⟨7⟩ = some e ∧
        e.PartOf ⟨7⟩ sampleFiles sampleOutcomes complete := by
  intro fault storage start
  have hfaults : ∀ f ∈ [fault], ∃ err, f.answer = .refused err := by simp [fault]
  have hstorage : storage.MayRefuse fun s => s.state :=
    Faults.storage_mayRefuse hfaults (Store.storage_faithful default).mayRefuse
  exact hstorage.runJob_visible (fun _ => default) outcomesOf_sample (s := start)
    find?_sampleStore default

end LegacyAudit
