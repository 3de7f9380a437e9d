import LegacyAudit.Proofs.Job.Completion

/-!
# Runs that are stopped

A storage that may refuse calls stops a run at its first refusal. Nothing of the plan is asked for
after it; the job is asked to fail with the message of the refusal, once, and it is never completed.

## Main definitions

- `RunCourse` - the courses of a run, as its log and the job in the end show them
- `Storage.MayRefuse.runJob_course` - runs take no other course
-/

namespace LegacyAudit

theorem append_ne_empty {a : String} (b : String) (h : a ≠ "") : a ++ b ≠ "" :=
  fun hab => h (String.append_eq_empty_iff.mp hab).1

theorem StorageError.message_ne_empty (err : StorageError) : err.message ≠ "" := by
  cases err with
  | jobNotFound id => exact append_ne_empty id.text (by decide)
  | invalidTransition current next =>
    exact append_ne_empty _ (append_ne_empty _ (append_ne_empty _ (by decide)))
  | progressRegression current next =>
    exact append_ne_empty _ (append_ne_empty _ (append_ne_empty _ (by decide)))
  | rejected reason => exact append_ne_empty reason (by decide)

/-- The courses of a run through a plan, as its log and the job in the end show them. -/
inductive RunCourse {σ : Type} (id : JobId) (updates : List Update) :
    List (Exchange σ) → Job → Prop
  /-- The whole plan is asked for and accepted. -/
  | through {log : List (Exchange σ)} {job : Job}
      (hcalls : log.map Exchange.call = updates.map (.update id))
      (haccepted : ∀ x ∈ log, x.answer = .accepted)
      (hstatus : job.status = .completed) : RunCourse id updates log job
  /-- After `done` an update is refused, and asking for failure is all that follows. The job fails
  where it stands; or it stays there, if that is refused as well. -/
  | stopped {done rest : List Update} {u : Update} {before : List (Exchange σ)} {mid final : σ}
      {err : StorageError} {answer : Answer} {job : Job}
      (hupdates : updates = done ++ u :: rest)
      (hcalls : before.map Exchange.call = done.map (.update id))
      (haccepted : ∀ x ∈ before, x.answer = .accepted)
      (hasked : ∀ v ∈ done ++ [u], v.isFailure = false)
      (hmessage : err.message ≠ "")
      (hprogress : job.progress = (lastReport done).2)
      (hle : job.progress ≤ 75)
      (hcompletedAt : job.completedAt = none)
      (hend : (answer = .accepted ∧ job.status = .failed ∧
          job.errorMessage = some err.message) ∨
        ((∃ err', answer = .refused err') ∧ job.status = (lastReport done).1 ∧
          job.status.isTerminal = false ∧ job.errorMessage = none)) :
      RunCourse id updates (before ++ [⟨.update id u, .refused err, mid⟩,
        ⟨.update id (.failed err.message), answer, final⟩]) job

theorem RunCourse.completed_iff {σ : Type} {id : JobId} {updates : List Update}
    {log : List (Exchange σ)} {job : Job} (h : RunCourse id updates log job) :
    job.status = .completed ↔ ∀ x ∈ log, x.answer = .accepted := by
  cases h with
  | through _ haccepted hstatus => exact ⟨fun _ => haccepted, fun _ => hstatus⟩
  | @stopped _ _ u before mid _ err _ _ _ _ _ _ _ _ _ _ hend =>
    constructor
    · intro hcompleted
      rcases hend with ⟨_, hfailed, _⟩ | ⟨_, _, hopen, _⟩
      · simp [hfailed] at hcompleted
      · simp [hcompleted, JobStatus.isTerminal] at hopen
    · intro haccepted
      have hrefused : Answer.refused err = .accepted :=
        haccepted ⟨.update id u, .refused err, mid⟩ (List.mem_append_right _ List.mem_cons_self)
      exact absurd hrefused (by simp)

variable {σ : Type} {storage : Storage σ} {store : σ → Store} {s : σ} {id : JobId}
  {created : Timestamp} {metadata : ProjectMetadata} {files : List SourceFile} {clock : MarkClock}
  {outcomes : List FileOutcome} {log : List (Exchange σ)}

theorem runCourse_of_through {e : Entry}
    (hlog : Entry.Observed store id (.new id created metadata files) (plan id clock outcomes)
      log e) :
    RunCourse id (plan id clock outcomes) log e.job := by
  have hstands := hlog.steps.lastReport_eq fun _ => isFailure_of_mem_plan
  rw [lastReport_plan, Prod.mk.injEq] at hstands
  exact .through hlog.calls hlog.accepted hstands.1.symm

/-- Whether the job is failed or left where it stands, a run that is refused an update of its plan
is a stopped one. -/
theorem runCourse_of_stopped {done rest : List Update} {u : Update} {mid final : σ}
    {err : StorageError} {answer : Answer} {e₁ e₂ : Entry}
    (hplan : plan id clock outcomes = done ++ u :: rest)
    (hlog : Entry.Observed store id (.new id created metadata files) done log e₁)
    (hend : (answer = .accepted ∧ ∃ now, e₁.Step now (.failed err.message) e₂) ∨
      ((∃ err', answer = .refused err') ∧ e₂ = e₁)) :
    RunCourse id (plan id clock outcomes) (log ++ [⟨.update id u, .refused err, mid⟩,
      ⟨.update id (.failed err.message), answer, final⟩]) e₂.job := by
  obtain ⟨hstands, hopen, hcompletedAt, herror⟩ := stands_of_steps hplan hlog.steps
  have hle : e₁.job.progress ≤ 75 := by
    have hbefore := lastReport_le hplan
    rwa [hstands] at hbefore
  have hasked : ∀ v ∈ done ++ [u], v.isFailure = false := by
    intro v hv
    have hmem : v ∈ plan id clock outcomes := by
      rw [hplan, List.append_cons]
      exact List.mem_append_left rest hv
    exact isFailure_of_mem_plan hmem
  -- either the failure was recorded, or the job stands where the plan left it
  rcases hend with ⟨rfl, now, hstep⟩ | ⟨hrefused, rfl⟩
  · cases hstep with
    | failed _ =>
      exact .stopped hplan hlog.calls hlog.accepted hasked err.message_ne_empty (by rw [hstands])
        hle hcompletedAt (.inl ⟨rfl, rfl, rfl⟩)
  · exact .stopped hplan hlog.calls hlog.accepted hasked err.message_ne_empty (by rw [hstands])
      hle hcompletedAt (.inr ⟨hrefused, by rw [hstands], hopen, herror⟩)

/-- A run of a new job on a storage that may refuse calls goes through its plan, or it is stopped by
the first refusal; the job is completed exactly in the first case. -/
theorem Storage.MayRefuse.runJob_course (h : storage.MayRefuse store) (clock : MarkClock)
    (outcomes : List FileOutcome)
    (hnew : (store s).find? id = some (.new id created metadata files)) :
    ∃ final log job, runJob storage id clock outcomes s = (.finished, final) ∧
      runJob storage.logged id clock outcomes (s, []) = (.finished, final, log) ∧
      (store final).getJob? id = some job ∧ RunCourse id (plan id clock outcomes) log job ∧
      (job.status = .completed ↔ ∀ x ∈ log, x.answer = .accepted) := by
  rcases h.runJob_cases hnew clock outcomes with
    ⟨final, log, e, hrun, hlog, hfinal⟩ |
    ⟨done, u, rest, err, mid, answer, final, log, e₁, e₂, hplan, hrun, hlog, _, hfinal, hend⟩
  · have hcourse := runCourse_of_through hlog
    exact ⟨final, log, e.job, runJob_of_logged hrun, hrun, Store.getJob?_of_find? hfinal,
      hcourse, hcourse.completed_iff⟩
  · have hcourse : RunCourse id (plan id clock outcomes) (log ++ [⟨.update id u, .refused err, mid⟩,
        ⟨.update id (.failed err.message), answer, final⟩]) e₂.job :=
      runCourse_of_stopped hplan hlog hend
    exact ⟨final, _, e₂.job, runJob_of_logged hrun, hrun, Store.getJob?_of_find? hfinal,
      hcourse, hcourse.completed_iff⟩

/-- The disk is full when the second dependency of the sample is to be stored. -/
theorem sample_stops :
    let fault : Fault := ⟨.appendDependency, 2, none, .refused (.rejected "disk full")⟩
    let storage := Faults.storage [fault] (Store.storage default)
    let start : Counted Store := ⟨sampleStore, [], []⟩
    ∃ final log job, runJob storage ⟨7⟩ (default : Timestamp) sampleOutcomes start =
        (.finished, final) ∧
      runJob storage.logged ⟨7⟩ (default : Timestamp) sampleOutcomes (start, []) =
        (.finished, final, log) ∧
      final.state.getJob? ⟨7⟩ = some job ∧
      RunCourse ⟨7⟩ (plan ⟨7⟩ (default : Timestamp) sampleOutcomes) log job ∧
      (job.status = .completed ↔ ∀ x ∈ log, x.answer = .accepted) ∧
      job.status = .failed := by
  intro fault storage start
  have hfaults : ∀ f ∈ [fault], ∃ err, f.answer = .refused err := by simp [fault]
  have hstorage : storage.MayRefuse fun s => s.state :=
    Faults.storage_mayRefuse hfaults (Store.storage_faithful default).mayRefuse
  obtain ⟨final, log, job, hrun, hlogged, hjob, hcourse, hcompleted⟩ :=
    hstorage.runJob_course (fun _ => default) sampleOutcomes (s := start) find?_sampleStore
  refine ⟨final, log, job, hrun, hlogged, hjob, hcourse, hcompleted, ?_⟩
  have hstatus : ((runJob storage ⟨7⟩ (default : Timestamp) sampleOutcomes start).2.state.getJob?
      ⟨7⟩).map (·.status) = some .failed := by
    rfl
  have hsame : runJob storage ⟨7⟩ (default : Timestamp) sampleOutcomes start = (.finished, final) :=
    hrun
  rw [hsame, hjob, Option.map_some, Option.some.injEq] at hstatus
  exact hstatus

end LegacyAudit
