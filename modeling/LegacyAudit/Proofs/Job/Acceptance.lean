import LegacyAudit.Proofs.Job.Interpolation
import LegacyAudit.Proofs.Job.Results

/-!
# No update of a plan is refused

The store checks every update: the job has to be open, a status has to be a legal move, a mark has
to name the file at its place, and that file must not be marked yet. A plan passes all of these
checks, whatever becomes of the files and however often a filename is submitted.

## Main definitions

- `isChain_planReports` - the reports of a plan are legal moves
- `exists_step_of_plan` - an entry that has made the first steps of a plan can make the next one
-/

namespace LegacyAudit

theorem progressAfter_bounds (done total : Nat) :
    25 ≤ progressAfter done total ∧ progressAfter done total ≤ 49 := by
  rw [progressAfter]
  cases h : scanningProgress? (.ofNat done) (.ofNat total) with
  | none => decide
  | some progress => exact scanningProgress?_bounds h

/-- The reports from the scan on are legal moves, wherever the scan stands. -/
theorem isChain_scanReports (total left index : Nat) {reported progress : UInt8}
    (hreported : reported ≤ progress) (hprogress : progress ≤ 49) :
    ((.scanningCode, reported) ::
      ((scanSteps total left index progress).map (.scanningCode, ·) ++
        [(.analyzingDependencies, 50), (.generatingRecommendations, 75), (.completed, 100)])
      ).IsChain LegalMove := by
  induction left generalizing index reported progress with
  | zero =>
    have hle : reported ≤ 50 := UInt8.le_trans (UInt8.le_trans hreported hprogress) (by decide)
    simp [scanSteps, LegalMove, JobStatus.canBecome, JobStatus.isTerminal, JobStatus.place?, hle]
  | succ left ih =>
    rw [scanSteps]
    split
    · next hnext =>
      have hmove : LegalMove (.scanningCode, reported)
          (.scanningCode, progressAfter (index + 1) total) :=
        ⟨rfl, UInt8.le_trans hreported (UInt8.le_of_lt hnext)⟩
      exact .cons_cons hmove (ih (index + 1) (UInt8.le_refl _) (progressAfter_bounds _ _).2)
    · exact ih (index + 1) hreported hprogress

theorem isChain_planReports (total : Nat) :
    ((.pending, 0) :: planReports total).IsChain LegalMove := by
  obtain ⟨hlow, hhigh⟩ := progressAfter_bounds 0 total
  have hscan := isChain_scanReports total total 0 hlow hhigh
  exact .cons_cons (by decide) (.cons_cons (by decide) hscan)

theorem scanSteps_le {total left index : Nat} {progress value : UInt8}
    (h : value ∈ scanSteps total left index progress) : value ≤ 49 := by
  induction left generalizing index progress with
  | zero => simp [scanSteps] at h
  | succ left ih =>
    rw [scanSteps] at h
    split at h
    · rcases List.mem_cons.mp h with rfl | hrest
      · exact (progressAfter_bounds _ _).2
      · exact ih hrest
    · exact ih h

theorem planReports_bounds {total : Nat} {report : JobStatus × UInt8}
    (h : report ∈ planReports total) :
    (report.1 = .completed → report.2 = 100) ∧ (report.1 ≠ .completed → report.2 ≤ 75) := by
  simp only [planReports, List.mem_append, List.mem_cons, List.mem_map, List.not_mem_nil,
    or_false] at h
  rcases h with ((rfl | rfl) | ⟨value, hvalue, rfl⟩) | rfl | rfl | rfl
  · decide
  · decide
  · exact ⟨by simp, fun _ => UInt8.le_trans (scanSteps_le hvalue) (by decide)⟩
  · decide
  · decide
  · decide

variable {id id' : JobId} {clock : MarkClock} {files : List SourceFile}
  {outcomes : List FileOutcome} {done rest : List Update} {u : Update} {created : Timestamp}
  {metadata : ProjectMetadata} {e : Entry}

/-- Wherever a plan is cut, something is still to be reported, and it is a legal move from what was
reported last. -/
theorem exists_move_of_plan (hplan : plan id clock outcomes = done ++ u :: rest) :
    ∃ next, ((u :: rest).filterMap Update.report?).head? = some next ∧
      LegalMove (lastReport done) next := by
  have hchain := isChain_planReports outcomes.length
  rw [← plan_reports id clock, hplan, List.filterMap_append, ← List.cons_append,
    List.isChain_append] at hchain
  have hlast : (u :: rest).getLast? = some (entry .completed) := by
    have hend : (plan id clock outcomes).getLast? = some (entry .completed) := List.getLast?_concat
    rwa [hplan, List.getLast?_append_of_ne_nil _ (List.cons_ne_nil u rest)] at hend
  have hmem : (.completed, 100) ∈ (u :: rest).filterMap Update.report? :=
    List.mem_filterMap.mpr ⟨_, List.mem_of_getLast? hlast, rfl⟩
  have hnext := List.head?_eq_some_head (List.ne_nil_of_mem hmem)
  exact ⟨_, hnext, hchain.2.2 _ List.getLast?_cons _ hnext⟩

theorem lastReport_le (hplan : plan id clock outcomes = done ++ u :: rest) :
    (lastReport done).2 ≤ 75 := by
  obtain ⟨next, _, hmove⟩ := exists_move_of_plan hplan
  have hne := JobStatus.ne_completed_of_canBecome hmove.1
  rcases hlast : (done.filterMap Update.report?).getLast? with _ | last
  · rw [lastReport, hlast]
    decide
  · rw [lastReport, hlast, Option.getD_some] at hne ⊢
    have hreport : last ∈ planReports outcomes.length := by
      rw [← plan_reports id clock, hplan, List.filterMap_append]
      exact List.mem_append_left _ (List.mem_of_getLast? hlast)
    exact (planReports_bounds hreport).2 hne

/-- An entry that has made the first steps of a plan stands at its last report and has not
ended. -/
theorem stands_of_steps (hplan : plan id clock outcomes = done ++ u :: rest)
    (hs : (Entry.new id' created metadata files).Steps done e) :
    lastReport done = (e.job.status, e.job.progress) ∧ e.job.status.isTerminal = false ∧
      e.job.completedAt = none ∧ e.job.errorMessage = none := by
  have hus : ∀ v ∈ done, v.isFailure = false := fun v hv =>
    isFailure_of_mem_plan (hplan ▸ List.mem_append_left _ hv)
  have he : e.Consistent := hs.keep Entry.Consistent.step (Entry.consistent_new ..)
  have hstands := hs.lastReport_eq hus
  obtain ⟨next, _, hmove⟩ := exists_move_of_plan hplan
  rw [hstands] at hmove
  refine ⟨hstands, JobStatus.isTerminal_of_canBecome hmove.1, ?_, hs.errorMessage_eq hus⟩
  rw [← Option.not_isSome_iff_eq_none, he.completedAt_iff]
  exact JobStatus.ne_completed_of_canBecome hmove.1

theorem awaits_of_plan {i : Nat} {filename : String} {time : Timestamp}
    (h : OutcomesOf files outcomes)
    (hplan : plan id clock outcomes = done ++ .processed i filename time :: rest)
    (hs : (Entry.new id' created metadata files).Steps done e) :
    Entry.awaits e.job.files i filename = true := by
  have hmem : .processed i filename time ∈ plan id clock outcomes := by
    rw [hplan]
    exact List.mem_append_right _ List.mem_cons_self
  obtain ⟨analysis, houtcome, rfl⟩ := analyzed_of_mem_plan hmem
  obtain ⟨file, hfile, hname⟩ := h.getElem?_file houtcome
  have hunmarked : i ∉ (done.filterMap Update.mark?).map Prod.fst := by
    have hmark : Update.mark? (.processed i analysis.filename time) = some (i, time) := rfl
    have hnodup := nodup_fileMarks clock 0 outcomes
    rw [← plan_marks id, hplan, List.filterMap_append, List.map_append,
      List.filterMap_cons_some hmark, List.map_cons] at hnodup
    intro hmem
    exact List.disjoint_of_nodup_append hnodup hmem List.mem_cons_self
  have hfiles : e.job.files[i]? = some (.ofSource file) := by
    rw [hs.files_eq, getElem?_applyMarks_of_notMem hunmarked]
    simp [Entry.new, Job.new, hfile]
  simp [Entry.awaits, hfiles, JobFile.ofSource, hname]

/-- An entry that has made the first steps of a plan can make the next one, at any time. -/
theorem exists_step_of_plan (h : OutcomesOf files outcomes)
    (hplan : plan id clock outcomes = done ++ u :: rest)
    (hs : (Entry.new id' created metadata files).Steps done e) (now : Timestamp) :
    ∃ e', e.Step now u e' := by
  have hu : u ∈ plan id clock outcomes := hplan ▸ List.mem_append_right _ List.mem_cons_self
  have he : e.Consistent := hs.keep Entry.Consistent.step (Entry.consistent_new ..)
  obtain ⟨hstands, hopen, _⟩ := stands_of_steps hplan hs
  obtain ⟨next, hnext, hmove⟩ := exists_move_of_plan hplan
  rw [hstands] at hmove
  cases u with
  | status status progress =>
    have hfirst : Update.report? (.status status progress) = some (status, progress) := rfl
    rw [List.filterMap_cons_some hfirst, List.head?_cons, Option.some.injEq] at hnext
    subst hnext
    -- only reports can be refused for their progress, and those of a plan rise to 100
    have hreport : (status, progress) ∈ planReports outcomes.length := by
      rw [← plan_reports id clock]
      exact List.mem_filterMap.mpr ⟨_, hu, rfl⟩
    obtain ⟨hcomplete, hbefore⟩ := planReports_bounds hreport
    have hbounded : progress ≤ 100 := by
      by_cases hcompleted : status = .completed
      · have hend : progress = 100 := hcomplete hcompleted
        rw [hend]
        decide
      · exact UInt8.le_trans (hbefore hcompleted) (by decide)
    have hstatus : status ≠ .failed := by
      rintro rfl
      simpa [Update.isFailure] using isFailure_of_mem_plan hu
    rw [he.status_eq, he.progress_eq] at hmove
    exact ⟨_, .advanced hstatus ⟨hmove.1, hmove.2, hbounded, hcomplete⟩⟩
  | finding finding => exact ⟨_, .finding hopen⟩
  | recommendation recommendation => exact ⟨_, .recommendation hopen⟩
  | dependency dependency => exact ⟨_, .dependency hopen⟩
  | processed i filename time => exact ⟨_, .processed hopen (awaits_of_plan h hplan hs)⟩
  | failed message => exact absurd (isFailure_of_mem_plan hu) (by simp [Update.isFailure])

end LegacyAudit
