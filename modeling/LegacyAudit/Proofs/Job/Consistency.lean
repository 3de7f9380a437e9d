import LegacyAudit.Proofs.Job.Step
import Mathlib.Data.List.Chain
import Mathlib.Data.List.Destutter

/-!
# Entries agree with themselves

The status of a job is kept in the job, in its machine and in its history. Whatever is asked of a
store, the three agree, and the history tells a legal life.

## Main definitions

- `LegalMove` - two neighbours in a history
- `phases` - the statuses of a history without repetitions
- `Entry.Consistent` - the invariant of all entries
-/

namespace LegacyAudit

/-- Two neighbours in a history: a legal step, with progress that does not fall. -/
def LegalMove (before after : JobStatus × UInt8) : Prop :=
  before.1.canBecome after.1 = true ∧ before.2 ≤ after.2

instance : DecidableRel LegalMove := fun _ _ => inferInstanceAs (Decidable (_ ∧ _))

namespace JobStatus

/-- The phases of a job that completes, from a status on. -/
def road : JobStatus → List JobStatus
  | pending =>
    [pending, processing, scanningCode, analyzingDependencies, generatingRecommendations, completed]
  | processing =>
    [processing, scanningCode, analyzingDependencies, generatingRecommendations, completed]
  | scanningCode => [scanningCode, analyzingDependencies, generatingRecommendations, completed]
  | analyzingDependencies => [analyzingDependencies, generatingRecommendations, completed]
  | generatingRecommendations => [generatingRecommendations, completed]
  | completed => [completed]
  | failed => []

theorem isTerminal_of_canBecome {a b : JobStatus} (h : a.canBecome b = true) :
    a.isTerminal = false := by
  cases hterminal : a.isTerminal with
  | false => rfl
  | true => simp [canBecome, hterminal] at h

theorem ne_completed_of_canBecome {a b : JobStatus} (h : a.canBecome b = true) :
    a ≠ .completed := by
  rintro rfl
  simpa [isTerminal] using isTerminal_of_canBecome h

theorem canBecome_failed {a : JobStatus} (h : a.isTerminal = false) :
    a.canBecome .failed = true := by
  rw [canBecome, h]
  cases a <;> rfl

theorem road_of_canBecome {a b : JobStatus} (h : a.canBecome b = true) :
    a = b ∨ b = .failed ∨ (a ≠ b ∧ a.road = a :: b.road) := by
  cases a <;> cases b <;> simp_all [canBecome, isTerminal, place?, road]

end JobStatus

/-- The statuses of a history in order, each of them once while it lasts. -/
def phases (history : List (JobStatus × UInt8)) : List JobStatus :=
  (history.map Prod.fst).destutter (· ≠ ·)

theorem isTerminal_of_mem_dropLast {history : List (JobStatus × UInt8)}
    (h : history.IsChain LegalMove) :
    ∀ report ∈ history.dropLast, report.1.isTerminal = false := by
  induction h with
  | nil => simp
  | singleton => simp
  | @cons_cons a b l hab _ ih =>
    intro report hreport
    rw [List.dropLast_cons_cons, List.mem_cons] at hreport
    rcases hreport with rfl | hreport
    · exact JobStatus.isTerminal_of_canBecome hab.1
    · exact ih report hreport

/-- A legal history that ends in completion has gone the whole way from where it starts. -/
theorem phases_eq_road {first : JobStatus × UInt8} {rest : List (JobStatus × UInt8)}
    {progress : UInt8} (h : (first :: rest).IsChain LegalMove)
    (hlast : (first :: rest).getLast? = some (.completed, progress)) :
    phases (first :: rest) = first.1.road := by
  simp only [phases, List.map_cons, List.destutter_cons']
  induction rest generalizing first with
  | nil =>
    simp only [List.getLast?_singleton, Option.some.injEq] at hlast
    subst hlast
    rfl
  | cons second rest ih =>
    rw [List.isChain_cons_cons] at h
    rw [List.getLast?_cons_cons] at hlast
    have hrest := ih h.2 hlast
    rcases JobStatus.road_of_canBecome h.1.1 with heq | hfailed | ⟨hne, hroad⟩
    · rw [List.map_cons, List.destutter'_cons_neg _ (by simpa using heq), heq]
      exact hrest
    · -- nothing follows a failure, and the history does not end with one
      cases rest with
      | nil => simp_all
      | cons third rest =>
        rw [List.isChain_cons_cons] at h
        have := JobStatus.isTerminal_of_canBecome h.2.1.1
        simp [hfailed, JobStatus.isTerminal] at this
    · rw [List.map_cons, List.destutter'_cons_pos _ hne, hroad, hrest]

structure Entry.Consistent (e : Entry) : Prop where
  status_eq : e.job.status = e.machine.status
  progress_eq : e.job.progress = e.machine.progress
  progress_le : e.job.progress ≤ 100
  progress_of_completed : e.job.status = .completed → e.job.progress = 100
  completedAt_iff : e.job.completedAt.isSome ↔ e.job.status = .completed
  history_head : e.history.head? = some (.pending, 0)
  history_last : e.history.getLast? = some (e.job.status, e.job.progress)
  history_moves : e.history.IsChain LegalMove
  terminal_last : ∀ report ∈ e.history.dropLast, report.1.isTerminal = false
  completed_phases : e.job.status = .completed →
    phases e.history = [.pending, .processing, .scanningCode, .analyzingDependencies,
      .generatingRecommendations, .completed]
  processedAt_iff : ∀ file ∈ e.job.files, file.status = .processed ↔ file.processedAt.isSome

namespace Entry

variable {now : Timestamp} {u : Update} {e e' : Entry}

theorem consistent_new (id : JobId) (now : Timestamp) (metadata : ProjectMetadata)
    (files : List SourceFile) : (Entry.new id now metadata files).Consistent where
  status_eq := rfl
  progress_eq := rfl
  progress_le := by simp [Entry.new, Job.new]
  progress_of_completed := by simp [Entry.new, Job.new]
  completedAt_iff := by simp [Entry.new, Job.new]
  history_head := rfl
  history_last := rfl
  history_moves := List.isChain_singleton _
  terminal_last := by simp [Entry.new]
  completed_phases := by simp [Entry.new, Job.new]
  processedAt_iff := by
    intro file hfile
    obtain ⟨source, _, rfl⟩ := List.mem_map.mp hfile
    simp [JobFile.ofSource]

/-- The history of a consistent entry is extended by a legal move from where the job stands. -/
theorem Consistent.isChain_append (he : e.Consistent) {report : JobStatus × UInt8}
    (hmove : LegalMove (e.job.status, e.job.progress) report) :
    (e.history ++ [report]).IsChain LegalMove := by
  refine he.history_moves.append (List.isChain_singleton _) ?_
  intro before hbefore after hafter
  rw [he.history_last, Option.mem_some_iff] at hbefore
  rw [List.head?_singleton, Option.mem_some_iff] at hafter
  exact hbefore ▸ hafter ▸ hmove

theorem Consistent.head_append (he : e.Consistent) (reports : List (JobStatus × UInt8)) :
    (e.history ++ reports).head? = some (.pending, 0) := by
  rw [List.head?_append, he.history_head]
  rfl

/-- A history that starts at the beginning and ends in completion shows all phases. -/
theorem phases_of_completed {history : List (JobStatus × UInt8)} {progress : UInt8}
    (hhead : history.head? = some (.pending, 0)) (hmoves : history.IsChain LegalMove)
    (hlast : history.getLast? = some (.completed, progress)) :
    phases history = [.pending, .processing, .scanningCode, .analyzingDependencies,
      .generatingRecommendations, .completed] := by
  cases history with
  | nil => simp at hhead
  | cons first rest =>
    rw [List.head?_cons, Option.some.injEq] at hhead
    subst hhead
    exact phases_eq_road hmoves hlast

/-- A consistent entry stays consistent when the job is moved on or fails: the move has to be legal,
and whatever else changes has to fit the new status. -/
theorem Consistent.move (he : e.Consistent) {status : JobStatus} {progress : UInt8} {job : Job}
    (hmove : LegalMove (e.job.status, e.job.progress) (status, progress))
    (hle : progress ≤ 100) (hcompleted : status = .completed → progress = 100)
    (hstatus : job.status = status) (hprogress : job.progress = progress)
    (hcompletedAt : job.completedAt.isSome ↔ status = .completed)
    (hfiles : job.files = e.job.files) :
    Consistent ⟨job, ⟨status, progress⟩, e.history ++ [(status, progress)]⟩ where
  status_eq := hstatus
  progress_eq := hprogress
  progress_le := hprogress ▸ hle
  progress_of_completed := fun h => hprogress.trans (hcompleted (hstatus.symm.trans h))
  completedAt_iff := by rw [hcompletedAt, hstatus]
  history_head := he.head_append _
  history_last := by rw [List.getLast?_concat, hstatus, hprogress]
  history_moves := he.isChain_append hmove
  terminal_last := isTerminal_of_mem_dropLast (he.isChain_append hmove)
  completed_phases := by
    intro h
    have hend : status = .completed := hstatus.symm.trans h
    have hlast : (e.history ++ [(status, progress)]).getLast? = some (.completed, progress) := by
      rw [List.getLast?_concat, hend]
    exact phases_of_completed (he.head_append _) (he.isChain_append hmove) hlast
  processedAt_iff := hfiles ▸ he.processedAt_iff

/-- A consistent entry stays consistent when the job fails where it stands. -/
theorem Consistent.fail (he : e.Consistent) {job : Job}
    (hopen : e.job.status.isTerminal = false) (hstatus : job.status = .failed)
    (hprogress : job.progress = e.job.progress) (hcompletedAt : job.completedAt = e.job.completedAt)
    (hfiles : job.files = e.job.files) :
    Consistent ⟨job, { e.machine with status := .failed },
      e.history ++ [(.failed, e.job.progress)]⟩ := by
  have hmove : LegalMove (e.job.status, e.job.progress) (.failed, e.job.progress) :=
    ⟨JobStatus.canBecome_failed hopen, UInt8.le_refl _⟩
  have hmachine : ({ e.machine with status := .failed } : Machine) =
      ⟨.failed, e.job.progress⟩ := by rw [he.progress_eq]
  rw [hmachine]
  refine he.move hmove he.progress_le (by simp) hstatus hprogress ?_ hfiles
  have hne := JobStatus.ne_completed_of_canBecome hmove.1
  simp [hcompletedAt, he.completedAt_iff, hne]

/-- A consistent entry stays consistent when the job keeps its place and only collects results. -/
theorem Consistent.keep (he : e.Consistent) {job : Job} (hstatus : job.status = e.job.status)
    (hprogress : job.progress = e.job.progress) (hcompletedAt : job.completedAt = e.job.completedAt)
    (hfiles : ∀ file ∈ job.files, file.status = .processed ↔ file.processedAt.isSome) :
    Consistent { e with job } where
  status_eq := hstatus.trans he.status_eq
  progress_eq := hprogress.trans he.progress_eq
  progress_le := hprogress ▸ he.progress_le
  progress_of_completed := by simpa only [hstatus, hprogress] using he.progress_of_completed
  completedAt_iff := by simpa only [hstatus, hcompletedAt] using he.completedAt_iff
  history_head := he.history_head
  history_last := by simpa only [hstatus, hprogress] using he.history_last
  history_moves := he.history_moves
  terminal_last := he.terminal_last
  completed_phases := by simpa only [hstatus] using he.completed_phases
  processedAt_iff := hfiles

theorem processedAt_iff_markAt {files : List JobFile} (index : Nat) (time : Timestamp)
    (h : ∀ file ∈ files, file.status = .processed ↔ file.processedAt.isSome) :
    ∀ file ∈ markAt files index time, file.status = .processed ↔ file.processedAt.isSome := by
  intro file hfile
  obtain ⟨i, hi⟩ := List.mem_iff_getElem?.mp hfile
  rw [getElem?_markAt, Option.map_eq_some_iff] at hi
  obtain ⟨old, hold, rfl⟩ := hi
  by_cases hindex : index = i
  · simp [hindex, JobFile.marked]
  · simpa [hindex] using h old (List.mem_of_getElem? hold)

theorem Consistent.step (he : e.Consistent) (h : e.Step now u e') : e'.Consistent := by
  cases h with
  | @advanced status progress hstatus hallowed =>
    have hmove : LegalMove (e.job.status, e.job.progress) (status, progress) := by
      rw [he.status_eq, he.progress_eq]
      exact ⟨hallowed.canBecome, hallowed.monotone⟩
    refine he.move hmove hallowed.bounded hallowed.complete rfl rfl ?_ rfl
    by_cases hcompleted : status = .completed
    · simp [hcompleted]
    · have hopen := JobStatus.ne_completed_of_canBecome hmove.1
      simp [hcompleted, he.completedAt_iff, hopen]
  | abandoned hopen =>
    rw [← he.progress_eq]
    exact he.fail (he.status_eq ▸ hopen) rfl rfl rfl rfl
  | finding => exact he.keep rfl rfl rfl he.processedAt_iff
  | recommendation => exact he.keep rfl rfl rfl he.processedAt_iff
  | dependency => exact he.keep rfl rfl rfl he.processedAt_iff
  | processed => exact he.keep rfl rfl rfl (processedAt_iff_markAt _ _ he.processedAt_iff)
  | failed hopen => exact he.fail (he.status_eq ▸ hopen) rfl rfl rfl rfl

end Entry

/-- Every entry of a store agrees with itself and tells a legal life, whatever was asked of the
store so far. -/
theorem Store.Reachable.entry_consistent {store : Store} {id : JobId} {e : Entry}
    (h : store.Reachable) (he : store.find? id = some e) : e.Consistent :=
  h.forall_entry Entry.consistent_new Entry.Consistent.step he

/-- A job with a marked file that was moved to failure after a refused call. -/
theorem entry_consistent_abandoned :
    ∃ (store : Store) (e : Entry), store.Reachable ∧ store.find? ⟨7⟩ = some e ∧
      e.history = [(.pending, 0), (.processing, 10), (.failed, 10)] ∧ e.Consistent := by
  let created := (({} : Store).perform default (.create ⟨7⟩ ⟨"demo", none, none, .standard⟩
    [⟨"notes", []⟩])).2
  let started := (created.perform default (.update ⟨7⟩ (.status .processing 10))).2
  let marked := (started.perform default (.update ⟨7⟩ (.processed 0 "notes" default))).2
  let refused := (marked.perform default (.update ⟨7⟩ (.status .completed 100))).2
  let abandoned := (refused.perform default (.update ⟨7⟩ (.status .failed 0))).2
  have hreachable : abandoned.Reachable :=
    .perform _ _ (.perform _ _ (.perform _ _ (.perform _ _ (.perform _ _ .empty))))
  have hhistory : abandoned.history ⟨7⟩ = [(.pending, 0), (.processing, 10), (.failed, 10)] := rfl
  obtain ⟨e, he⟩ : ∃ e, abandoned.find? ⟨7⟩ = some e := Option.isSome_iff_exists.mp rfl
  rw [Store.history, he] at hhistory
  exact ⟨abandoned, e, hreachable, he, hhistory, hreachable.entry_consistent he⟩

end LegacyAudit
