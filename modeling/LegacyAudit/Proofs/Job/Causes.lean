import LegacyAudit.Proofs.Job.Consistency

/-!
# Why calls are refused

A refused call has one cause, which its error names. It leaves no trace: neither in the job with its
times and results, nor in its machine or history, nor anywhere else in the store.

## Main definitions

- `Entry.Refuses`, `Store.Refuses` - the causes of refusals, with the errors that name them
- `Store.perform_error_iff` - a call is refused for one of these causes and without a trace

## Design notes

A job is closed by the status in its record when results are added, and by that of its machine when
it is moved on. The two agree in every store that calls lead to, but nothing here depends on that.
-/

namespace LegacyAudit

open LegacyAudit.Text

/-- Whether an update brings a result or marks a file. -/
def Update.isResult : Update → Bool
  | .finding _ | .recommendation _ | .dependency _ | .processed .. => true
  | .status .. | .failed _ => false

namespace Entry

/-- The causes for which an entry refuses an update. -/
inductive Refuses (e : Entry) : Update → StorageError → Prop
  /-- The job cannot go to this status, which may be failure, from where it stands. -/
  | illegalMove {status : JobStatus} {progress : UInt8}
      (hmove : e.machine.status.canBecome status = false) :
      Refuses e (.status status progress) (.invalidTransition e.machine.status status)
  /-- The progress falls, or it exceeds 100. -/
  | outOfRange {status : JobStatus} {progress : UInt8} (hstatus : status ≠ .failed)
      (hmove : e.machine.status.canBecome status = true)
      (hrange : progress < e.machine.progress ∨ 100 < progress) :
      Refuses e (.status status progress) (.progressRegression e.machine.progress progress)
  | incomplete {progress : UInt8} (hmove : e.machine.status.canBecome .completed = true)
      (hmonotone : e.machine.progress ≤ progress) (hbounded : progress ≤ 100)
      (hne : progress ≠ 100) :
      Refuses e (.status .completed progress) (.rejected
        ("completed job must report progress 100, got " ++ decimal progress.toNat))
  /-- A job that has ended cannot fail. -/
  | ended {message : String} (hclosed : e.machine.status.isTerminal = true) :
      Refuses e (.failed message) (.invalidTransition e.machine.status .failed)
  /-- A job that has ended takes no results. -/
  | closed {u : Update} (hresult : u.isResult = true)
      (hclosed : e.job.status.isTerminal = true) :
      Refuses e u (.rejected
        ("job " ++ e.job.id.text ++ " is already " ++ e.job.status.name))
  /-- There is no such file at this place, or it has been dealt with. -/
  | unmatched {index : Nat} {filename : String} {time : Timestamp}
      (hopen : e.job.status.isTerminal = false)
      (hawaits : awaits e.job.files index filename = false) :
      Refuses e (.processed index filename time) (.rejected
        ("no pending file " ++ filename ++ " at #" ++ decimal index ++ " in job " ++
          e.job.id.text))

variable {now : Timestamp} {u : Update} {e e' : Entry} {err err' : StorageError}

theorem Refuses.not_step (h : e.Refuses u err) (hstep : e.Step now u e') : False := by
  cases h with
  | illegalMove hmove =>
    cases hstep with
    | advanced _ hallowed => simp [hallowed.canBecome] at hmove
    | abandoned hopen => simp [JobStatus.canBecome_failed hopen] at hmove
  | outOfRange hstatus _ hrange =>
    cases hstep with
    | advanced _ hallowed =>
      rcases hrange with hfall | hexceed
      · exact UInt8.not_le.mpr hfall hallowed.monotone
      · exact UInt8.not_le.mpr hexceed hallowed.bounded
    | abandoned => exact hstatus rfl
  | incomplete _ _ _ hne =>
    cases hstep with
    | advanced _ hallowed => exact hne (hallowed.complete rfl)
  | ended hclosed =>
    cases hstep with
    | failed hopen => simp [hopen] at hclosed
  | closed hresult hclosed => cases hstep <;> simp_all [Update.isResult]
  | unmatched _ hawaits =>
    cases hstep with
    | processed _ hawaits' => simp [hawaits'] at hawaits

theorem Refuses.unique (h : e.Refuses u err) (h' : e.Refuses u err') : err = err' := by
  cases h with
  | illegalMove hmove =>
    cases h' with
    | illegalMove => rfl
    | outOfRange _ hmove' => simp [hmove'] at hmove
    | incomplete hmove' => simp [hmove'] at hmove
    | closed hresult => simp [Update.isResult] at hresult
  | outOfRange hstatus hmove hrange =>
    cases h' with
    | illegalMove hmove' => simp [hmove'] at hmove
    | outOfRange => rfl
    | incomplete _ hmonotone hbounded =>
      rcases hrange with hfall | hexceed
      · exact absurd hmonotone (UInt8.not_le.mpr hfall)
      · exact absurd hbounded (UInt8.not_le.mpr hexceed)
    | closed hresult => simp [Update.isResult] at hresult
  | incomplete hmove hmonotone hbounded =>
    cases h' with
    | illegalMove hmove' => simp [hmove'] at hmove
    | outOfRange _ _ hrange =>
      rcases hrange with hfall | hexceed
      · exact absurd hmonotone (UInt8.not_le.mpr hfall)
      · exact absurd hbounded (UInt8.not_le.mpr hexceed)
    | incomplete => rfl
    | closed hresult => simp [Update.isResult] at hresult
  | ended =>
    cases h' with
    | ended => rfl
    | closed hresult => simp [Update.isResult] at hresult
  | closed hresult hclosed =>
    cases h' with
    | closed => rfl
    | unmatched hopen => simp [hopen] at hclosed
    | _ => simp [Update.isResult] at hresult
  | unmatched hopen =>
    cases h' with
    | closed _ hclosed => simp [hopen] at hclosed
    | unmatched => rfl

theorem refuses_of_advance {status : JobStatus} {progress : UInt8}
    (h : e.machine.advance status progress = .error err) :
    e.Refuses (.status status progress) err := by
  -- moving to failure is checked as failing
  by_cases hfailed : status = .failed
  · subst hfailed
    have hfail : e.machine.fail = .error err := h
    rw [Machine.fail] at hfail
    split at hfail
    · next hclosed =>
      rw [Except.error.injEq] at hfail
      subst hfail
      exact .illegalMove (by rw [JobStatus.canBecome, if_pos hclosed])
    · simp at hfail
  · rw [Machine.advance, if_neg hfailed] at h
    split at h
    · next hmove =>
      rw [Except.error.injEq] at h
      subst h
      exact .illegalMove (by simpa using hmove)
    · next hmove =>
      have hcan : e.machine.status.canBecome status = true := by simpa using hmove
      split at h
      · next hrange =>
        rw [Except.error.injEq] at h
        subst h
        exact .outOfRange hfailed hcan (by simpa using hrange)
      · next hrange =>
        simp only [Bool.or_eq_true, decide_eq_true_eq, not_or, UInt8.not_lt] at hrange
        split at h
        · next hcomplete =>
          simp only [Bool.and_eq_true, decide_eq_true_eq] at hcomplete
          obtain ⟨rfl, hne⟩ := hcomplete
          rw [Except.error.injEq] at h
          subst h
          exact .incomplete hcan hrange.1 hrange.2 hne
        · simp at h

/-- A change that asks for an open job and nothing else is refused because the job has ended. -/
theorem refuses_of_ensureOpen {f : Entry → Entry} (hresult : u.isResult = true)
    (h : (do ensureOpen; modify f : Change Unit).run e = (.error err, e')) : e.Refuses u err := by
  cases hclosed : e.job.status.isTerminal with
  | false =>
    rw [run_bind_ok (ensureOpen_run_ok hclosed)] at h
    cases h
  | true =>
    rw [run_bind_error (ensureOpen_run_error hclosed)] at h
    cases h
    exact .closed hresult hclosed

theorem refuses_of_markProcessed {index : Nat} {filename : String} {time : Timestamp}
    (h : (markProcessed index filename time).run e = (.error err, e')) :
    e.Refuses (.processed index filename time) err := by
  cases hclosed : e.job.status.isTerminal with
  | true =>
    rw [markProcessed, run_bind_error (ensureOpen_run_error hclosed)] at h
    cases h
    exact .closed rfl hclosed
  | false =>
    rw [markProcessed_run_open hclosed] at h
    split at h
    · cases h
    · next hawaits =>
      cases h
      exact .unmatched hclosed (by simpa using hawaits)

theorem refuses_of_change (h : (change now u).run e = (.error err, e')) : e.Refuses u err := by
  cases u with
  | status status progress =>
    cases hm : e.machine.advance status progress with
    | error err₁ =>
      have hrun : (updateStatus now status progress).run e = (.error err₁, e) :=
        (run_bind_ok rfl).trans (run_bind_error (run_liftM_error hm e))
      cases hrun.symm.trans h
      exact refuses_of_advance hm
    | ok m => cases (updateStatus_run_ok hm).symm.trans h
  | finding finding => exact refuses_of_ensureOpen rfl h
  | recommendation recommendation => exact refuses_of_ensureOpen rfl h
  | dependency dependency => exact refuses_of_ensureOpen rfl h
  | processed index filename time => exact refuses_of_markProcessed h
  | failed message =>
    rcases e.machine.fail_eq with ⟨_, hm⟩ | ⟨hclosed, err₁, hm⟩
    · have hrun : (fail message).run e = (.ok (), _) :=
        (run_bind_ok rfl).trans (run_bind_ok (run_liftM_ok hm e))
      cases hrun.symm.trans h
    · have hrun : (fail message).run e = (.error err₁, e) :=
        (run_bind_ok rfl).trans (run_bind_error (run_liftM_error hm e))
      rw [Machine.fail, if_pos hclosed, Except.error.injEq] at hm
      subst hm
      cases hrun.symm.trans h
      exact .ended hclosed

end Entry

namespace Store

/-- The causes for which a store refuses a call. Creations are never refused. -/
inductive Refuses (store : Store) : Call → StorageError → Prop
  | unknown {id : JobId} {u : Update} (hunknown : store.find? id = none) :
      Refuses store (.update id u) (.jobNotFound id)
  | refused {id : JobId} {u : Update} {e : Entry} {err : StorageError}
      (he : store.find? id = some e) (hrefuses : e.Refuses u err) :
      Refuses store (.update id u) err

variable {store : Store} {id : JobId} {u : Update} {e : Entry}

/-- The store carries an update of a job out by a step, or it has a cause to refuse it and stays as
it is. -/
theorem perform_update_cases (he : store.find? id = some e) (now : Timestamp) (u : Update) :
    (∃ e', e.Step now u e' ∧ store.perform now (.update id u) = (.ok (), store.put id e')) ∨
      ∃ err, e.Refuses u err ∧ store.perform now (.update id u) = (.error err, store) := by
  rcases perform_update he now u with hdone | ⟨⟨err, hperform⟩, _⟩
  · exact .inl hdone
  · refine .inr ⟨err, ?_, hperform⟩
    rcases hrun : (Entry.change now u).run e with ⟨_ | _, e'⟩
    · simp only [perform, he, changeEntry, hrun, Prod.mk.injEq, Except.error.injEq] at hperform
      exact hperform.1 ▸ Entry.refuses_of_change hrun
    · simp [perform, he, changeEntry, hrun] at hperform

/-- A call is refused exactly if there is a cause for it, with the error that names the cause, and
the store after it is the store before it. -/
theorem perform_error_iff (store : Store) (now : Timestamp) (call : Call) (err : StorageError)
    (after : Store) :
    store.perform now call = (.error err, after) ↔ store.Refuses call err ∧ after = store := by
  constructor
  · intro h
    cases call with
    | create id metadata files => simp [perform] at h
    | update id u =>
      cases he : store.find? id with
      | none =>
        simp only [perform, he, Prod.mk.injEq, Except.error.injEq] at h
        obtain ⟨rfl, rfl⟩ := h
        exact ⟨.unknown he, rfl⟩
      | some e =>
        rcases perform_update_cases he now u with ⟨e', _, hperform⟩ | ⟨err', hrefuses, hperform⟩
        · simp [hperform] at h
        · rw [hperform, Prod.mk.injEq, Except.error.injEq] at h
          obtain ⟨rfl, rfl⟩ := h
          exact ⟨.refused he hrefuses, rfl⟩
  · rintro ⟨hrefuses, rfl⟩
    cases hrefuses with
    | unknown hunknown => simp [perform, hunknown]
    | refused he hrefuses =>
      rcases perform_update_cases he now _ with ⟨e', hstep, _⟩ | ⟨err', hrefuses', hperform⟩
      · exact (hrefuses.not_step hstep).elim
      · rw [hperform, hrefuses.unique hrefuses']

end Store

end LegacyAudit
