import LegacyAudit.Job.Store

/-!
# Steps of an entry

What an update does to the entry of a job, said once as a relation. The store carries out an update
exactly if the entry has a step for it, and is left as it was otherwise.

## Main definitions

- `Machine.Allows` - the moves of a state machine
- `Entry.Step` - the accepted updates, with the entries that they lead to
- `Store.perform_update` - the store follows the steps
- `Store.Reachable` - the stores that calls lead to
-/

namespace LegacyAudit

/-- A machine lets a job move on to a status at a progress. -/
structure Machine.Allows (m : Machine) (next : JobStatus) (progress : UInt8) : Prop where
  canBecome : m.status.canBecome next = true
  monotone : m.progress ≤ progress
  bounded : progress ≤ 100
  complete : next = .completed → progress = 100

/-- A machine advances to every status but failure exactly by its allowed moves. -/
theorem Machine.advance_eq (m : Machine) {next : JobStatus} (progress : UInt8)
    (hnext : next ≠ .failed) :
    (m.Allows next progress ∧ m.advance next progress = .ok ⟨next, progress⟩) ∨
      (¬ m.Allows next progress ∧ ∃ e, m.advance next progress = .error e) := by
  simp only [Machine.advance, if_neg hnext]
  split
  · next hcan =>
    refine .inr ⟨fun h => ?_, _, rfl⟩
    simp [h.canBecome] at hcan
  · next hcan =>
    split
    · next hprogress =>
      refine .inr ⟨fun h => ?_, _, rfl⟩
      simp [UInt8.not_lt.mpr h.monotone, UInt8.not_lt.mpr h.bounded] at hprogress
    · next hprogress =>
      simp only [Bool.or_eq_true, decide_eq_true_eq, not_or, UInt8.not_lt] at hprogress
      split
      · next hcomplete =>
        refine .inr ⟨fun h => ?_, _, rfl⟩
        simp only [Bool.and_eq_true, decide_eq_true_eq] at hcomplete
        exact hcomplete.2 (h.complete hcomplete.1)
      · next hcomplete =>
        refine .inl ⟨⟨by simpa using hcan, hprogress.1, hprogress.2, fun h => ?_⟩, rfl⟩
        simpa [h] using hcomplete

theorem Machine.fail_eq (m : Machine) :
    (m.status.isTerminal = false ∧ m.fail = .ok { m with status := .failed }) ∨
      (m.status.isTerminal = true ∧ ∃ e, m.fail = .error e) := by
  unfold Machine.fail
  cases m.status.isTerminal
  · exact .inl ⟨rfl, rfl⟩
  · exact .inr ⟨rfl, _, rfl⟩

namespace Entry

/-- An accepted update leads from an entry to another one. -/
inductive Step (now : Timestamp) (e : Entry) : Update → Entry → Prop
  | advanced {status : JobStatus} {progress : UInt8} (hstatus : status ≠ .failed)
      (hallowed : e.machine.Allows status progress) :
      Step now e (.status status progress)
        { job := { e.job with
            status, progress
            completedAt := if status = .completed then some now else e.job.completedAt
            updatedAt := now }
          machine := ⟨status, progress⟩
          history := e.history ++ [(status, progress)] }
  /-- A job may also be moved to failure like to any other status, and then has no message. -/
  | abandoned {progress : UInt8} (hopen : e.machine.status.isTerminal = false) :
      Step now e (.status .failed progress)
        { job := { e.job with
            status := .failed, progress := e.machine.progress, updatedAt := now }
          machine := { e.machine with status := .failed }
          history := e.history ++ [(.failed, e.machine.progress)] }
  | finding {finding : Finding} (hopen : e.job.status.isTerminal = false) :
      Step now e (.finding finding)
        { e with job := { e.job with findings := e.job.findings ++ [finding], updatedAt := now } }
  | recommendation {recommendation : Recommendation} (hopen : e.job.status.isTerminal = false) :
      Step now e (.recommendation recommendation)
        { e with job := { e.job with
            recommendations := e.job.recommendations ++ [recommendation], updatedAt := now } }
  | dependency {dependency : Dependency} (hopen : e.job.status.isTerminal = false) :
      Step now e (.dependency dependency)
        { e with job := { e.job with
            dependencies := e.job.dependencies ++ [dependency], updatedAt := now } }
  | processed {index : Nat} {filename : String} {time : Timestamp}
      (hopen : e.job.status.isTerminal = false)
      (hawaits : awaits e.job.files index filename = true) :
      Step now e (.processed index filename time)
        { e with job := { e.job with files := markAt e.job.files index time, updatedAt := now } }
  | failed {message : String} (hopen : e.machine.status.isTerminal = false) :
      Step now e (.failed message)
        { job := { e.job with
            status := .failed, errorMessage := some message, updatedAt := now }
          machine := { e.machine with status := .failed }
          history := e.history ++ [(.failed, e.job.progress)] }

theorem getElem?_markAt (files : List JobFile) (index : Nat) (time : Timestamp) (i : Nat) :
    (markAt files index time)[i]? =
      files[i]?.map fun file => if index = i then file.marked time else file := by
  rw [markAt, List.getElem?_modify]
  rfl

/-- The entry after an accepted change, which dates its job. -/
def dated (now : Timestamp) (e : Entry) : Entry :=
  { e with job := { e.job with updatedAt := now } }

variable {α β : Type} {e e' : Entry} {err : StorageError}

theorem run_bind_ok {x : ExceptT StorageError (StateM Entry) α}
    {f : α → ExceptT StorageError (StateM Entry) β} {a : α} (h : x.run e = (.ok a, e')) :
    (x >>= f).run e = (f a).run e' := by
  have hbind : (x >>= f).run e = (ExceptT.bindCont f (x.run e).1) (x.run e).2 := rfl
  rw [hbind, h]
  rfl

theorem run_bind_error {x : ExceptT StorageError (StateM Entry) α}
    {f : α → ExceptT StorageError (StateM Entry) β} (h : x.run e = (.error err, e')) :
    (x >>= f).run e = (.error err, e') := by
  have hbind : (x >>= f).run e = (ExceptT.bindCont f (x.run e).1) (x.run e).2 := rfl
  rw [hbind, h]
  rfl

theorem run_liftM_ok {x : Except StorageError α} {a : α} (h : x = .ok a) (e : Entry) :
    (liftM x : ExceptT StorageError (StateM Entry) α).run e = (.ok a, e) := by
  rw [h]
  rfl

theorem run_liftM_error {x : Except StorageError α} (h : x = .error err) (e : Entry) :
    (liftM x : ExceptT StorageError (StateM Entry) α).run e = (.error err, e) := by
  rw [h]
  rfl

theorem ensureOpen_run_ok (h : e.job.status.isTerminal = false) :
    ensureOpen.run e = (.ok (), e) := by
  change ((if e.job.status.isTerminal then throw _ else pure ()) : Change Unit).run e = _
  rw [if_neg (by simp [h])]
  rfl

theorem ensureOpen_run_error (h : e.job.status.isTerminal = true) :
    ensureOpen.run e = (.error (.rejected
      ("job " ++ e.job.id.text ++ " is already " ++ e.job.status.name)), e) := by
  change ((if e.job.status.isTerminal then throw _ else pure ()) : Change Unit).run e = _
  rw [if_pos h]
  rfl

/-- How a change for an update may come out: it makes a step, or there is none to make and nothing
has changed. -/
def Follows (now : Timestamp) (e : Entry) (u : Update) (x : Change Unit) : Prop :=
  (∃ e', x.run e = (.ok (), e') ∧ e.Step now u (dated now e')) ∨
    ((∃ err, x.run e = (.error err, e)) ∧ ∀ e', ¬ e.Step now u e')

variable {now : Timestamp} {u : Update}

theorem follows_of_ensureOpen {f : Entry → Entry}
    (hstep : e.job.status.isTerminal = false → e.Step now u (dated now (f e)))
    (hopen : ∀ {e'}, e.Step now u e' → e.job.status.isTerminal = false) :
    e.Follows now u (do ensureOpen; modify f) := by
  cases h : e.job.status.isTerminal
  · exact .inl ⟨f e, run_bind_ok (ensureOpen_run_ok h), hstep h⟩
  · refine .inr ⟨⟨_, run_bind_error (ensureOpen_run_error h)⟩, fun e' hstep => ?_⟩
    simp [hopen hstep] at h

theorem updateStatus_run_ok {status : JobStatus} {progress : UInt8} {m : Machine}
    (h : e.machine.advance status progress = .ok m) :
    (updateStatus now status progress).run e = (.ok (), report { e with
      machine := m
      job := { e.job with
        status := m.status, progress := m.progress
        completedAt := if status = .completed then some now else e.job.completedAt } }) := by
  refine (run_bind_ok rfl).trans ((run_bind_ok (run_liftM_ok h e)).trans ?_)
  by_cases hcompleted : status = .completed
  · subst hcompleted
    rfl
  · simp only [if_neg hcompleted]
    rfl

theorem updateStatus_follows (now : Timestamp) (e : Entry) (status : JobStatus)
    (progress : UInt8) :
    e.Follows now (.status status progress) (updateStatus now status progress) := by
  by_cases hfailed : status = .failed
  · subst hfailed
    have hadvance : e.machine.advance .failed progress = e.machine.fail := if_pos rfl
    rcases e.machine.fail_eq with ⟨hopen, hm⟩ | ⟨hclosed, err, hm⟩
    · exact .inl ⟨_, updateStatus_run_ok (hadvance.trans hm), .abandoned hopen⟩
    · refine .inr ⟨⟨err, (run_bind_ok rfl).trans (run_bind_error
        (run_liftM_error (hadvance.trans hm) e))⟩, ?_⟩
      intro e' hstep
      cases hstep with
      | advanced hne => exact hne rfl
      | abandoned hopen => simp [hopen] at hclosed
  · rcases e.machine.advance_eq progress hfailed with ⟨hallowed, hm⟩ | ⟨hrefused, err, hm⟩
    · exact .inl ⟨_, updateStatus_run_ok hm, .advanced hfailed hallowed⟩
    · refine .inr ⟨⟨err, (run_bind_ok rfl).trans (run_bind_error (run_liftM_error hm e))⟩, ?_⟩
      intro e' hstep
      cases hstep with
      | advanced _ hallowed => exact hrefused hallowed
      | abandoned => exact hfailed rfl

theorem throw_run (err : StorageError) (e : Entry) :
    (throw err : Change Unit).run e = (.error err, e) :=
  rfl

theorem markProcessed_run_open (hopen : e.job.status.isTerminal = false) (index : Nat)
    (filename : String) (time : Timestamp) :
    (markProcessed index filename time).run e =
      if awaits e.job.files index filename then
        (.ok (), { e with job := { e.job with files := markAt e.job.files index time } })
      else
        (.error (.rejected ("no pending file " ++ filename ++ " at #" ++ Text.decimal index ++
          " in job " ++ e.job.id.text)), e) := by
  have hrun : (markProcessed index filename time).run e =
      (if awaits e.job.files index filename then
        set { e with job := { e.job with files := markAt e.job.files index time } }
      else throw (.rejected ("no pending file " ++ filename ++ " at #" ++ Text.decimal index ++
        " in job " ++ e.job.id.text)) : Change Unit).run e :=
    (run_bind_ok (ensureOpen_run_ok hopen)).trans (run_bind_ok rfl)
  rw [hrun]
  split
  · rfl
  · exact throw_run _ e

theorem markProcessed_follows (now : Timestamp) (e : Entry) (index : Nat) (filename : String)
    (time : Timestamp) :
    e.Follows now (.processed index filename time) (markProcessed index filename time) := by
  cases hopen : e.job.status.isTerminal
  · have hrun := markProcessed_run_open hopen index filename time
    cases hawaits : awaits e.job.files index filename
    · rw [hawaits] at hrun
      refine .inr ⟨⟨_, hrun⟩, fun e' hstep => ?_⟩
      cases hstep with
      | processed _ hawaits' => simp [hawaits'] at hawaits
    · rw [hawaits] at hrun
      exact .inl ⟨_, hrun, .processed hopen hawaits⟩
  · refine .inr ⟨⟨_, run_bind_error (ensureOpen_run_error hopen)⟩, fun e' hstep => ?_⟩
    cases hstep with
    | processed hopen' => simp [hopen'] at hopen

theorem fail_follows (now : Timestamp) (e : Entry) (message : String) :
    e.Follows now (.failed message) (fail message) := by
  rcases e.machine.fail_eq with ⟨hopen, hm⟩ | ⟨hclosed, err, hm⟩
  · exact .inl ⟨_, (run_bind_ok rfl).trans (run_bind_ok (run_liftM_ok hm e)), .failed hopen⟩
  · refine .inr ⟨⟨err, (run_bind_ok rfl).trans (run_bind_error (run_liftM_error hm e))⟩, ?_⟩
    intro e' hstep
    cases hstep with
    | failed hopen => simp [hopen] at hclosed

theorem change_follows (now : Timestamp) (e : Entry) (u : Update) :
    e.Follows now u (change now u) := by
  cases u with
  | status status progress => exact updateStatus_follows now e status progress
  | finding finding => exact follows_of_ensureOpen .finding (fun h => by cases h; assumption)
  | recommendation recommendation =>
    exact follows_of_ensureOpen .recommendation (fun h => by cases h; assumption)
  | dependency dependency =>
    exact follows_of_ensureOpen .dependency (fun h => by cases h; assumption)
  | processed index filename time => exact markProcessed_follows now e index filename time
  | failed message => exact fail_follows now e message

end Entry

namespace Store

variable {store : Store} {id other : JobId} {e e' : Entry}

@[simp]
theorem find?_put_self (store : Store) (id : JobId) (e : Entry) :
    (store.put id e).find? id = some e := by
  simp only [find?, put]
  induction store.entries with
  | nil => simp [replace, lookup]
  | cons pair rest ih =>
    obtain ⟨key, old⟩ := pair
    by_cases hkey : key = id
    · simp [replace, lookup, hkey]
    · simp [replace, lookup, hkey, ih]

theorem find?_put_of_ne (store : Store) (e : Entry) (h : other ≠ id) :
    (store.put id e).find? other = store.find? other := by
  simp only [find?, put]
  induction store.entries with
  | nil => simp [replace, lookup, h.symm]
  | cons pair rest ih =>
    obtain ⟨key, old⟩ := pair
    by_cases hkey : key = id
    · simp [replace, lookup, hkey, h.symm]
    · simp [replace, lookup, hkey, ih]

theorem getJob?_of_find? (h : store.find? id = some e) : store.getJob? id = some e.job := by
  rw [getJob?, h]
  rfl

theorem put_self (h : store.find? id = some e) : store.put id e = store := by
  obtain ⟨entries⟩ := store
  simp only [find?, put, Store.mk.injEq] at h ⊢
  induction entries with
  | nil => simp [lookup] at h
  | cons pair rest ih =>
    obtain ⟨key, old⟩ := pair
    by_cases hkey : key = id
    · simp_all [replace, lookup]
    · simp only [lookup, if_neg hkey] at h
      simp [replace, hkey, ih h]

/-- The store carries an update out by a step of the entry, or refuses it and stays as it is. -/
theorem perform_update (h : store.find? id = some e) (now : Timestamp) (u : Update) :
    (∃ e', e.Step now u e' ∧ store.perform now (.update id u) = (.ok (), store.put id e')) ∨
      ((∃ err, store.perform now (.update id u) = (.error err, store)) ∧
        ∀ e', ¬ e.Step now u e') := by
  simp only [perform, h, changeEntry]
  rcases e.change_follows now u with ⟨e', hrun, hstep⟩ | ⟨⟨err, hrun⟩, hstuck⟩
  · exact .inl ⟨_, hstep, by rw [hrun]; rfl⟩
  · exact .inr ⟨⟨err, by rw [hrun]; simp [put_self h]⟩, hstuck⟩

theorem find?_perform_of_ne {now : Timestamp} {call : Call} (h : id ≠ call.jobId) :
    (store.perform now call).2.find? id = store.find? id := by
  cases call with
  | create key metadata files => exact find?_put_of_ne store _ h
  | update key u =>
    cases he : store.find? key with
    | none => simp [perform, he]
    | some e =>
      rcases perform_update he now u with ⟨e', _, hperform⟩ | ⟨⟨err, hperform⟩, _⟩
      · rw [hperform]
        exact find?_put_of_ne store e' h
      · rw [hperform]

/-- The stores that calls lead to, whatever they ask for and whether they are accepted or not. -/
inductive Reachable : Store → Prop
  | empty : Reachable {}
  | perform {store : Store} (now : Timestamp) (call : Call) (h : Reachable store) :
      Reachable (store.perform now call).2

/-- What holds of new entries and is kept by every step holds of all entries. -/
theorem Reachable.forall_entry {P : Entry → Prop}
    (hnew : ∀ id now metadata files, P (.new id now metadata files))
    (hstep : ∀ {now u e e'}, P e → e.Step now u e' → P e') (h : Reachable store) :
    ∀ {id e}, store.find? id = some e → P e := by
  induction h with
  | empty => intro id e he; simp [find?, lookup] at he
  | @perform store now call h ih =>
    intro id e he
    by_cases hid : id = call.jobId
    · subst hid
      cases call with
      | create key metadata files =>
        obtain rfl := Option.some.inj ((find?_put_self ..).symm.trans he)
        exact hnew key now metadata files
      | update key u =>
        change (store.perform now (.update key u)).2.find? key = some e at he
        cases hkey : store.find? key with
        | none => simp [Store.perform, hkey] at he
        | some old =>
          rcases perform_update hkey now u with ⟨new, hold, hrun⟩ | ⟨⟨err, hrun⟩, _⟩
          · rw [hrun, find?_put_self, Option.some.injEq] at he
            exact he ▸ hstep (ih hkey) hold
          · rw [hrun] at he
            exact ih he
    · exact ih ((find?_perform_of_ne hid).symm.trans he)

end Store

end LegacyAudit
