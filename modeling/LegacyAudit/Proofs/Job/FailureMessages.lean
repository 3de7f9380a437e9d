import LegacyAudit.Proofs.Job.LaterReads

/-!
# Failures and their messages

A job fails in two ways. Whoever ends it with a message leaves the message in the job; whoever moves
it to failure like to any other status leaves none. A job that has not failed has no message.

## Main definitions

- `Entry.Intact` - nothing has failed yet
- `Job.Accounts` - the status and the message of a job tell how it failed, if it did
- `Store.accounts_of_created` - from its creation on a job accounts for its failures
-/

namespace LegacyAudit

/-- A job tells which of the accepted updates has failed it. -/
structure Job.Accounts (job : Job) (us : List Update) : Prop where
  /-- The message of a job is the one that it was ended with. -/
  message_iff : ∀ message, job.errorMessage = some message ↔ .failed message ∈ us
  /-- A job fails with a message, or by being moved to failure. -/
  failed_iff : job.status = .failed ↔
    job.errorMessage.isSome ∨ ∃ progress, .status .failed progress ∈ us
  /-- A job that was moved to failure has no message. -/
  silent : ∀ progress, .status .failed progress ∈ us → job.errorMessage = none

namespace Entry

/-- A job that has not failed and has no message. -/
structure Intact (e : Entry) : Prop where
  not_failed : e.job.status ≠ .failed
  no_message : e.job.errorMessage = none

variable {now : Timestamp} {u : Update} {us : List Update} {e e' : Entry}

theorem intact_new (id : JobId) (now : Timestamp) (metadata : ProjectMetadata)
    (files : List SourceFile) : (Entry.new id now metadata files).Intact where
  not_failed := by simp [Entry.new, Job.new]
  no_message := rfl

theorem Intact.step (he : e.Intact) (h : e.Step now u e') (hu : u.isFailure = false) :
    e'.Intact := by
  cases h with
  | advanced hstatus => exact ⟨hstatus, he.no_message⟩
  | abandoned => simp [Update.isFailure] at hu
  | failed => simp [Update.isFailure] at hu
  | finding => exact ⟨he.not_failed, he.no_message⟩
  | recommendation => exact ⟨he.not_failed, he.no_message⟩
  | dependency => exact ⟨he.not_failed, he.no_message⟩
  | processed => exact ⟨he.not_failed, he.no_message⟩

theorem Intact.accounts_of_failure (he : e.Intact) (h : e.Step now u e')
    (hu : u.isFailure = true) : e'.job.status.isTerminal = true ∧ e'.job.Accounts [u] := by
  cases h with
  | @advanced status progress hstatus =>
    cases status <;> simp_all [Update.isFailure]
  | abandoned =>
    refine ⟨rfl, ?_, ?_, ?_⟩
    · simp [he.no_message]
    · simp
    · exact fun _ _ => he.no_message
  | failed =>
    refine ⟨rfl, ?_, ?_, ?_⟩
    · simp [eq_comm]
    · simp
    · simp
  | finding => simp [Update.isFailure] at hu
  | recommendation => simp [Update.isFailure] at hu
  | dependency => simp [Update.isFailure] at hu
  | processed => simp [Update.isFailure] at hu

theorem accounts_cons {job : Job} (h : job.Accounts us) (hu : u.isFailure = false) :
    job.Accounts (u :: us) := by
  have hmessage : ∀ message, u ≠ .failed message := by
    rintro message rfl
    simp [Update.isFailure] at hu
  have hmoved : ∀ progress, u ≠ .status .failed progress := by
    rintro progress rfl
    simp [Update.isFailure] at hu
  refine ⟨?_, ?_, ?_⟩
  · intro message
    simpa [(hmessage message).symm] using h.message_iff message
  · simpa [fun progress => (hmoved progress).symm] using h.failed_iff
  · intro progress hmem
    exact h.silent progress (by simpa [(hmoved progress).symm] using hmem)

theorem Steps.accounts (hs : e.Steps us e') (hc : e.Consistent) (he : e.Intact) :
    e'.job.Accounts us := by
  induction hs with
  | nil =>
    refine ⟨?_, ?_, ?_⟩
    · simp [he.no_message]
    · simp [he.no_message, he.not_failed]
    · simp
  | @cons now u us e mid e' h hs ih =>
    cases hu : u.isFailure with
    | false => exact accounts_cons (ih (hc.step h) (he.step h hu)) hu
    | true =>
      obtain ⟨hterminal, haccounts⟩ := he.accounts_of_failure h hu
      obtain ⟨rfl, rfl⟩ := hs.eq_of_terminal (hc.step h) hterminal
      exact haccounts

end Entry

/-- From its creation on, whatever is asked of the store, a job accounts for its failures: it has
failed exactly if it was ended with a message or moved to failure by an update of its status, and
has a message in the first case only. -/
theorem Store.accounts_of_created {before after : Store} {now : Timestamp} {id : JobId}
    {metadata : ProjectMetadata} {files : List SourceFile} {rest : List (Timestamp × Request)}
    {served : List Served} (hlast : id ∉ createdIds rest)
    (hserved : before.serveAll ((now, .call (.create id metadata files)) :: rest) =
      (served, after)) :
    ∃ job, after.getJob? id = some job ∧ job.Accounts (acceptedUpdates id served) := by
  rw [serveAll_cons] at hserved
  obtain ⟨rfl, rfl⟩ := Prod.mk.inj hserved
  have hcreated : (before.serve now (.call (.create id metadata files))).2.find? id =
      some (.new id now metadata files) := find?_put_self ..
  obtain ⟨e, he, hsteps⟩ := serveAll_steps hcreated hlast
  exact ⟨e.job, getJob?_of_find? he,
    hsteps.accounts (Entry.consistent_new ..) (Entry.intact_new ..)⟩

/-- A job is begun and ends with a message, while another one is moved to failure. -/
def requestsOfFailures : List (Timestamp × Request) :=
  [Call.create ⟨8⟩ ⟨"other", none, none, .standard⟩ [],
    .update ⟨8⟩ (.status .failed 0), .update ⟨7⟩ (.status .processing 10),
    .update ⟨7⟩ (.failed "disk full"), .update ⟨7⟩ (.status .failed 0)].map
      fun call => (default, .call call)

/-- The message is there although the job was to be moved to failure later on. -/
theorem accounts_of_created_failed :
    ∃ served after job, ({} : Store).serveAll
        ((default, .call (.create ⟨7⟩ ⟨"demo", none, none, .standard⟩ [])) :: requestsOfFailures) =
          (served, after) ∧
      after.getJob? ⟨7⟩ = some job ∧ job.Accounts (acceptedUpdates ⟨7⟩ served) ∧
      job.errorMessage = some "disk full" := by
  obtain ⟨served, after, hserved⟩ : ∃ served after, ({} : Store).serveAll
      ((default, .call (.create ⟨7⟩ ⟨"demo", none, none, .standard⟩ [])) :: requestsOfFailures) =
        (served, after) := ⟨_, _, rfl⟩
  have haccepted : acceptedUpdates ⟨7⟩ (({} : Store).serveAll
      ((default, .call (.create ⟨7⟩ ⟨"demo", none, none, .standard⟩ [])) :: requestsOfFailures)).1 =
        [.status .processing 10, .failed "disk full"] := by decide +kernel
  rw [hserved] at haccepted
  obtain ⟨job, hjob, haccounts⟩ := Store.accounts_of_created (by decide) hserved
  refine ⟨served, after, job, hserved, hjob, haccounts, ?_⟩
  rw [haccounts.message_iff, haccepted]
  simp

/-- A job that is moved to failure right after its creation has no message. -/
theorem failed_without_message :
    ¬ ∀ (store : Store) (id : JobId) (job : Job), store.Reachable → store.getJob? id = some job →
      (job.status = .failed ↔ job.errorMessage.isSome) := by
  intro h
  let created := (({} : Store).perform default (.create ⟨8⟩ ⟨"other", none, none, .standard⟩ [])).2
  let moved := (created.perform default (.update ⟨8⟩ (.status .failed 0))).2
  have hreachable : moved.Reachable := .perform _ _ (.perform _ _ .empty)
  obtain ⟨job, hjob⟩ : ∃ job, moved.getJob? ⟨8⟩ = some job := Option.isSome_iff_exists.mp rfl
  have hstatus : (moved.getJob? ⟨8⟩).map (·.status) = some .failed := rfl
  have hmessage : (moved.getJob? ⟨8⟩).map (·.errorMessage) = some none := rfl
  rw [hjob, Option.map_some, Option.some.injEq] at hstatus hmessage
  simpa [hmessage] using (h moved ⟨8⟩ job hreachable hjob).mp hstatus

end LegacyAudit
