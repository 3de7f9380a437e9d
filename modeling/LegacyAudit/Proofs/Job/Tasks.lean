import LegacyAudit.Proofs.Job.Exchanges
import LegacyAudit.Proofs.Job.Undated

/-!
# Jobs as tasks

A job that shares its store runs call by call: it asks, waits for the answer and goes on from there,
and between two of its calls others have their turn. Such a run is a tree, which branches at the
answers. Gone through with a storage of its own it is the run of the job.

## Main definitions

- `Task` - what a run asks for next and how it goes on
- `Task.run` - a task with a storage of its own
- `submitTask` - creating a job and running it
- `run_submitTask` - alone, that is submitting the job
- `undated_submitTask` - what is asked depends on the clock in the times of the marks only
-/

namespace LegacyAudit

/-- What a run still has to do: nothing, or to ask for something and go on with the answer. -/
inductive Task (α : Type) where
  | done (value : α)
  | ask (call : Call) (next : Answer → Task α)

namespace Task

variable {σ α β : Type}

def run (storage : Storage σ) : Task α → σ → α × σ
  | done value, s => (value, s)
  | ask call next, s => (next (storage call s).1).run storage (storage call s).2

/-- The task with a function applied to its value. -/
def map (f : α → β) : Task α → Task β
  | done value => done (f value)
  | ask call next => ask call fun answer => (next answer).map f

def undated : Task α → Task α
  | done value => done value
  | ask call next => ask call.undated fun answer => (next answer).undated

inductive Owns (id : JobId) : Task α → Prop
  | done {value : α} : Owns id (.done value)
  | ask {call : Call} {next : Answer → Task α} (hcall : call.jobId = id)
      (hnext : ∀ answer, (next answer).Owns id) : Owns id (.ask call next)

theorem Owns.jobId_eq {id : JobId} {call : Call} {next : Answer → Task α}
    (h : (Task.ask call next).Owns id) : call.jobId = id := by
  cases h with
  | ask hcall _ => exact hcall

theorem Owns.next {id : JobId} {call : Call} {next : Answer → Task α}
    (h : (Task.ask call next).Owns id) (answer : Answer) : (next answer).Owns id := by
  cases h with
  | ask _ hnext => exact hnext answer

theorem run_map (f : α → β) (storage : Storage σ) (t : Task α) (s : σ) :
    (t.map f).run storage s = (f (t.run storage s).1, (t.run storage s).2) := by
  induction t generalizing s with
  | done value => rfl
  | ask call next ih => exact ih _ _

theorem Owns.map {id : JobId} {t : Task α} (h : t.Owns id) (f : α → β) : (t.map f).Owns id := by
  induction h with
  | done => exact .done
  | ask hcall _ ih => exact .ask hcall ih

theorem undated_map (f : α → β) (t : Task α) : (t.map f).undated = t.undated.map f := by
  induction t with
  | done value => rfl
  | ask call next ih => exact congrArg (Task.ask call.undated) (funext ih)

/-- A task that is the same as a finished one up to times has finished as well. -/
theorem eq_done_of_undated {t : Task α} {value : α} (h : t.undated = .done value) :
    t = .done value := by
  cases t with
  | done _ => exact h
  | ask _ _ => simp [undated] at h

/-- A task that is the same as an asking one up to times asks for the same and goes on with the
same, up to times. -/
theorem exists_ask_of_undated {t : Task α} {call : Call} {next : Answer → Task α}
    (h : t.undated = (ask call next).undated) :
    ∃ call' next', t = .ask call' next' ∧ call'.undated = call.undated ∧
      ∀ answer, (next' answer).undated = (next answer).undated := by
  cases t with
  | done _ => simp [undated] at h
  | ask call' next' =>
    obtain ⟨hcall, hnext⟩ := Task.ask.inj h
    exact ⟨call', next', rfl, hcall, congrFun hnext⟩

end Task

section Jobs

variable {σ : Type}

/-- How a run ends after the last answer to its updates: a refusal is recorded on the job. -/
def conclude (id : JobId) : Answer → Task RunEnd
  | .accepted => .done .finished
  | .refused e => .ask (.update id (.failed e.message)) fun
    | .accepted | .refused _ => .done .finished
    | .broken => .done .aborted
  | .broken => .done .aborted

/-- Asks for updates of a job up to the first one that is not accepted. -/
def updateTask (id : JobId) : List Update → Task RunEnd
  | [] => conclude id .accepted
  | u :: rest => .ask (.update id u) fun answer =>
    if answer = .accepted then updateTask id rest else conclude id answer

def jobTask (id : JobId) (clock : MarkClock) (outcomes : List FileOutcome) : Task RunEnd :=
  updateTask id (plan id clock outcomes)

def submitTask (trees : TreeSource) (chain : Chain) (clock : MarkClock) (id : JobId)
    (metadata : ProjectMetadata) (files : List SourceFile) : Task Submission :=
  .ask (.create id metadata files) fun
    | .accepted => (jobTask id clock (files.map (analyzeFile trees chain))).map .ran
    | .refused e => .done (.refused e)
    | .broken => .done .broken

theorem run_updateTask (storage : Storage σ) (id : JobId) (us : List Update) (s : σ) :
    (updateTask id us).run storage s =
      (conclude id (execute storage id us s).1.answer).run storage (execute storage id us s).2 := by
  induction us generalizing s with
  | nil => rfl
  | cons u us ih =>
    rcases hcall : storage (.update id u) s with ⟨answer, s'⟩
    rw [updateTask, Task.run, hcall]
    by_cases hanswer : answer = .accepted
    · subst hanswer
      rw [execute_cons_accepted hcall, if_pos rfl, ih]
    · rw [execute_cons_stopped hcall hanswer, if_neg hanswer]

theorem run_jobTask (storage : Storage σ) (id : JobId) (clock : MarkClock)
    (outcomes : List FileOutcome) (s : σ) :
    (jobTask id clock outcomes).run storage s = runJob storage id clock outcomes s := by
  rw [jobTask, run_updateTask]
  rcases hrun : execute storage id (plan id clock outcomes) s with ⟨⟨done, answer⟩, s'⟩
  cases answer with
  | accepted => rw [runJob_of_accepted hrun]; rfl
  | broken => rw [runJob_of_broken hrun]; rfl
  | refused e =>
    -- The refusal is recorded, and only a storage that breaks down under that makes a difference.
    rw [runJob_of_refused hrun, conclude, Task.run]
    rcases storage (.update id (.failed e.message)) s' with ⟨_ | _ | _, s''⟩ <;> rfl

theorem run_submitTask (storage : Storage σ) (trees : TreeSource) (chain : Chain)
    (clock : MarkClock) (id : JobId) (metadata : ProjectMetadata) (files : List SourceFile)
    (s : σ) :
    (submitTask trees chain clock id metadata files).run storage s =
      submit storage trees chain clock id metadata files s := by
  rw [submitTask, Task.run, submit]
  rcases storage (.create id metadata files) s with ⟨_ | _ | _, s'⟩
  · simp only [Task.run_map, run_jobTask]
  · rfl
  · rfl

theorem owns_conclude (id : JobId) (answer : Answer) : (conclude id answer).Owns id := by
  cases answer with
  | accepted => exact .done
  | broken => exact .done
  | refused e =>
    refine .ask rfl fun answer => ?_
    cases answer <;> exact .done

theorem owns_updateTask (id : JobId) (us : List Update) : (updateTask id us).Owns id := by
  induction us with
  | nil => exact .done
  | cons u us ih =>
    refine .ask rfl fun answer => ?_
    split
    · exact ih
    · exact owns_conclude id answer

theorem owns_submitTask (trees : TreeSource) (chain : Chain) (clock : MarkClock) (id : JobId)
    (metadata : ProjectMetadata) (files : List SourceFile) :
    (submitTask trees chain clock id metadata files).Owns id := by
  refine .ask rfl fun answer => ?_
  cases answer with
  | accepted => exact (owns_updateTask id _).map _
  | refused e => exact .done
  | broken => exact .done

theorem undated_updateTask {id : JobId} {us vs : List Update}
    (h : us.map Update.undated = vs.map Update.undated) :
    (updateTask id us).undated = (updateTask id vs).undated := by
  induction us generalizing vs with
  | nil =>
    rw [List.map_nil, eq_comm, List.map_eq_nil_iff] at h
    rw [h]
  | cons u us ih =>
    obtain ⟨v, vs, rfl, hu, hus⟩ := List.map_eq_cons_iff.mp h.symm
    simp only [updateTask, Task.undated, Call.undated, hu]
    congr 1
    funext answer
    split
    · exact ih hus.symm
    · rfl

/-- When files are marked is the only difference that the clock makes to a plan. -/
theorem undated_plan (id : JobId) (clock clock' : MarkClock) (outcomes : List FileOutcome) :
    (plan id clock outcomes).map Update.undated = (plan id clock' outcomes).map Update.undated := by
  simp [plan, findingUpdates, fileUpdates, List.map_flatMap, Update.undated]

theorem undated_submitTask (trees : TreeSource) (chain : Chain) (clock clock' : MarkClock)
    (id : JobId) (metadata : ProjectMetadata) (files : List SourceFile) :
    (submitTask trees chain clock id metadata files).undated =
      (submitTask trees chain clock' id metadata files).undated := by
  simp only [submitTask, Task.undated]
  congr 1
  funext answer
  cases answer with
  | accepted =>
    simp only [Task.undated_map, jobTask]
    rw [undated_updateTask (undated_plan id clock clock' _)]
  | refused e => rfl
  | broken => rfl

end Jobs

end LegacyAudit
