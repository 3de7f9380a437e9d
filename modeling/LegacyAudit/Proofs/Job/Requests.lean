import LegacyAudit.Proofs.Job.Causes
import LegacyAudit.Proofs.Job.Steps

/-!
# Requests to a shared store

Whatever is asked of a store by whoever shares it comes one request after the other: calls, and
reads of jobs and of their histories. To the entry of a job only the accepted updates of that job
matter, from its creation on.

## Main definitions

- `Request`, `Response` - what is asked of a store and what it responds
- `Store.serve`, `Store.serveAll` - requests at points in time
- `acceptedUpdates` - the updates of a job that were accepted among served requests
- `Store.serveAll_steps` - they are what the entry of the job has gone through
-/

namespace LegacyAudit

/-- What can be asked of a store, reads included. -/
inductive Request where
  | call (call : Call)
  /-- Reads a job. -/
  | job (id : JobId)
  /-- Reads what a job has reported. -/
  | history (id : JobId)
  deriving DecidableEq, Repr

def Request.jobId : Request → JobId
  | call c => c.jobId
  | job id | history id => id

inductive Response where
  | result (result : Except StorageError Unit)
  | job (job? : Option Job)
  | history (reports : List (JobStatus × UInt8))

structure Served where
  request : Request
  response : Response

namespace Store

def serve (store : Store) (now : Timestamp) : Request → Response × Store
  | .call call => (.result (store.perform now call).1, (store.perform now call).2)
  | .job id => (.job (store.getJob? id), store)
  | .history id => (.history (store.history id), store)

def serveAll (store : Store) : List (Timestamp × Request) → List Served × Store
  | [] => ([], store)
  | (now, request) :: rest =>
    let (response, store) := store.serve now request
    let (served, store) := store.serveAll rest
    (⟨request, response⟩ :: served, store)

theorem serveAll_cons (store : Store) (now : Timestamp) (request : Request)
    (rest : List (Timestamp × Request)) :
    store.serveAll ((now, request) :: rest) =
      (⟨request, (store.serve now request).1⟩ ::
          ((store.serve now request).2.serveAll rest).1,
        ((store.serve now request).2.serveAll rest).2) :=
  rfl

variable {store : Store} {id : JobId} {now : Timestamp}

/-- A request about one job leaves the entries of all other jobs as they are. -/
theorem find?_serve_of_ne {request : Request} (h : id ≠ request.jobId) :
    (store.serve now request).2.find? id = store.find? id := by
  cases request with
  | call call => exact find?_perform_of_ne h
  | job key => rfl
  | history key => rfl

end Store

/-- The identifier that a request gives to a new job. -/
def Request.createdId? : Request → Option JobId
  | call (.create id _ _) => some id
  | _ => none

/-- The identifiers that requests give to new jobs. -/
def createdIds (requests : List (Timestamp × Request)) : List JobId :=
  requests.filterMap fun pair => pair.2.createdId?

/-- The update of a job that was asked for and accepted. -/
def Served.accepted? (id : JobId) : Served → Option Update
  | ⟨.call (.update key u), .result (.ok ())⟩ => if key = id then some u else none
  | _ => none

/-- The updates of a job that were accepted, oldest first. -/
def acceptedUpdates (id : JobId) (served : List Served) : List Update :=
  served.filterMap (·.accepted? id)

theorem Served.accepted?_of_ne {id : JobId} {x : Served} (h : id ≠ x.request.jobId) :
    x.accepted? id = none := by
  unfold Served.accepted?
  split
  · exact if_neg (Ne.symm h)
  · rfl

namespace Store

variable {store : Store} {id : JobId} {e : Entry} {request : Request}

/-- What a request does to the entry of a job that exists: it is an update of the job that is
accepted and makes a step, or it does nothing to the entry. -/
theorem serve_cases (he : store.find? id = some e) (hcreated : request.createdId? ≠ some id)
    (now : Timestamp) :
    (∃ u e', Served.accepted? id ⟨request, (store.serve now request).1⟩ = some u ∧
        e.Step now u e' ∧ (store.serve now request).2.find? id = some e') ∨
      (Served.accepted? id ⟨request, (store.serve now request).1⟩ = none ∧
        (store.serve now request).2.find? id = some e) := by
  by_cases hid : id = request.jobId
  · cases request with
    | job key => exact .inr ⟨rfl, he⟩
    | history key => exact .inr ⟨rfl, he⟩
    | call call =>
      cases call with
      | create key metadata files => exact absurd (congrArg some hid.symm) hcreated
      | update key u =>
        have hkey : id = key := hid
        subst hkey
        rcases perform_update_cases he now u with ⟨e', hstep, hperform⟩ | ⟨err, _, hperform⟩
        · refine .inl ⟨u, e', ?_, hstep, ?_⟩
          · simp [serve, hperform, Served.accepted?]
          · simp [serve, hperform]
        · refine .inr ⟨?_, ?_⟩
          · simp [serve, hperform, Served.accepted?]
          · simpa [serve, hperform] using he
  · exact .inr ⟨Served.accepted?_of_ne hid, (find?_serve_of_ne hid).trans he⟩

/-- The entry of a job goes through the accepted updates of the job, whatever else is asked of the
store. -/
theorem serveAll_steps {requests : List (Timestamp × Request)} (he : store.find? id = some e)
    (hcreated : id ∉ createdIds requests) :
    ∃ e', (store.serveAll requests).2.find? id = some e' ∧
      e.Steps (acceptedUpdates id (store.serveAll requests).1) e' := by
  induction requests generalizing store e with
  | nil => exact ⟨e, he, .nil⟩
  | cons pair rest ih =>
    obtain ⟨now, request⟩ := pair
    have hfirst : request.createdId? ≠ some id := fun h =>
      hcreated (List.mem_filterMap.mpr ⟨_, List.mem_cons_self, h⟩)
    have hrest : id ∉ createdIds rest := fun h =>
      hcreated ((List.sublist_cons_self _ rest).filterMap _ |>.subset h)
    rw [serveAll_cons, acceptedUpdates, List.filterMap_cons]
    rcases serve_cases he hfirst now with ⟨u, mid, haccepted, hstep, hmid⟩ | ⟨hnone, hmid⟩
    · obtain ⟨e', he', hsteps⟩ := ih hmid hrest
      rw [haccepted]
      exact ⟨e', he', .cons hstep hsteps⟩
    · rw [hnone]
      exact ih hmid hrest

/-- What a request does to a job that does not exist: it creates the job, or the job still does not
exist. -/
theorem serve_cases_of_unknown (he : store.find? id = none) (now : Timestamp) (request : Request) :
    Served.accepted? id ⟨request, (store.serve now request).1⟩ = none ∧
      ((∃ metadata files, request = .call (.create id metadata files) ∧
          (store.serve now request).2.find? id = some (.new id now metadata files)) ∨
        (store.serve now request).2.find? id = none) := by
  by_cases hid : id = request.jobId
  · cases request with
    | job key => exact ⟨rfl, .inr he⟩
    | history key => exact ⟨rfl, .inr he⟩
    | call call =>
      cases call with
      | create key metadata files =>
        have hkey : id = key := hid
        subst hkey
        exact ⟨rfl, .inl ⟨metadata, files, rfl, find?_put_self ..⟩⟩
      | update key u =>
        have hkey : id = key := hid
        subst hkey
        have hperform : store.perform now (.update id u) = (.error (.jobNotFound id), store) := by
          simp [perform, he]
        refine ⟨?_, .inr ?_⟩
        · simp [serve, hperform, Served.accepted?]
        · simpa [serve, hperform] using he
  · exact ⟨Served.accepted?_of_ne hid, .inr ((find?_serve_of_ne hid).trans he)⟩

/-- A job that came to exist has been created, and since then its entry has gone through the
accepted updates, if no identifier is given out twice. -/
theorem serveAll_steps_of_unknown {requests : List (Timestamp × Request)}
    (hunknown : store.find? id = none) (hids : (createdIds requests).Nodup)
    (he : (store.serveAll requests).2.find? id = some e) :
    id ∈ createdIds requests ∧ ∃ created metadata files,
      (Entry.new id created metadata files).Steps
        (acceptedUpdates id (store.serveAll requests).1) e := by
  induction requests generalizing store with
  | nil => exact absurd (hunknown.symm.trans he) (by simp)
  | cons pair rest ih =>
    obtain ⟨now, request⟩ := pair
    have hsub : (createdIds rest).Sublist (createdIds ((now, request) :: rest)) :=
      (List.sublist_cons_self _ rest).filterMap _
    rw [serveAll_cons] at he ⊢
    obtain ⟨hnone, hcases⟩ := serve_cases_of_unknown hunknown now request
    rw [acceptedUpdates, List.filterMap_cons, hnone]
    rcases hcases with ⟨metadata, files, rfl, hnew⟩ | hstill
    · have hnodup : (id :: createdIds rest).Nodup := hids
      obtain ⟨e', he', hsteps⟩ := serveAll_steps hnew (List.nodup_cons.mp hnodup).1
      rw [he', Option.some.injEq] at he
      subst he
      exact ⟨List.mem_cons_self, now, metadata, files, hsteps⟩
    · obtain ⟨hmem, hlife⟩ := ih hstill (hids.sublist hsub) he
      exact ⟨hsub.subset hmem, hlife⟩

end Store

end LegacyAudit
