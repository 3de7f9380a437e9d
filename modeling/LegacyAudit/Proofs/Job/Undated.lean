import LegacyAudit.Proofs.Job.Requests

/-!
# Times aside

Times are written down and never looked at: what a store does with a request, and what it responds,
is the same at all times, apart from the times that are written down. Two stores that agree about a
job up to its times go on agreeing about it when they are asked the same about it.

## Main definitions

- `Entry.undated`, `Request.undated`, `Response.undated` and others - the same without their times
- `Store.view` - the entry of a job without its times
- `Store.serve_congr` - requests that differ in times only have the same effect on a view
-/

namespace LegacyAudit

/-- What a job remembers of a file, with any time replaced by a fixed one. -/
def JobFile.undated (file : JobFile) : JobFile :=
  { file with processedAt := file.processedAt.map fun _ => default }

/-- A job with all of its times replaced by a fixed one. Which of them are set stays visible. -/
def Job.undated (job : Job) : Job :=
  { job with
    createdAt := default
    updatedAt := default
    completedAt := job.completedAt.map fun _ => default
    files := job.files.map .undated }

def Entry.undated (e : Entry) : Entry :=
  { e with job := e.job.undated }

def Update.undated : Update → Update
  | .processed index filename _ => .processed index filename default
  | u => u

def Call.undated : Call → Call
  | .update id u => .update id u.undated
  | call => call

def Request.undated : Request → Request
  | .call c => .call c.undated
  | request => request

def Response.undated : Response → Response
  | .job job? => .job (job?.map Job.undated)
  | response => response

namespace Entry

variable {now : Timestamp} {u : Update} {e e' e₁ e₂ : Entry} {err : StorageError}

theorem awaits_undated (files : List JobFile) (index : Nat) (filename : String) :
    awaits (files.map .undated) index filename = awaits files index filename := by
  rw [awaits, awaits, List.getElem?_map]
  cases files[index]? <;> rfl

theorem markAt_undated (files : List JobFile) (index : Nat) (time : Timestamp) :
    (markAt files index time).map .undated = markAt (files.map .undated) index default := by
  apply List.ext_getElem?
  intro i
  rw [List.getElem?_map, getElem?_markAt, getElem?_markAt, List.getElem?_map, Option.map_map,
    Option.map_map]
  congr 1
  funext file
  by_cases hi : index = i <;> simp [hi, JobFile.marked, JobFile.undated]

theorem Step.undated (h : e.Step now u e') :
    e.undated.Step default u.undated e'.undated := by
  cases h with
  | @advanced status progress hstatus hallowed =>
    have hstep : e.undated.Step default (.status status progress) _ := .advanced hstatus hallowed
    refine (congrArg (e.undated.Step default (.status status progress)) ?_).mp hstep
    simp only [Entry.undated, Job.undated]
    split <;> rfl
  | abandoned hopen => exact .abandoned hopen
  | finding hopen => exact .finding hopen
  | recommendation hopen => exact .recommendation hopen
  | dependency hopen => exact .dependency hopen
  | @processed index filename time hopen hawaits =>
    have hwaits : awaits (e.job.files.map .undated) index filename = true :=
      (awaits_undated ..).trans hawaits
    have hstep : e.undated.Step default (.processed index filename default) _ :=
      .processed hopen hwaits
    refine (congrArg (e.undated.Step default (.processed index filename default)) ?_).mp hstep
    simp only [Entry.undated, Job.undated]
    rw [markAt_undated]
  | failed hopen => exact .failed hopen

theorem Refuses.undated (h : e.Refuses u err) : e.undated.Refuses u.undated err := by
  cases h with
  | illegalMove hmove => exact .illegalMove hmove
  | outOfRange hstatus hmove hrange => exact .outOfRange hstatus hmove hrange
  | incomplete hmove hmonotone hbounded hne => exact .incomplete hmove hmonotone hbounded hne
  | ended hclosed => exact .ended hclosed
  | closed hresult hclosed =>
    have hundated : u.undated.isResult = true := by
      cases u <;> simp_all [Update.isResult, Update.undated]
    exact .closed hundated hclosed
  | unmatched hopen hawaits => exact .unmatched hopen ((awaits_undated ..).trans hawaits)

theorem Step.unique (h₁ : e.Step now u e₁) (h₂ : e.Step now u e₂) : e₁ = e₂ := by
  cases h₁ with
  | advanced hstatus =>
    cases h₂ with
    | advanced => rfl
    | abandoned => exact absurd rfl hstatus
  | abandoned =>
    cases h₂ with
    | advanced hstatus => exact absurd rfl hstatus
    | abandoned => rfl
  | finding => cases h₂; rfl
  | recommendation => cases h₂; rfl
  | dependency => cases h₂; rfl
  | processed => cases h₂; rfl
  | failed => cases h₂; rfl

end Entry

namespace Store

def view (store : Store) (id : JobId) : Option Entry :=
  (store.find? id).map Entry.undated

theorem getJob?_undated (store : Store) (id : JobId) :
    (store.getJob? id).map Job.undated = (store.view id).map (·.job) := by
  rw [getJob?, view, Option.map_map, Option.map_map]
  rfl

theorem history_view (store : Store) (id : JobId) :
    store.history id = ((store.view id).map (·.history)).getD [] := by
  rw [history, view, Option.map_map]
  rfl

variable {id : JobId} {store other : Store}

theorem view_eq_of_find? (h : store.find? id = other.find? id) : store.view id = other.view id := by
  rw [view, view, h]

theorem view_put_self (store : Store) (id : JobId) (e : Entry) :
    (store.put id e).view id = some e.undated := by
  rw [view, find?_put_self]
  rfl

/-- Updates that differ in times only have the same result and the same effect on a view. -/
theorem perform_update_congr {u u' : Update} (hview : other.view id = store.view id)
    (hu : u'.undated = u.undated) (now now' : Timestamp) :
    (other.perform now' (.update id u')).1 = (store.perform now (.update id u)).1 ∧
      (other.perform now' (.update id u')).2.view id =
        (store.perform now (.update id u)).2.view id := by
  cases he : store.find? id with
  | none =>
    have he' : other.find? id = none := by simpa [view, he] using hview
    refine ⟨by simp [perform, he, he'], ?_⟩
    simpa [perform, he, he'] using hview
  | some e =>
    obtain ⟨e', he', hundated⟩ : ∃ e', other.find? id = some e' ∧ e'.undated = e.undated := by
      simpa [view, he] using hview
    -- Without times both sides are at the same entry with the same update. So it cannot be that one
    -- makes a step and the other one has a cause to refuse it.
    rcases perform_update_cases he now u with ⟨e₁, hstep, hrun⟩ | ⟨err, hrefuses, hrun⟩
    · rcases perform_update_cases he' now' u' with ⟨e₂, hstep', hrun'⟩ | ⟨err, hrefuses', _⟩
      · have hsame := hstep'.undated
        rw [hundated, hu] at hsame
        rw [hrun, hrun', view_put_self, view_put_self, hsame.unique hstep.undated]
        exact ⟨rfl, rfl⟩
      · have hrefused := hrefuses'.undated
        rw [hundated, hu] at hrefused
        exact (hrefused.not_step hstep.undated).elim
    · rcases perform_update_cases he' now' u' with ⟨e₂, hstep', _⟩ | ⟨err', hrefuses', hrun'⟩
      · have hstepped := hstep'.undated
        rw [hundated, hu] at hstepped
        exact (hrefuses.undated.not_step hstepped).elim
      · have hrefused := hrefuses'.undated
        rw [hundated, hu] at hrefused
        rw [hrun, hrun', hrefused.unique hrefuses.undated]
        exact ⟨rfl, hview⟩

/-- Calls about a job that differ in times only have the same result and the same effect on its
view. -/
theorem perform_congr {call call' : Call} (hid : call.jobId = id)
    (hview : other.view id = store.view id) (hcall : call'.undated = call.undated)
    (now now' : Timestamp) :
    (other.perform now' call').1 = (store.perform now call).1 ∧
      (other.perform now' call').2.view id = (store.perform now call).2.view id := by
  cases call with
  | create key metadata files =>
    have hkey : key = id := hid
    subst hkey
    cases call' with
    | update => simp [Call.undated] at hcall
    | create key' metadata' files' =>
      simp only [Call.undated, Call.create.injEq] at hcall
      obtain ⟨rfl, rfl, rfl⟩ := hcall
      refine ⟨rfl, ?_⟩
      rw [perform, perform, view_put_self, view_put_self]
      rfl
  | update key u =>
    have hkey : key = id := hid
    subst hkey
    cases call' with
    | create => simp [Call.undated] at hcall
    | update key' u' =>
      simp only [Call.undated, Call.update.injEq] at hcall
      obtain ⟨rfl, hu⟩ := hcall
      exact perform_update_congr hview hu now now'

/-- Requests about a job that differ in times only have the same response, times aside, and the same
effect on the view of the job. -/
theorem serve_congr {request request' : Request} (hid : request.jobId = id)
    (hview : other.view id = store.view id) (hrequest : request'.undated = request.undated)
    (now now' : Timestamp) :
    (other.serve now' request').1.undated = (store.serve now request).1.undated ∧
      (other.serve now' request').2.view id = (store.serve now request).2.view id := by
  cases request with
  | call call =>
    cases request' with
    | call call' =>
      simp only [Request.undated, Request.call.injEq] at hrequest
      obtain ⟨hresult, hafter⟩ := perform_congr hid hview hrequest now now'
      exact ⟨congrArg Response.result hresult, hafter⟩
    | job | history => simp [Request.undated] at hrequest
  | job key =>
    have hkey : key = id := hid
    subst hkey
    cases request' with
    | job key' =>
      simp only [Request.undated, Request.job.injEq] at hrequest
      subst hrequest
      refine ⟨?_, hview⟩
      simp only [serve, Response.undated, getJob?_undated, hview]
    | call | history => simp [Request.undated] at hrequest
  | history key =>
    have hkey : key = id := hid
    subst hkey
    cases request' with
    | history key' =>
      simp only [Request.undated, Request.history.injEq] at hrequest
      subst hrequest
      refine ⟨?_, hview⟩
      simp only [serve, Response.undated, history_view, hview]
    | call | job => simp [Request.undated] at hrequest

end Store

end LegacyAudit
