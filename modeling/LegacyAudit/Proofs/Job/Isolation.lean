import LegacyAudit.Proofs.Job.Tasks

/-!
# Jobs beside one another

Any number of jobs share a store, and clients use it beside them. Whose turn it is, and when, is
left open: what holds of every list of turns holds of every interleaving. A job does not notice. Its
calls and the reads of it have the responses that they have without all the others, and it comes to
the same end.

## Main definitions

- `Request.Confined` - a request that has to do with its own job only
- `Store.serveAll_isolated` - the requests about a job, alone
- `Shared`, `Shared.run` - jobs on a store, with one turn after the other
- `Shared.run_isolated` - jobs and clients do not notice one another

## Design notes

A store serves one request at a time, so a turn is one whole request. What a job works out between
two calls is no turn, since nobody else can see it.
-/

namespace LegacyAudit

/-- A request neither changes nor reads the entry of another job than its own. -/
structure Request.Confined (request : Request) : Prop where
  /-- The entries of all other jobs stay as they are. -/
  keeps : ∀ (store : Store) now id, id ≠ request.jobId →
    (store.serve now request).2.find? id = store.find? id
  /-- What the entries of other jobs are makes no difference. -/
  ignores : ∀ (store other : Store) now,
    other.find? request.jobId = store.find? request.jobId →
      (other.serve now request).1 = (store.serve now request).1 ∧
        (other.serve now request).2.find? request.jobId =
          (store.serve now request).2.find? request.jobId

def Request.isRead : Request → Bool
  | call _ => false
  | job _ | history _ => true

def servedAbout (id : JobId) (served : List Served) : List Served :=
  served.filter fun x => x.request.jobId = id

namespace Store

/-- The result of a call and the entry that it leaves depend on the entry that it finds. -/
theorem perform_ignores {store other : Store} {call : Call}
    (h : other.find? call.jobId = store.find? call.jobId) (now : Timestamp) :
    (other.perform now call).1 = (store.perform now call).1 ∧
      (other.perform now call).2.find? call.jobId =
        (store.perform now call).2.find? call.jobId := by
  cases call with
  | create id metadata files => exact ⟨rfl, (find?_put_self ..).trans (find?_put_self ..).symm⟩
  | update id u =>
    change other.find? id = store.find? id at h
    cases he : store.find? id with
    | none =>
      rw [he] at h
      simp [perform, Call.jobId, h, he]
    | some e =>
      rw [he] at h
      simp only [perform, Call.jobId, h, he, changeEntry]
      split <;> exact ⟨rfl, (find?_put_self ..).trans (find?_put_self ..).symm⟩

theorem confined (request : Request) : request.Confined where
  keeps _ _ _ h := find?_serve_of_ne h
  ignores store other now h := by
    cases request with
    | call call =>
      obtain ⟨hresult, hentry⟩ := perform_ignores h now
      exact ⟨congrArg Response.result hresult, hentry⟩
    | job id =>
      change other.find? id = store.find? id at h
      exact ⟨by simp only [serve, getJob?, h], h⟩
    | history id =>
      change other.find? id = store.find? id at h
      exact ⟨by simp only [serve, Store.history, h], h⟩

theorem serve_read {request : Request} (h : request.isRead = true) (store : Store)
    (now : Timestamp) : (store.serve now request).2 = store := by
  cases request with
  | call call => simp [Request.isRead] at h
  | job id => rfl
  | history id => rfl

/-- The requests about a job have the same responses, times aside, and lead to the same view of it
when they are made alone and at other times. -/
theorem serveAll_isolated {store other : Store} {requests alone : List (Timestamp × Request)}
    {id : JobId} (hview : other.view id = store.view id)
    (halone : alone.map (·.2.undated) =
      (servedAbout id (store.serveAll requests).1).map (·.request.undated)) :
    (other.serveAll alone).1.map (·.response.undated) =
        (servedAbout id (store.serveAll requests).1).map (·.response.undated) ∧
      (other.serveAll alone).2.view id = (store.serveAll requests).2.view id := by
  induction requests generalizing store other alone with
  | nil =>
    obtain rfl : alone = [] := List.map_eq_nil_iff.mp halone
    exact ⟨rfl, hview⟩
  | cons pair rest ih =>
    obtain ⟨now, request⟩ := pair
    rw [serveAll_cons] at halone ⊢
    by_cases hid : request.jobId = id
    · simp only [servedAbout, List.filter_cons, hid, decide_true, if_true, List.map_cons]
        at halone ⊢
      obtain ⟨⟨now', request'⟩, alone, rfl, hrequest, hrest⟩ := List.map_eq_cons_iff.mp halone
      obtain ⟨hresponse, hafter⟩ := serve_congr hid hview hrequest now now'
      obtain ⟨hresponses, hfinal⟩ := ih hafter hrest
      rw [serveAll_cons, List.map_cons, hresponse, hresponses]
      exact ⟨rfl, hfinal⟩
    -- A request about another job is none of those made alone, and leaves the view as it is.
    · simp only [servedAbout, List.filter_cons, hid, decide_false, Bool.false_eq_true, if_false]
        at halone ⊢
      have hafter : (store.serve now request).2.view id = store.view id :=
        view_eq_of_find? (find?_serve_of_ne (Ne.symm hid))
      exact ih (hview.trans hafter.symm) halone

end Store

/-- What is known of a job when it is submitted, and when its files are going to be marked. -/
structure Submittal where
  clock : MarkClock
  metadata : ProjectMetadata
  files : List SourceFile

/-- A store with the jobs that run on it, each with what it still has to do. No two of them have the
same identifier. -/
structure Shared where
  store : Store
  tasks : JobId → Option (Task Submission)

inductive Turn where
  /-- A job makes its next call. -/
  | job (id : JobId)
  /-- A client asks for something. -/
  | client (request : Request)

/-- The answer of a storage that does not break down. -/
def Answer.ofResult : Except StorageError Unit → Answer
  | .ok () => .accepted
  | .error e => .refused e

theorem Store.storage_eq (now : Timestamp) (call : Call) (store : Store) :
    Store.storage now call store =
      (.ofResult (store.perform now call).1, (store.perform now call).2) := by
  rw [Store.storage]
  rcases store.perform now call with ⟨_ | _, store'⟩ <;> rfl

namespace Shared

/-- What became of a job that has nothing to do any more. -/
def outcome? (shared : Shared) (id : JobId) : Option Submission :=
  match shared.tasks id with
  | some (.done result) => some result
  | _ => none

/-- Jobs that are about to be submitted to a store. -/
def start (trees : TreeSource) (chain : Chain) (store : Store)
    (jobs : JobId → Option Submittal) : Shared where
  store
  tasks id := (jobs id).map fun job => submitTask trees chain job.clock id job.metadata job.files

/-- A turn. It passes if it is that of a job with nothing to do. -/
def turn (shared : Shared) (now : Timestamp) : Turn → List Served × Shared
  | .client request =>
    let (response, store) := shared.store.serve now request
    ([⟨request, response⟩], { shared with store })
  | .job id =>
    match shared.tasks id with
    | some (.ask call next) =>
      let (result, store) := shared.store.perform now call
      ([⟨.call call, .result result⟩],
        ⟨store, Function.update shared.tasks id (some (next (.ofResult result)))⟩)
    | _ => ([], shared)

def run (shared : Shared) : List (Timestamp × Turn) → List Served × Shared
  | [] => ([], shared)
  | (now, turn) :: rest =>
    let (served, shared) := shared.turn now turn
    let (later, shared) := shared.run rest
    (served ++ later, shared)

theorem tasks_of_outcome? {shared : Shared} {id : JobId} {result : Submission}
    (h : shared.outcome? id = some result) : shared.tasks id = some (.done result) := by
  unfold outcome? at h
  split at h
  · next hdone => rw [hdone, Option.some.inj h]
  · simp at h

theorem run_cons (shared : Shared) (now : Timestamp) (turn : Turn)
    (rest : List (Timestamp × Turn)) :
    shared.run ((now, turn) :: rest) =
      ((shared.turn now turn).1 ++ ((shared.turn now turn).2.run rest).1,
        ((shared.turn now turn).2.run rest).2) :=
  rfl

theorem turn_serves (shared : Shared) (now : Timestamp) (turn : Turn) :
    (shared.turn now turn = ([], shared)) ∨
      ∃ request, (shared.turn now turn).1 = [⟨request, (shared.store.serve now request).1⟩] ∧
        (shared.turn now turn).2.store = (shared.store.serve now request).2 := by
  cases turn with
  | client request => exact .inr ⟨request, rfl, rfl⟩
  | job id =>
    rw [Shared.turn]
    split
    · next call _ _ => exact .inr ⟨.call call, rfl, rfl⟩
    · exact .inl rfl

theorem exists_requests_of_run (shared : Shared) (turns : List (Timestamp × Turn)) :
    ∃ requests, shared.store.serveAll requests =
      ((shared.run turns).1, (shared.run turns).2.store) := by
  induction turns generalizing shared with
  | nil => exact ⟨[], rfl⟩
  | cons pair rest ih =>
    obtain ⟨now, turn⟩ := pair
    obtain ⟨requests, hrequests⟩ := ih (shared.turn now turn).2
    rw [run_cons]
    rcases shared.turn_serves now turn with hpass | ⟨request, hserved, hstore⟩
    · rw [hpass] at hrequests ⊢
      exact ⟨requests, hrequests⟩
    · rw [hstore] at hrequests
      refine ⟨(now, request) :: requests, ?_⟩
      rw [Store.serveAll_cons, hrequests, hserved]
      rfl

def Owned (shared : Shared) : Prop :=
  ∀ id t, shared.tasks id = some t → t.Owns id

theorem owned_start (trees : TreeSource) (chain : Chain) (store : Store)
    (jobs : JobId → Option Submittal) : (start trees chain store jobs).Owned := by
  intro id t ht
  obtain ⟨job, _, rfl⟩ := Option.map_eq_some_iff.mp ht
  exact owns_submitTask ..

variable {shared : Shared} {id : JobId} {t : Task Submission}

theorem Owned.turn (h : shared.Owned) (now : Timestamp) (turn : Turn) :
    (shared.turn now turn).2.Owned := by
  cases turn with
  | client request => exact h
  | job key =>
    rw [Shared.turn]
    split
    · next call next htask =>
      intro id t ht
      by_cases hid : id = key
      · subst hid
        obtain rfl : next _ = t := by simpa using ht
        exact (h id _ htask).next _
      · exact h id t (by simpa [Function.update_of_ne hid] using ht)
    · exact h

/-- To a job it makes a difference only if it makes a call itself. Otherwise it has the same to do
as before, and finds the same. -/
theorem turn_cases (howned : shared.Owned) (htask : shared.tasks id = some t) (now : Timestamp)
    (turn : Turn)
    (hreads : ∀ request, turn = .client request → request.jobId = id → request.isRead = true) :
    (∃ call next, t = .ask call next ∧
        (shared.turn now turn).2.tasks id =
          some (next (.ofResult (shared.store.perform now call).1)) ∧
        (shared.turn now turn).2.store = (shared.store.perform now call).2) ∨
      ((shared.turn now turn).2.tasks id = some t ∧
        (shared.turn now turn).2.store.view id = shared.store.view id) := by
  cases turn with
  | client request =>
    refine .inr ⟨htask, ?_⟩
    change (shared.store.serve now request).2.view id = _
    by_cases hid : request.jobId = id
    · rw [Store.serve_read (hreads request rfl hid)]
    · exact Store.view_eq_of_find? (Store.find?_serve_of_ne (Ne.symm hid))
  | job key =>
    rw [Shared.turn]
    split
    · next call next hkey =>
      by_cases hid : key = id
      · subst hid
        obtain rfl : Task.ask call next = t := Option.some.inj (hkey.symm.trans htask)
        exact .inl ⟨call, next, rfl, Function.update_self .., rfl⟩
      · refine .inr ⟨(Function.update_of_ne (Ne.symm hid) ..).trans htask, ?_⟩
        have hcall := (howned key _ hkey).jobId_eq
        exact Store.view_eq_of_find? (Store.find?_perform_of_ne (hcall ▸ Ne.symm hid))
    · exact .inr ⟨htask, rfl⟩

/-- A job that comes to its end among others would come to the same end alone. -/
theorem run_alone {σ : Type} {storage : Storage σ} {state : σ → Store} {s : σ}
    {turns : List (Timestamp × Turn)} {alone : Task Submission} {result : Submission}
    (hfaithful : storage.Faithful state) (howned : shared.Owned)
    (htask : shared.tasks id = some t) (halone : alone.undated = t.undated)
    (hview : (state s).view id = shared.store.view id)
    (hreads : ∀ now request, (now, .client request) ∈ turns → request.jobId = id →
      request.isRead = true)
    (hdone : (shared.run turns).2.outcome? id = some result) :
    ∃ final, alone.run storage s = (result, final) ∧
      (state final).view id = (shared.run turns).2.store.view id := by
  induction turns generalizing shared t alone s with
  | nil =>
    obtain rfl : t = .done result := Option.some.inj (htask.symm.trans (tasks_of_outcome? hdone))
    rw [Task.eq_done_of_undated halone]
    exact ⟨s, rfl, hview⟩
  | cons pair rest ih =>
    obtain ⟨now, turn⟩ := pair
    have hrest : ∀ now request, (now, .client request) ∈ rest → request.jobId = id →
        request.isRead = true :=
      fun now request hmem => hreads now request (List.mem_cons_of_mem _ hmem)
    have hclient : ∀ request, turn = .client request → request.jobId = id →
        request.isRead = true := by
      rintro request rfl
      exact hreads now request List.mem_cons_self
    rw [run_cons] at hdone ⊢
    -- The run alone moves on with the turns of the job only. Its call finds there what it finds
    -- here, so the answer is the same, and with it what is left to do.
    rcases turn_cases howned htask now turn hclient with
      ⟨call, next, rfl, hnext, hstore⟩ | ⟨hsame, hsameView⟩
    · obtain ⟨call', next', rfl, hcall, hnext'⟩ := Task.exists_ask_of_undated halone
      have hid := (howned id _ htask).jobId_eq
      obtain ⟨now', hanswer, hafter⟩ := hfaithful call' s
      obtain ⟨hresult, hviews⟩ := Store.perform_congr hid hview hcall now now'
      rw [Store.storage_eq] at hanswer hafter
      rw [Task.run, show (storage call' s).1 = _ from hanswer, hresult]
      refine ih (howned.turn now turn) hnext (hnext' _) ?_ hrest hdone
      rw [hafter, hstore]
      exact hviews
    · exact ih (howned.turn now turn) hsame halone (hview.trans hsameView.symm) hrest hdone

/-- Jobs and clients do not notice one another, in whatever order they have their turns. No request
has to do with the entry of another job than its own. The requests about a job have the same
responses as they have alone, and lead to the same record and history. And a job that comes to its
end, while clients only read it, comes to the end it has when it is submitted to a storage of its
own; times aside. -/
theorem run_isolated {trees : TreeSource} {chain : Chain} {store : Store}
    {jobs : JobId → Option Submittal} {turns : List (Timestamp × Turn)} {served : List Served}
    {final : Shared} (hrun : (start trees chain store jobs).run turns = (served, final)) :
    (∀ request : Request, request.Confined) ∧
    (∀ id (other : Store) (alone : List (Timestamp × Request)),
      other.view id = store.view id →
      alone.map (·.2.undated) = (servedAbout id served).map (·.request.undated) →
      (other.serveAll alone).1.map (·.response.undated) =
          (servedAbout id served).map (·.response.undated) ∧
        (other.serveAll alone).2.view id = final.store.view id) ∧
    (∀ id job result, jobs id = some job → final.outcome? id = some result →
      (∀ now request, (now, .client request) ∈ turns → request.jobId = id →
        request.isRead = true) →
      ∀ {σ : Type} (storage : Storage σ) (state : σ → Store) (s : σ) (clock : MarkClock),
        storage.Faithful state → (state s).view id = store.view id →
        ∃ s', submit storage trees chain clock id job.metadata job.files s = (result, s') ∧
          (state s').view id = final.store.view id) := by
  refine ⟨Store.confined, ?_, ?_⟩
  · intro id other alone hview halone
    -- the turns come down to one list of requests, and of these only those about the job count
    obtain ⟨requests, hrequests⟩ := exists_requests_of_run (start trees chain store jobs) turns
    rw [hrun] at hrequests
    change store.serveAll requests = (served, final.store) at hrequests
    have hsame : alone.map (·.2.undated) =
        (servedAbout id (store.serveAll requests).1).map (·.request.undated) := by
      rw [hrequests, halone]
    have hisolated := Store.serveAll_isolated hview hsame
    rwa [hrequests] at hisolated
  · intro id job result hjob hdone hreads σ storage state s clock hfaithful hview
    have hfinal : ((start trees chain store jobs).run turns).2 = final := congrArg Prod.snd hrun
    have htask : (start trees chain store jobs).tasks id =
        some (submitTask trees chain job.clock id job.metadata job.files) :=
      congrArg (Option.map _) hjob
    obtain ⟨s', hsubmit, hafter⟩ := run_alone hfaithful (owned_start trees chain store jobs) htask
      (undated_submitTask trees chain clock job.clock ..) hview hreads (hfinal ▸ hdone)
    rw [run_submitTask] at hsubmit
    exact ⟨s', hsubmit, hfinal ▸ hafter⟩

end Shared

/-- Two jobs. The only file of the first one is no text. -/
def pairOfJobs : JobId → Option Submittal := fun id =>
  if id = ⟨7⟩ then
    some ⟨fun _ => default, ⟨"demo", none, none, .standard⟩, [⟨"notes", [0xff]⟩]⟩
  else if id = ⟨8⟩ then
    some ⟨fun _ => default, ⟨"other", none, none, .standard⟩, []⟩
  else none

/-- The jobs take turns while a client reads the first one. -/
def turnsOfPair : List (Timestamp × Turn) :=
  (List.replicate 7 [Turn.job ⟨7⟩, .client (.history ⟨7⟩), .job ⟨8⟩]).flatten.map (default, ·)

theorem run_isolated_pair :
    let trees : TreeSource := fun _ _ => .error "no tree"
    let alone (served : List Served) : List (Timestamp × Request) :=
      (servedAbout ⟨7⟩ served).map fun x => (default, x.request)
    ∃ served final, (Shared.start trees [] {} pairOfJobs).run turnsOfPair = (served, final) ∧
      (alone served).length = 14 ∧
      (({} : Store).serveAll (alone served)).1.map (·.response.undated) =
        (servedAbout ⟨7⟩ served).map (·.response.undated) ∧
      ∃ s', submit (Store.storage default) trees [] (default : Timestamp) ⟨7⟩
          ⟨"demo", none, none, .standard⟩ [⟨"notes", [0xff]⟩] {} = (.ran .finished, s') ∧
        s'.view ⟨7⟩ = final.store.view ⟨7⟩ := by
  intro trees alone
  obtain ⟨served, final, hrun⟩ : ∃ served final,
      (Shared.start trees [] {} pairOfJobs).run turnsOfPair = (served, final) := ⟨_, _, rfl⟩
  have houtcome : ((Shared.start trees [] {} pairOfJobs).run turnsOfPair).2.outcome? ⟨7⟩ =
      some (.ran .finished) := by decide +kernel
  have hcount : (servedAbout ⟨7⟩
      ((Shared.start trees [] {} pairOfJobs).run turnsOfPair).1).length = 14 := by decide +kernel
  rw [hrun] at houtcome hcount
  obtain ⟨_, hrequests, hsubmit⟩ := Shared.run_isolated hrun
  refine ⟨served, final, hrun, ?_, ?_, ?_⟩
  · rw [List.length_map, hcount]
  · exact (hrequests ⟨7⟩ {} _ rfl (List.map_map ..)).1
  · refine hsubmit ⟨7⟩ _ _ (if_pos rfl) houtcome ?_ (Store.storage default) id {} _
      (Store.storage_faithful _) rfl
    intro now request hmem _
    simp only [turnsOfPair, List.mem_map, List.mem_flatten, List.mem_replicate] at hmem
    obtain ⟨turn, ⟨_, ⟨_, rfl⟩, hturn⟩, hpair⟩ := hmem
    obtain ⟨-, rfl⟩ := Prod.mk.inj hpair
    obtain rfl : request = .history ⟨7⟩ := by simpa using hturn
    rfl

end LegacyAudit
