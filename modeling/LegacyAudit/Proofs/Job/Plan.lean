import LegacyAudit.Job.Run
import LegacyAudit.Proofs.Job.Steps

/-!
# The plan of a run

What a run asks for depends on what becomes of the files, but not on the answers of the storage: a
run goes through a fixed list of updates up to the first one that is not accepted.

## Main definitions

- `replay` - the part of a run that goes through a list of updates
- `plan` - the updates of a whole run
- `drive_eq_replay` - driving a job is going through its plan
-/

namespace LegacyAudit

variable {σ α β : Type}

theorem execute_cons_accepted {storage : Storage σ} {id : JobId} {u : Update} {s s' : σ}
    (h : storage (.update id u) s = (.accepted, s')) (us : List Update) :
    execute storage id (u :: us) s =
      (⟨u :: (execute storage id us s').1.accepted, (execute storage id us s').1.answer⟩,
        (execute storage id us s').2) := by
  rw [execute, h]

theorem execute_cons_stopped {storage : Storage σ} {id : JobId} {u : Update} {answer : Answer}
    {s s' : σ} (h : storage (.update id u) s = (answer, s')) (hanswer : answer ≠ .accepted)
    (us : List Update) : execute storage id (u :: us) s = (⟨[], answer⟩, s') := by
  rw [execute, h]
  cases answer with
  | accepted => exact absurd rfl hanswer
  | refused e => rfl
  | broken => rfl

theorem accepted_of_answer {storage : Storage σ} {id : JobId} {us : List Update} {s : σ}
    (h : (execute storage id us s).1.answer = .accepted) :
    (execute storage id us s).1.accepted = us := by
  induction us generalizing s with
  | nil => rfl
  | cons u us ih =>
    rcases hcall : storage (.update id u) s with ⟨answer, s'⟩
    by_cases hanswer : answer = .accepted
    · subst hanswer
      rw [execute_cons_accepted hcall] at h ⊢
      exact congrArg (u :: ·) (ih h)
    · rw [execute_cons_stopped hcall hanswer] at h
      exact absurd h hanswer

/-- The part of a run that asks for updates and goes on with a value. -/
def replay (storage : Storage σ) (id : JobId) (us : List Update) (value : α) : JobRun σ α :=
  fun s => ((execute storage id us s).1.answer.proceed value, (execute storage id us s).2)

theorem replay_nil (storage : Storage σ) (id : JobId) (a : α) : replay storage id [] a = pure a :=
  rfl

theorem issue_eq_replay (storage : Storage σ) (id : JobId) (u : Update) :
    issue storage id u = replay storage id [u] () := by
  funext s
  simp only [issue, replay, execute]
  rcases storage (.update id u) s with ⟨_ | e | _, s'⟩ <;> rfl

/-- Going through two lists one after the other is going through both at once. -/
theorem bind_eq_replay {storage : Storage σ} {id : JobId} {us vs : List Update} {a : α} {b : β}
    {x : JobRun σ α} {f : α → JobRun σ β} (hx : x = replay storage id us a)
    (hf : f a = replay storage id vs b) : x >>= f = replay storage id (us ++ vs) b := by
  subst hx
  have hbind : ∀ us s, (replay storage id us a >>= f) s =
      ExceptT.bindCont f (replay storage id us a s).1 (replay storage id us a s).2 :=
    fun _ _ => rfl
  funext s
  induction us generalizing s with
  | nil => exact congrFun hf s
  | cons u us ih =>
    rcases hcall : storage (.update id u) s with ⟨answer, s'⟩
    by_cases hanswer : answer = .accepted
    · subst hanswer
      have hs' := ih s'
      rw [hbind] at hs' ⊢
      simpa only [replay, List.cons_append, execute_cons_accepted hcall] using hs'
    · rw [hbind]
      simp only [replay, List.cons_append, execute_cons_stopped hcall hanswer]
      cases answer with
      | accepted => exact absurd rfl hanswer
      | refused e => rfl
      | broken => rfl

/-- Storing results is going through the updates that store them, with all of them counted. -/
theorem storing_persist_eq_replay (storage : Storage σ) (a : Aggregator) (us : List Update) :
    storing (a.persist storage us) =
      replay storage a.id us { a with summary := us.foldl .count a.summary } := by
  funext s
  simp only [storing, Aggregator.persist, replay]
  have haccepted : (execute storage a.id us s).1.answer = .accepted →
      (execute storage a.id us s).1.accepted = us := accepted_of_answer
  generalize execute storage a.id us s = x at haccepted
  obtain ⟨⟨accepted, answer⟩, s'⟩ := x
  cases answer with
  | accepted => rw [haccepted rfl]
  | refused e => rfl
  | broken => rfl

/-- The progress values that are reported while the files from a place on are scanned, when
`progress` has been reached before them. -/
def scanSteps (total : Nat) : Nat → Nat → UInt8 → List UInt8
  | 0, _, _ => []
  | left + 1, index, progress =>
    let next := progressAfter (index + 1) total
    if progress < next then next :: scanSteps total left (index + 1) next
    else scanSteps total left (index + 1) progress

/-- The updates that report progress values of the scan. -/
def scanUpdates (values : List UInt8) : List Update :=
  values.map fun progress => .status .scanningCode progress

/-- The analyses among the outcomes, with the places of their files counted from `first`. -/
def analysesFrom (first : Nat) (outcomes : List FileOutcome) : List (Nat × FileAnalysis) :=
  (outcomes.zipIdx first).filterMap fun (outcome, index) =>
    outcome.analysis?.map fun analysis => (index, analysis)

/-- The aggregator that has collected all analyses. -/
def Aggregator.collected (a : Aggregator) (files : List (Nat × FileAnalysis)) : Aggregator :=
  { a with
    files := a.files ++ files
    summary := { a.summary with filesAnalyzed := a.summary.filesAnalyzed + files.length } }

theorem analysesFrom_cons (first : Nat) (outcome : FileOutcome) (rest : List FileOutcome) :
    analysesFrom first (outcome :: rest) =
      (outcome.analysis?.map fun analysis => (first, analysis)).toList ++
        analysesFrom (first + 1) rest := by
  cases outcome <;> simp [analysesFrom, FileOutcome.analysis?]

theorem collected_collect (a : Aggregator) (first : Nat) (outcome : FileOutcome)
    (rest : List FileOutcome) :
    (a.collect first outcome).collected (analysesFrom (first + 1) rest) =
      a.collected (analysesFrom first (outcome :: rest)) := by
  rw [analysesFrom_cons]
  cases outcome <;>
    simp [Aggregator.collect, Aggregator.add, Aggregator.collected, FileOutcome.analysis?]
  omega

/-- Scanning is going through the progress reports, with all analyses collected. -/
theorem scan_eq_replay (storage : Storage σ) (total : Nat) (outcomes : List FileOutcome)
    (index : Nat) (progress : UInt8) (a : Aggregator) :
    scan storage total outcomes index progress a =
      replay storage a.id (scanUpdates (scanSteps total outcomes.length index progress))
        (a.collected (analysesFrom index outcomes)) := by
  induction outcomes generalizing index progress a with
  | nil => simp [scan, scanSteps, scanUpdates, analysesFrom, Aggregator.collected, replay_nil]
  | cons outcome rest ih =>
    have hid : (a.collect index outcome).id = a.id := by cases outcome <;> rfl
    simp only [scan, List.length_cons, scanSteps]
    split
    · rw [hid]
      refine bind_eq_replay (issue_eq_replay storage a.id _) ?_
      rw [ih, hid, collected_collect]
      rfl
    · rw [ih, hid, collected_collect]

def entry (status : JobStatus) : Update :=
  .status status (status.entryProgress?.getD 0)

/-- The updates of a run until its files are scanned. -/
def opening (total : Nat) : List Update :=
  [entry .processing, entry .scanningCode] ++
    scanUpdates (scanSteps total total 0 (progressAfter 0 total))

/-- The analyses among the outcomes, with the places of their files. -/
def analyses (outcomes : List FileOutcome) : List (Nat × FileAnalysis) :=
  analysesFrom 0 outcomes

/-- The updates of a run, given what becomes of its files. -/
def plan (id : JobId) (clock : MarkClock) (outcomes : List FileOutcome) : List Update :=
  opening outcomes.length ++
    ([entry .analyzingDependencies] ++ dependencyUpdates id (analyses outcomes)) ++
    ([entry .generatingRecommendations] ++ findingUpdates id clock (analyses outcomes)) ++
    [entry .completed]

/-- What a run that goes through its plan reports in the end. -/
def planSummary (id : JobId) (clock : MarkClock) (outcomes : List FileOutcome) :
    AggregateSummary :=
  (dependencyUpdates id (analyses outcomes) ++ findingUpdates id clock (analyses outcomes)).foldl
    .count { filesAnalyzed := (analyses outcomes).length }

theorem drive_eq_replay (storage : Storage σ) (id : JobId) (clock : MarkClock)
    (outcomes : List FileOutcome) :
    drive storage id clock outcomes =
      replay storage id (plan id clock outcomes) (planSummary id clock outcomes) := by
  have henter : ∀ status, enter storage id status = replay storage id [entry status] () :=
    fun status => issue_eq_replay storage id (entry status)
  have hplan : plan id clock outcomes =
      [entry .processing] ++ ([entry .scanningCode] ++ (scanUpdates (scanSteps outcomes.length
        outcomes.length 0 (progressAfter 0 outcomes.length)) ++
      ([entry .analyzingDependencies] ++ (dependencyUpdates id (analyses outcomes) ++
      ([entry .generatingRecommendations] ++ (findingUpdates id clock (analyses outcomes) ++
      ([entry .completed] ++ []))))))) := by
    simp [plan, opening]
  rw [hplan]
  refine bind_eq_replay (henter _) (bind_eq_replay (henter _) ?_)
  refine bind_eq_replay (scan_eq_replay storage outcomes.length outcomes 0 _ { id }) ?_
  refine bind_eq_replay (henter _) (bind_eq_replay (storing_persist_eq_replay storage _ _) ?_)
  refine bind_eq_replay (henter _) (bind_eq_replay (storing_persist_eq_replay storage _ _) ?_)
  refine bind_eq_replay (henter _) ?_
  rw [replay_nil, planSummary, List.foldl_append]
  simp [Aggregator.collected, analyses]

section Endings

variable {storage : Storage σ} {id : JobId} {clock : MarkClock} {outcomes : List FileOutcome}
  {done : List Update} {answer : Answer} {err : StorageError} {s s' : σ}

theorem drive_run (h : execute storage id (plan id clock outcomes) s = (⟨done, answer⟩, s')) :
    (drive storage id clock outcomes).run s =
      (answer.proceed (planSummary id clock outcomes), s') := by
  rw [drive_eq_replay]
  change replay storage id _ _ s = _
  rw [replay, h]

theorem runJob_of_accepted
    (h : execute storage id (plan id clock outcomes) s = (⟨done, .accepted⟩, s')) :
    runJob storage id clock outcomes s = (.finished, s') := by
  rw [runJob, drive_run h]
  rfl

theorem runJob_of_refused
    (h : execute storage id (plan id clock outcomes) s = (⟨done, .refused err⟩, s')) :
    runJob storage id clock outcomes s =
      match storage (.update id (.failed err.message)) s' with
      | (.broken, s) => (.aborted, s)
      | (_, s) => (.finished, s) := by
  rw [runJob, drive_run h]
  rfl

theorem runJob_of_broken
    (h : execute storage id (plan id clock outcomes) s = (⟨done, .broken⟩, s')) :
    runJob storage id clock outcomes s = (.aborted, s') := by
  rw [runJob, drive_run h]
  rfl

end Endings

end LegacyAudit
