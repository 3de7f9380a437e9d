import LegacyAudit.Proofs.Job.Consistency

/-!
# Accepted updates one after the other

A list of accepted updates leaves in an entry what its members bring, in their order: every list of
results grows by the results among the updates, the history by the reports, and the files are marked
by the marks. Nothing else in the list matters.

## Main definitions

- `Entry.Steps` - a list of steps
- `Update.finding?`, `Update.report?`, `Update.mark?` and others - what an update brings
- `applyMarks` - files after a list of marks
- `markedPlaces` - the places of marked files, as many as files have been dealt with
-/

namespace LegacyAudit

namespace Update

def finding? : Update → Option Finding
  | .finding result => some result
  | _ => none

/-- The recommendation that an update brings. -/
def recommendation? : Update → Option Recommendation
  | .recommendation result => some result
  | _ => none

def dependency? : Update → Option Dependency
  | .dependency result => some result
  | _ => none

/-- The status and progress that an update reports. -/
def report? : Update → Option (JobStatus × UInt8)
  | .status next progress => some (next, progress)
  | _ => none

/-- The place of the file that an update marks, with the time of the mark. -/
def mark? : Update → Option (Nat × Timestamp)
  | .processed index _ time => some (index, time)
  | _ => none

/-- Whether an update asks for the end of the job in failure, with a message or without. -/
def isFailure : Update → Bool
  | .status .failed _ | .failed _ => true
  | _ => false

end Update

/-- Where a job stands after updates: at the last report, or at the beginning. -/
def lastReport (us : List Update) : JobStatus × UInt8 :=
  (us.filterMap Update.report?).getLast?.getD (.pending, 0)

/-- The places of the files that updates mark. -/
def markedPlaces (us : List Update) : List Nat :=
  (us.filterMap Update.mark?).map Prod.fst

theorem markedPlaces_cons (u : Update) (us : List Update) :
    markedPlaces (u :: us) = markedPlaces [u] ++ markedPlaces us := by
  cases u <;> rfl

/-- The files after marks have been set one after the other. -/
def applyMarks (files : List JobFile) (marks : List (Nat × Timestamp)) : List JobFile :=
  marks.foldl (fun files mark => Entry.markAt files mark.1 mark.2) files

@[simp]
theorem applyMarks_cons (files : List JobFile) (mark : Nat × Timestamp)
    (marks : List (Nat × Timestamp)) :
    applyMarks files (mark :: marks) = applyMarks (Entry.markAt files mark.1 mark.2) marks :=
  rfl

@[simp]
theorem length_applyMarks (files : List JobFile) (marks : List (Nat × Timestamp)) :
    (applyMarks files marks).length = files.length := by
  induction marks generalizing files with
  | nil => rfl
  | cons mark marks ih => simp [ih, Entry.markAt]

theorem getElem?_applyMarks_of_notMem {files : List JobFile} {marks : List (Nat × Timestamp)}
    {i : Nat} (h : i ∉ marks.map Prod.fst) : (applyMarks files marks)[i]? = files[i]? := by
  induction marks generalizing files with
  | nil => rfl
  | cons mark marks ih =>
    rw [List.map_cons, List.mem_cons, not_or] at h
    rw [applyMarks_cons, ih h.2, Entry.getElem?_markAt]
    simp [Ne.symm h.1]

theorem getElem?_applyMarks_of_mem {files : List JobFile} {marks : List (Nat × Timestamp)}
    {i : Nat} {time : Timestamp} (hnodup : (marks.map Prod.fst).Nodup) (h : (i, time) ∈ marks) :
    (applyMarks files marks)[i]? = files[i]?.map (·.marked time) := by
  induction marks generalizing files with
  | nil => simp at h
  | cons mark marks ih =>
    rw [List.map_cons, List.nodup_cons] at hnodup
    rw [applyMarks_cons]
    rcases List.mem_cons.mp h with rfl | hmem
    · rw [getElem?_applyMarks_of_notMem hnodup.1, Entry.getElem?_markAt]
      simp
    · have hne : mark.1 ≠ i := by
        rintro rfl
        exact hnodup.1 (List.mem_map.mpr ⟨_, hmem, rfl⟩)
      rw [ih hnodup.2 hmem, Entry.getElem?_markAt]
      simp [hne]

namespace Entry

/-- Accepted updates lead from an entry to another one, each of them at a time of its own. -/
inductive Steps : Entry → List Update → Entry → Prop
  | nil {e : Entry} : Steps e [] e
  | cons {now : Timestamp} {u : Update} {us : List Update} {e mid e' : Entry}
      (h : e.Step now u mid) (hs : Steps mid us e') : Steps e (u :: us) e'

variable {now : Timestamp} {u : Update} {us : List Update} {e e' : Entry}

theorem Steps.append {vs : List Update} {mid : Entry} (hs : e.Steps us mid)
    (hs' : mid.Steps vs e') : e.Steps (us ++ vs) e' := by
  induction hs with
  | nil => exact hs'
  | cons h _ ih => exact .cons h (ih hs')

theorem Steps.keep {P : Entry → Prop}
    (hstep : ∀ {now u e e'}, P e → e.Step now u e' → P e') (hs : e.Steps us e') (he : P e) :
    P e' := by
  induction hs with
  | nil => exact he
  | cons h _ ih => exact ih (hstep he h)

/-- A list to which every update adds what it brings has in the end what all of them bring. -/
theorem Steps.accumulate {β : Type} (view : Entry → List β) (part : Update → Option β)
    (hs : e.Steps us e')
    (hstep : ∀ {now u e e'}, u ∈ us → e.Step now u e' → view e' = view e ++ (part u).toList) :
    view e' = view e ++ us.filterMap part := by
  induction hs with
  | nil => simp
  | @cons now u us e mid e' h _ ih =>
    have hfirst := hstep List.mem_cons_self h
    rw [ih fun hu => hstep (List.mem_cons_of_mem _ hu), hfirst, List.append_assoc]
    cases hu : part u <;> simp [hu]

theorem Steps.findings_eq (hs : e.Steps us e') :
    e'.job.findings = e.job.findings ++ us.filterMap Update.finding? :=
  hs.accumulate (fun e => e.job.findings) _ fun _ h => by cases h <;> simp [Update.finding?]

theorem Steps.recommendations_eq (hs : e.Steps us e') :
    e'.job.recommendations = e.job.recommendations ++ us.filterMap Update.recommendation? :=
  hs.accumulate (fun e => e.job.recommendations) _ fun _ h => by
    cases h <;> simp [Update.recommendation?]

theorem Steps.dependencies_eq (hs : e.Steps us e') :
    e'.job.dependencies = e.job.dependencies ++ us.filterMap Update.dependency? :=
  hs.accumulate (fun e => e.job.dependencies) _ fun _ h => by
    cases h <;> simp [Update.dependency?]

theorem Steps.history_eq (hs : e.Steps us e') (hus : ∀ u ∈ us, u.isFailure = false) :
    e'.history = e.history ++ us.filterMap Update.report? :=
  hs.accumulate Entry.history _ fun hu h => by
    have hok := hus _ hu
    cases h <;> simp_all [Update.report?, Update.isFailure]

theorem Steps.files_eq (hs : e.Steps us e') :
    e'.job.files = applyMarks e.job.files (us.filterMap Update.mark?) := by
  induction hs with
  | nil => rfl
  | cons h _ ih =>
    rw [ih]
    cases h <;> simp [List.filterMap_cons, Update.mark?]

theorem Steps.errorMessage_eq (hs : e.Steps us e') (hus : ∀ u ∈ us, u.isFailure = false) :
    e'.job.errorMessage = e.job.errorMessage := by
  induction hs with
  | nil => rfl
  | cons h _ ih =>
    rw [ih fun u hu => hus u (List.mem_cons_of_mem _ hu)]
    have hok := hus _ List.mem_cons_self
    cases h <;> simp_all [Update.isFailure]

/-- Where a job stands after a list of steps that does not fail it: at the last report. -/
theorem Steps.lastReport_eq {id : JobId} {created : Timestamp} {metadata : ProjectMetadata}
    {files : List SourceFile} (hs : (Entry.new id created metadata files).Steps us e)
    (hus : ∀ u ∈ us, u.isFailure = false) : lastReport us = (e.job.status, e.job.progress) := by
  have hlast := (hs.keep Consistent.step (consistent_new id created metadata files)).history_last
  rw [hs.history_eq hus, Entry.new, List.singleton_append, List.getLast?_cons,
    Option.some.injEq] at hlast
  exact hlast

/-- A file that is waiting is there under its name and has not been dealt with. -/
theorem uploaded_of_awaits {files : List JobFile} {index : Nat} {filename : String}
    (h : awaits files index filename = true) :
    ∃ file, files[index]? = some file ∧ file.status = .uploaded := by
  unfold awaits at h
  split at h
  · next file hfile =>
    rw [Bool.and_eq_true, decide_eq_true_eq] at h
    exact ⟨file, hfile, h.2⟩
  · simp at h

theorem countP_markAt {files : List JobFile} {index : Nat} {file : JobFile} (time : Timestamp)
    (hfile : files[index]? = some file) (huploaded : file.status = .uploaded) :
    (markAt files index time).countP (·.status = .processed) =
      files.countP (·.status = .processed) + 1 := by
  induction files generalizing index with
  | nil => simp at hfile
  | cons first rest ih =>
    cases index with
    | zero =>
      rw [List.getElem?_cons_zero, Option.some.injEq] at hfile
      subst hfile
      simp [markAt, JobFile.marked, huploaded]
    | succ index =>
      have hrest := ih hfile
      simp only [markAt] at hrest
      simp only [markAt, List.modify_succ_cons, List.countP_cons, hrest]
      omega

theorem Step.filesProcessed_eq (h : e.Step now u e') :
    e'.job.filesProcessed = e.job.filesProcessed + (markedPlaces [u]).length := by
  cases h with
  | @processed index filename time hopen hawaits =>
    obtain ⟨file, hfile, huploaded⟩ := uploaded_of_awaits hawaits
    exact countP_markAt time hfile huploaded
  | _ => rfl

theorem Steps.filesProcessed_eq (hs : e.Steps us e') :
    e'.job.filesProcessed = e.job.filesProcessed + (markedPlaces us).length := by
  induction hs with
  | nil => rfl
  | @cons now u us e mid e' h _ ih =>
    rw [ih, h.filesProcessed_eq, markedPlaces_cons u us, List.length_append, Nat.add_assoc]

theorem Steps.filesProcessed_of_new {id : JobId} {created : Timestamp}
    {metadata : ProjectMetadata} {files : List SourceFile}
    (hs : (Entry.new id created metadata files).Steps us e) :
    e.job.filesProcessed = (markedPlaces us).length := by
  have hnone : (Entry.new id created metadata files).job.filesProcessed = 0 := by
    simp [Entry.new, Job.new, Job.filesProcessed, JobFile.ofSource, List.countP_eq_zero]
  rw [hs.filesProcessed_eq, hnone, Nat.zero_add]

end Entry

end LegacyAudit
