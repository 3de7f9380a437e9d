import LegacyAudit.Proofs.Job.Requests

/-!
# Later reads extend earlier ones

A reader who comes back to a job finds what was there before, and beyond it what was accepted in
between, in that order. What a job was submitted with never changes, a file is marked once, and a
job that has ended stays as it is.

## Main definitions

- `Reading` - what the reads of a job and of its history return
- `Reading.Extends` - a later reading in terms of an earlier one and the accepted updates between
- `Store.reads_extend` - readings of the same job extend one another

## Design notes

Identifiers are not given out twice. A job that is created again under the identifier of another one
would take the place of that job.
-/

namespace LegacyAudit

def JobFile.submitted (file : JobFile) : String × Language × UInt64 :=
  (file.filename, file.language, file.size)

namespace Entry

variable {now : Timestamp} {u : Update} {us : List Update} {e mid e' : Entry}

/-- What stays of an entry whatever its job goes through. -/
structure Continues (e e' : Entry) : Prop where
  metadata : e'.job.metadata = e.job.metadata
  createdAt : e'.job.createdAt = e.job.createdAt
  progress : e.job.progress ≤ e'.job.progress
  history : e.history <+: e'.history
  files : e'.job.files.map JobFile.submitted = e.job.files.map JobFile.submitted
  processed : ∀ (i : Nat) (file : JobFile), e.job.files[i]? = some file →
    file.status = .processed → e'.job.files[i]? = some file

theorem Continues.refl (e : Entry) : e.Continues e where
  metadata := rfl
  createdAt := rfl
  progress := UInt8.le_refl _
  history := List.prefix_refl _
  files := rfl
  processed := fun _ _ h _ => h

theorem Continues.trans (h : e.Continues mid) (h' : mid.Continues e') : e.Continues e' where
  metadata := h'.metadata.trans h.metadata
  createdAt := h'.createdAt.trans h.createdAt
  progress := UInt8.le_trans h.progress h'.progress
  history := h.history.trans h'.history
  files := h'.files.trans h.files
  processed := fun i file hfile hstatus =>
    h'.processed i file (h.processed i file hfile hstatus) hstatus

theorem map_submitted_markAt (files : List JobFile) (index : Nat) (time : Timestamp) :
    (markAt files index time).map JobFile.submitted = files.map JobFile.submitted := by
  apply List.ext_getElem?
  intro i
  rw [List.getElem?_map, getElem?_markAt, Option.map_map, List.getElem?_map]
  congr 1
  funext file
  by_cases hi : index = i <;> simp [hi, JobFile.marked, JobFile.submitted]

/-- Steps that leave the place, the files and the origin of a job alone continue its entry. -/
theorem continues_of_eq {job : Job} {machine : Machine} {reports : List (JobStatus × UInt8)}
    (hmetadata : job.metadata = e.job.metadata) (hcreatedAt : job.createdAt = e.job.createdAt)
    (hprogress : e.job.progress ≤ job.progress) (hfiles : job.files = e.job.files) :
    e.Continues ⟨job, machine, e.history ++ reports⟩ where
  metadata := hmetadata
  createdAt := hcreatedAt
  progress := hprogress
  history := List.prefix_append _ _
  files := by rw [hfiles]
  processed := fun i file hfile _ => hfiles ▸ hfile

theorem Step.continues (he : e.Consistent) (h : e.Step now u e') : e.Continues e' := by
  cases h with
  | advanced _ hallowed =>
    exact continues_of_eq rfl rfl (he.progress_eq ▸ hallowed.monotone) rfl
  | abandoned => exact continues_of_eq rfl rfl (he.progress_eq ▸ UInt8.le_refl _) rfl
  | failed => exact continues_of_eq rfl rfl (UInt8.le_refl _) rfl
  | finding => exact { Continues.refl e with }
  | recommendation => exact { Continues.refl e with }
  | dependency => exact { Continues.refl e with }
  | @processed index filename time hopen hawaits =>
    refine
      { metadata := rfl
        createdAt := rfl
        progress := UInt8.le_refl _
        history := List.prefix_refl _
        files := map_submitted_markAt ..
        processed := ?_ }
    intro i file hfile hstatus
    obtain ⟨waiting, hwaiting, huploaded⟩ := uploaded_of_awaits hawaits
    have hne : index ≠ i := by
      rintro rfl
      rw [hfile, Option.some.injEq] at hwaiting
      simp [hwaiting, huploaded] at hstatus
    rw [getElem?_markAt, hfile]
    simp [hne]

theorem Steps.continues (he : e.Consistent) (hs : e.Steps us e') : e.Continues e' := by
  induction hs with
  | nil => exact .refl _
  | cons h _ ih => exact (h.continues he).trans (ih (he.step h))

theorem Step.markedPlaces_spec (h : e.Step now u e') :
    (markedPlaces [u]).Nodup ∧ ∀ i ∈ markedPlaces [u],
      ∃ file, e.job.files[i]? = some file ∧ file.status = .uploaded := by
  cases h with
  | @processed index filename time hopen hawaits =>
    have hwaiting := uploaded_of_awaits hawaits
    exact ⟨List.nodup_singleton index, by simpa [markedPlaces, Update.mark?] using hwaiting⟩
  | _ => exact ⟨List.nodup_nil, by simp [markedPlaces, Update.mark?]⟩

/-- A file that is not dealt with after a step was not dealt with before it, and is not the one that
the step has marked. -/
theorem Step.uploaded_before (he : e.Consistent) (h : e.Step now u e') {i : Nat} {file : JobFile}
    (hfile : e'.job.files[i]? = some file) (huploaded : file.status = .uploaded) :
    (∃ before, e.job.files[i]? = some before ∧ before.status = .uploaded) ∧
      i ∉ markedPlaces [u] := by
  have hlength : e.job.files.length = e'.job.files.length := by
    simpa using (congrArg List.length (h.continues he).files).symm
  have hi : i < e.job.files.length := by
    rw [hlength]
    exact (List.getElem?_eq_some_iff.mp hfile).1
  constructor
  · refine ⟨e.job.files[i], List.getElem?_eq_getElem hi, ?_⟩
    -- a file that was dealt with before would have stayed so
    cases hbefore : e.job.files[i].status with
    | uploaded => rfl
    | processed =>
      have hstays := (h.continues he).processed i _ (List.getElem?_eq_getElem hi) hbefore
      rw [hfile, Option.some.injEq] at hstays
      rw [hstays, hbefore] at huploaded
      exact absurd huploaded (by simp)
  · cases h with
    | @processed index filename time hopen hawaits =>
      intro hmem
      have hindex : i = index := by simpa [markedPlaces, Update.mark?] using hmem
      rw [getElem?_markAt, List.getElem?_eq_getElem hi, Option.map_some, if_pos hindex.symm,
        Option.some.injEq] at hfile
      subst hfile
      simp [JobFile.marked] at huploaded
    | _ => simp [markedPlaces, Update.mark?]

/-- No file is marked twice, and only files that have not been dealt with are marked. -/
theorem Steps.markedPlaces_spec (he : e.Consistent) (hs : e.Steps us e') :
    (markedPlaces us).Nodup ∧ ∀ i ∈ markedPlaces us,
      ∃ file, e.job.files[i]? = some file ∧ file.status = .uploaded := by
  induction hs with
  | nil => simp [markedPlaces]
  | @cons now u us e mid e' h _ ih =>
    obtain ⟨hnodup, hwaiting⟩ := ih (he.step h)
    -- What is marked later is still waiting after this step, so it was waiting before it as well.
    have hbefore : ∀ i ∈ markedPlaces us,
        (∃ file, e.job.files[i]? = some file ∧ file.status = .uploaded) ∧ i ∉ markedPlaces [u] := by
      intro i hi
      obtain ⟨file, hfile, huploaded⟩ := hwaiting i hi
      exact h.uploaded_before he hfile huploaded
    obtain ⟨hone, hfirst⟩ := h.markedPlaces_spec
    rw [markedPlaces_cons u us]
    refine ⟨hone.append hnodup fun i hi hrest => (hbefore i hrest).2 hi, ?_⟩
    intro i hi
    rcases List.mem_append.mp hi with hi | hi
    · exact hfirst i hi
    · exact (hbefore i hi).1

theorem Consistent.not_step_of_terminal (he : e.Consistent)
    (hterminal : e.job.status.isTerminal = true) : ¬ e.Step now u e' := by
  have hmachine : e.machine.status.isTerminal = true := he.status_eq ▸ hterminal
  intro h
  cases h with
  | advanced _ hallowed =>
    simp [JobStatus.isTerminal_of_canBecome hallowed.canBecome] at hmachine
  | abandoned hopen => simp [hopen] at hmachine
  | failed hopen => simp [hopen] at hmachine
  | finding hopen => simp [hopen] at hterminal
  | recommendation hopen => simp [hopen] at hterminal
  | dependency hopen => simp [hopen] at hterminal
  | processed hopen => simp [hopen] at hterminal

theorem Steps.eq_of_terminal (he : e.Consistent) (hterminal : e.job.status.isTerminal = true)
    (hs : e.Steps us e') : us = [] ∧ e' = e := by
  cases hs with
  | nil => exact ⟨rfl, rfl⟩
  | cons h _ => exact absurd h (he.not_step_of_terminal hterminal)

end Entry

/-- What the reads of a job and of its history return. -/
structure Reading where
  job : Job
  history : List (JobStatus × UInt8)

/-- Reads a job that exists, and its history. -/
def Store.reading? (store : Store) (id : JobId) : Option Reading :=
  (store.getJob? id).map fun job => ⟨job, store.history id⟩

theorem Store.reading?_eq (store : Store) (id : JobId) :
    store.reading? id = (store.find? id).map fun e => ⟨e.job, e.history⟩ := by
  rw [reading?, getJob?, history]
  cases store.find? id <;> rfl

/-- A later reading of a job extends an earlier one by updates that were accepted in between. -/
structure Reading.Extends (later earlier : Reading) (us : List Update) : Prop where
  findings : later.job.findings = earlier.job.findings ++ us.filterMap Update.finding?
  recommendations :
    later.job.recommendations = earlier.job.recommendations ++ us.filterMap Update.recommendation?
  dependencies :
    later.job.dependencies = earlier.job.dependencies ++ us.filterMap Update.dependency?
  progress : earlier.job.progress ≤ later.job.progress
  history : earlier.history <+: later.history
  metadata : later.job.metadata = earlier.job.metadata
  createdAt : later.job.createdAt = earlier.job.createdAt
  /-- As many files as before, with the same names, languages and sizes. -/
  files : later.job.files.map JobFile.submitted = earlier.job.files.map JobFile.submitted
  /-- A file that has been dealt with stays as it is, its time included. -/
  processed : ∀ (i : Nat) (file : JobFile), earlier.job.files[i]? = some file →
    file.status = .processed → later.job.files[i]? = some file
  filesProcessed :
    later.job.filesProcessed = earlier.job.filesProcessed + (markedPlaces us).length
  /-- A job that has ended accepts nothing and stays as it is. -/
  ended : earlier.job.status.isTerminal = true → us = [] ∧ later = earlier

theorem Entry.Steps.extends {us : List Update} {e e' : Entry} (he : e.Consistent)
    (hs : e.Steps us e') : Reading.Extends ⟨e'.job, e'.history⟩ ⟨e.job, e.history⟩ us where
  findings := hs.findings_eq
  recommendations := hs.recommendations_eq
  dependencies := hs.dependencies_eq
  progress := (hs.continues he).progress
  history := (hs.continues he).history
  metadata := (hs.continues he).metadata
  createdAt := (hs.continues he).createdAt
  files := (hs.continues he).files
  processed := (hs.continues he).processed
  filesProcessed := hs.filesProcessed_eq
  ended := by
    intro hterminal
    obtain ⟨rfl, rfl⟩ := hs.eq_of_terminal he hterminal
    exact ⟨rfl, rfl⟩

theorem Store.refused_of_acceptedUpdates_eq_nil {store : Store} {id : JobId}
    {requests : List (Timestamp × Request)}
    (h : acceptedUpdates id (store.serveAll requests).1 = []) {x : Served}
    (hx : x ∈ (store.serveAll requests).1) {u : Update}
    (hrequest : x.request = .call (.update id u)) :
    ∃ err, x.response = .result (.error err) := by
  induction requests generalizing store with
  | nil => simp [serveAll] at hx
  | cons pair rest ih =>
    obtain ⟨now, request⟩ := pair
    rw [serveAll_cons] at h hx
    rw [acceptedUpdates, List.filterMap_cons] at h
    split at h
    · next hfirst =>
      rcases List.mem_cons.mp hx with rfl | hrest
      · have hcall : request = .call (.update id u) := hrequest
        subst hcall
        cases hresult : (store.perform now (.update id u)).1 with
        | error err => exact ⟨err, congrArg Response.result hresult⟩
        | ok value => simp [serve, hresult, Served.accepted?] at hfirst
      · exact ih h hrest
    · simp at h

/-- Readings of the same job extend one another, whatever is asked of the store and in whatever
order: the later one holds the earlier one and what was accepted in between. Over the whole life of
the job no file is marked twice, and as many files have been dealt with as were marked. -/
theorem Store.reads_extend {first between : List (Timestamp × Request)} {past served : List Served}
    {before after : Store} {id : JobId} {earlier : Reading}
    (hids : (createdIds (first ++ between)).Nodup)
    (hfirst : ({} : Store).serveAll first = (past, before))
    (hbetween : before.serveAll between = (served, after))
    (hearlier : before.reading? id = some earlier) :
    ∃ later, after.reading? id = some later ∧
      later.Extends earlier (acceptedUpdates id served) ∧
      (earlier.job.status.isTerminal = true → ∀ x ∈ served, ∀ u,
        x.request = .call (.update id u) → ∃ err, x.response = .result (.error err)) ∧
      (markedPlaces (acceptedUpdates id (past ++ served))).Nodup ∧
      later.job.filesProcessed = (markedPlaces (acceptedUpdates id (past ++ served))).length := by
  obtain ⟨rfl, rfl⟩ := Prod.mk.inj hfirst
  obtain ⟨rfl, rfl⟩ := Prod.mk.inj hbetween
  rw [reading?_eq, Option.map_eq_some_iff] at hearlier
  obtain ⟨e, he, rfl⟩ := hearlier
  rw [createdIds, List.filterMap_append, List.nodup_append'] at hids
  obtain ⟨hidsFirst, _, hdisjoint⟩ := hids
  obtain ⟨hcreated, created, metadata, files, hpast⟩ :=
    serveAll_steps_of_unknown (show find? {} id = none from rfl) hidsFirst he
  obtain ⟨e', he', hserved⟩ := serveAll_steps he (hdisjoint hcreated)
  have hnew : (Entry.new id created metadata files).Consistent := Entry.consistent_new ..
  have hconsistent : e.Consistent := hpast.keep Entry.Consistent.step hnew
  have hextends := hserved.extends hconsistent
  have hlife := hpast.append hserved
  refine ⟨⟨e'.job, e'.history⟩, ?_, hextends, ?_, ?_, ?_⟩
  · rw [reading?_eq, he']
    rfl
  · intro hterminal x hx u hrequest
    exact refused_of_acceptedUpdates_eq_nil (hextends.ended hterminal).1 hx hrequest
  · rw [acceptedUpdates, List.filterMap_append]
    exact (hlife.markedPlaces_spec hnew).1
  · rw [acceptedUpdates, List.filterMap_append]
    exact hlife.filesProcessed_of_new

/-- Two jobs are created, and the first one is begun. -/
def requestsOfBeginning : List (Timestamp × Request) :=
  [Call.create ⟨7⟩ ⟨"demo", none, none, .standard⟩ [⟨"notes", []⟩],
    .create ⟨8⟩ ⟨"other", none, none, .standard⟩ [],
    .update ⟨7⟩ (.status .processing 10)].map fun call => (default, .call call)

/-- A file of the first job is marked, marked again in vain, and the job fails. The other job goes
on beside it. -/
def requestsOfEnd : List (Timestamp × Request) :=
  [Call.update ⟨7⟩ (.processed 0 "notes" default), .update ⟨8⟩ (.status .processing 10),
    .update ⟨7⟩ (.processed 0 "notes" default), .update ⟨7⟩ (.failed "disk full"),
    .update ⟨7⟩ (.status .scanningCode 25)].map fun call => (default, .call call)

theorem reads_extend_failed :
    ∃ past before served after earlier later,
      ({} : Store).serveAll requestsOfBeginning = (past, before) ∧
      before.serveAll requestsOfEnd = (served, after) ∧
      before.reading? ⟨7⟩ = some earlier ∧ after.reading? ⟨7⟩ = some later ∧
      later.Extends earlier [.processed 0 "notes" default, .failed "disk full"] ∧
      later.job.filesProcessed = 1 := by
  obtain ⟨past, before, hfirst⟩ :
      ∃ past before, ({} : Store).serveAll requestsOfBeginning = (past, before) := ⟨_, _, rfl⟩
  obtain ⟨served, after, hbetween⟩ :
      ∃ served after, before.serveAll requestsOfEnd = (served, after) := ⟨_, _, rfl⟩
  have hearlier : ((({} : Store).serveAll requestsOfBeginning).2.reading? ⟨7⟩).isSome = true := by
    decide +kernel
  have haccepted : acceptedUpdates ⟨7⟩ ((({} : Store).serveAll requestsOfBeginning).2.serveAll
      requestsOfEnd).1 = [.processed 0 "notes" default, .failed "disk full"] := by decide +kernel
  have hpast : acceptedUpdates ⟨7⟩ (({} : Store).serveAll requestsOfBeginning).1 =
      [.status .processing 10] := by decide +kernel
  rw [hfirst] at hearlier haccepted hpast
  rw [hbetween] at haccepted
  obtain ⟨earlier, hearlier⟩ := Option.isSome_iff_exists.mp hearlier
  obtain ⟨later, hlater, hextends, _, _, hcount⟩ :=
    Store.reads_extend (by decide) hfirst hbetween hearlier
  refine ⟨past, before, served, after, earlier, later, hfirst, hbetween, hearlier, hlater,
    haccepted ▸ hextends, ?_⟩
  have hall : acceptedUpdates ⟨7⟩ (past ++ served) =
      acceptedUpdates ⟨7⟩ past ++ acceptedUpdates ⟨7⟩ served := List.filterMap_append
  rw [hcount, hall, hpast, haccepted]
  rfl

end LegacyAudit
