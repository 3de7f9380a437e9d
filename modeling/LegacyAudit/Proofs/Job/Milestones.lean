import LegacyAudit.Proofs.Job.Completion

/-!
# What a complete run reports

While files are scanned, progress is reported whenever it exceeds what was reported last. The values
are a matter of the number of files alone: up to 24 files every file brings a new value, and with
more of them every value from 26 to 49 comes up once. So the history of a complete run is known
beforehand, whatever becomes of the files.

## Main definitions

- `milestones` - the values that a scan reports
- `completeHistory` - the history of a complete run
- `Storage.Faithful.runJob_history` - complete runs have no other history

## Design notes

The span times the number of files has to fit into a word of 64 bits. It does for every list that
fits into memory; for other lengths the interpolation has no value.
-/

namespace LegacyAudit

theorem scanShare_lt {n a b : Nat} (hn : 0 < n) (hle : n ≤ 24) (h : a < b) :
    scanShare n a < scanShare n b := by
  calc scanShare n a
      < 24 * a / n + 1 := Nat.lt_succ_self _
    _ = (24 * a + n) / n := (Nat.add_div_right _ hn).symm
    _ ≤ scanShare n b := Nat.div_le_div_right (by omega)

theorem scanShare_succ_le {n : Nat} (hle : 24 ≤ n) (done : Nat) :
    scanShare n (done + 1) ≤ scanShare n done + 1 := by
  have hn : 0 < n := by omega
  calc scanShare n (done + 1)
      ≤ (24 * done + n) / n := Nat.div_le_div_right (by omega)
    _ = scanShare n done + 1 := Nat.add_div_right _ hn

/-- For every list that fits into memory there is progress, which is the share of the scan in
natural numbers. -/
theorem scanningProgress?_ofNat {n : Nat} (done : Nat) (hn : 0 < n) (hdone : done ≤ n)
    (hsmall : 24 * n < UInt64.size) :
    scanningProgress? (.ofNat done) (.ofNat n) = some (shareProgress (scanShare n done)) := by
  have hsize : UInt64.size = 2 ^ 64 := rfl
  have htotal : (UInt64.ofNat n).toNat = n := UInt64.toNat_ofNat_of_lt' (by omega)
  have hfiles : (UInt64.ofNat done).toNat = done := UInt64.toNat_ofNat_of_lt' (by omega)
  have hne : UInt64.ofNat n ≠ 0 := by
    intro h
    rw [h] at htotal
    exact absurd htotal (Nat.ne_of_lt hn)
  have hfits : ProductFits (.ofNat done) (.ofNat n) := by
    rw [ProductFits, hfiles, htotal]
    omega
  rw [scanningProgress?_eq hne, if_pos hfits, hfiles, htotal, Nat.min_eq_left hdone]

theorem progressAfter_eq {n : Nat} (done : Nat) (hn : 0 < n) (hdone : done ≤ n)
    (hsmall : 24 * n < UInt64.size) :
    progressAfter done n = shareProgress (scanShare n done) := by
  rw [progressAfter, scanningProgress?_ofNat done hn hdone hsmall, Option.getD_some]

theorem scanSteps_of_le {n : Nat} (hle : n ≤ 24) (left index : Nat) (hindex : index + left = n) :
    scanSteps n left index (shareProgress (scanShare n index)) =
      (List.range' (index + 1) left).map fun done => shareProgress (scanShare n done) := by
  induction left generalizing index with
  | zero => rfl
  | succ left ih =>
    have hn : 0 < n := by omega
    have hsmall : 24 * n < UInt64.size :=
      Nat.lt_of_le_of_lt (Nat.mul_le_mul_left 24 hle) (by decide)
    have hnext := progressAfter_eq (index + 1) hn (by omega) hsmall
    have hlt : shareProgress (scanShare n index) < shareProgress (scanShare n (index + 1)) :=
      shareProgress_lt (scanShare_le (by omega)) (scanShare_lt hn hle (Nat.lt_succ_self index))
    rw [scanSteps, hnext, if_pos hlt, ih (index + 1) (by omega), List.range'_succ, List.map_cons]

theorem scanSteps_of_ge {n : Nat} (hle : 24 ≤ n) (hsmall : 24 * n < UInt64.size) (left index : Nat)
    (hindex : index + left = n) :
    scanSteps n left index (shareProgress (scanShare n index)) =
      (List.range' (scanShare n index + 1) (24 - scanShare n index)).map shareProgress := by
  have hn : 0 < n := by omega
  induction left generalizing index with
  | zero =>
    have hshare : scanShare n index = 24 := by
      rw [show index = n by omega, scanShare_self hn]
    rw [hshare]
    rfl
  | succ left ih =>
    have hnext := progressAfter_eq (index + 1) hn (by omega) hsmall
    have hbound : scanShare n (index + 1) ≤ 24 := scanShare_le (by omega)
    have hmono := scanShare_mono n (Nat.le_add_right index 1)
    have hsucc := scanShare_succ_le hle index
    have hrest := ih (index + 1) (by omega)
    rw [scanSteps, hnext]
    -- A file brings no new share or the next one; a share that was skipped would never come up.
    by_cases hsame : scanShare n (index + 1) = scanShare n index
    · rw [hsame] at hrest ⊢
      rw [if_neg (UInt8.lt_irrefl _), hrest]
    · have hstep : scanShare n (index + 1) = scanShare n index + 1 := by omega
      have hleft : 24 - scanShare n index = (24 - scanShare n (index + 1)) + 1 := by omega
      rw [if_pos (shareProgress_lt hbound (by omega)), hrest, hleft, List.range'_succ, hstep,
        List.map_cons]

/-- The values that a scan of `n` files reports. They cut the span into equal parts, one for every
file or one for every value, whichever are fewer. -/
def milestones (n : Nat) : List UInt8 :=
  (List.range' 1 (min n 24)).map fun part => shareProgress (scanShare (min n 24) part)

theorem scanSteps_eq_milestones {n : Nat} (hsmall : 24 * n < UInt64.size) :
    scanSteps n n 0 (progressAfter 0 n) = milestones n := by
  rcases Nat.eq_zero_or_pos n with rfl | hn
  · rfl
  have hstart : progressAfter 0 n = shareProgress (scanShare n 0) :=
    progressAfter_eq 0 hn (Nat.zero_le n) hsmall
  rw [hstart, milestones]
  rcases Nat.le_total n 24 with hle | hle
  · rw [scanSteps_of_le hle n 0 (Nat.zero_add n), Nat.min_eq_left hle]
  · rw [scanSteps_of_ge hle hsmall n 0 (Nat.zero_add n), Nat.min_eq_right hle, scanShare_zero]
    decide

/-- What is to be said about the milestones of a scan of `n` files. -/
structure Milestones (n : Nat) (values : List UInt8) : Prop where
  length_eq : values.length = min n 24
  increasing : values.Pairwise (· < ·)
  bounds : ∀ value ∈ values, 26 ≤ value ∧ value ≤ 49
  last : 0 < n → values.getLast? = some 49

theorem milestones_spec (n : Nat) : Milestones n (milestones n) where
  length_eq := by simp [milestones]
  increasing := by
    rw [milestones, List.pairwise_map]
    refine (List.pairwise_lt_range' 1 Nat.one_pos).imp_of_mem ?_
    intro a b _ hb hab
    rw [List.mem_range'_1] at hb
    exact shareProgress_lt (scanShare_le (by omega)) (scanShare_lt (by omega) (by omega) hab)
  bounds := by
    intro value hvalue
    obtain ⟨part, hpart, rfl⟩ := List.mem_map.mp hvalue
    rw [List.mem_range'_1] at hpart
    have hpos : scanShare (min n 24) 0 < scanShare (min n 24) part :=
      scanShare_lt (by omega) (by omega) (by omega)
    have hle : scanShare (min n 24) part ≤ 24 := scanShare_le (by omega)
    rw [scanShare_zero] at hpos
    have hlow : (26 : UInt8).toNat = 26 := rfl
    have hhigh : (49 : UInt8).toNat = 49 := rfl
    rw [UInt8.le_iff_toNat_le, UInt8.le_iff_toNat_le, toNat_shareProgress hle, hlow, hhigh]
    omega
  last := by
    intro hn
    obtain ⟨k, hk⟩ : ∃ k, min n 24 = k + 1 := ⟨min n 24 - 1, by omega⟩
    have hshare : scanShare (min n 24) (min n 24) = 24 := scanShare_self (by omega)
    -- the last milestone stands for the whole of the scan
    rw [milestones, hk, List.range'_concat, List.map_append, List.map_singleton,
      List.getLast?_concat, ← hk]
    rw [show 1 + 1 * k = min n 24 by omega, hshare]
    rfl

/-- The history of a complete run over `n` files. -/
def completeHistory (n : Nat) : List (JobStatus × UInt8) :=
  [(.pending, 0), (.processing, 10), (.scanningCode, 25)] ++
    (milestones n).map (.scanningCode, ·) ++
    [(.analyzingDependencies, 50), (.generatingRecommendations, 75), (.completed, 100)]

theorem length_completeHistory (n : Nat) : (completeHistory n).length = 6 + min n 24 := by
  simp only [completeHistory, List.length_append, List.length_map, (milestones_spec n).length_eq,
    List.length_cons, List.length_nil]
  omega

theorem planReports_eq {n : Nat} (hsmall : 24 * n < UInt64.size) :
    (.pending, 0) :: planReports n = completeHistory n := by
  rw [planReports, scanSteps_eq_milestones hsmall, completeHistory]
  rfl

variable {σ : Type} {storage : Storage σ} {store : σ → Store} {s : σ} {id : JobId}
  {created : Timestamp} {metadata : ProjectMetadata} {files : List SourceFile}
  {outcomes : List FileOutcome}

/-- A run of a new job on a faithful storage leaves the history of a complete run over as many
files, whatever becomes of them. -/
theorem Storage.Faithful.runJob_history (h : storage.Faithful store) (clock : MarkClock)
    (houtcomes : OutcomesOf files outcomes)
    (hnew : (store s).find? id = some (.new id created metadata files))
    (hsmall : 24 * files.length < UInt64.size) :
    ∃ final job, runJob storage id clock outcomes s = (.finished, final) ∧
      (store final).getJob? id = some job ∧ job.status = .completed ∧
      (store final).history id = completeHistory files.length ∧
      (completeHistory files.length).length = 6 + min files.length 24 ∧
      Milestones files.length (milestones files.length) := by
  obtain ⟨final, e, hrun, hsteps, hfinal⟩ := h.execute_plan clock houtcomes hnew
  have hcomplete := completion_of_steps houtcomes hsteps
  have hhistory : e.history = completeHistory files.length := by
    rw [hsteps.history_eq fun _ => isFailure_of_mem_plan, plan_reports, ← houtcomes.length_eq,
      ← planReports_eq hsmall]
    rfl
  refine ⟨final, e.job, runJob_of_accepted hrun, Store.getJob?_of_find? hfinal, hcomplete.status,
    ?_, length_completeHistory _, milestones_spec _⟩
  rw [Store.history, hfinal]
  exact hhistory

/-- The sample reports one value for each of its three files, the one that crashes included. -/
theorem sample_history :
    ∃ final job, runJob (Store.storage default) ⟨7⟩ (default : Timestamp) sampleOutcomes
        sampleStore = (.finished, final) ∧
      final.getJob? ⟨7⟩ = some job ∧ job.status = .completed ∧
      final.history ⟨7⟩ = [(.pending, 0), (.processing, 10), (.scanningCode, 25),
        (.scanningCode, 33), (.scanningCode, 41), (.scanningCode, 49),
        (.analyzingDependencies, 50), (.generatingRecommendations, 75), (.completed, 100)] := by
  obtain ⟨final, job, hrun, hjob, hstatus, hhistory, _⟩ :=
    (Store.storage_faithful default).runJob_history (fun _ => default) outcomesOf_sample
      find?_sampleStore (by decide)
  exact ⟨final, job, hrun, hjob, hstatus, hhistory.trans (by decide)⟩

end LegacyAudit
