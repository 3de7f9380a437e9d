import LegacyAudit.Job.Status
import Mathlib.Data.UInt

/-!
# Progress between the bounds of a scan

While files are scanned, progress goes from 25 to 49 in proportion to the files that are done. The
proportion is worked out in words of 64 bits, and the product comes before the quotient. As long as
the product fits into its word, progress is the exact proportion, rounded down. Otherwise there is
no progress, also where the proportion would have been within the bounds.

## Main definitions

- `scanShare` - the part of the span that is scanned
- `ProductFits` - the product fits into its word
- `StaysInWords` - no step leaves its word
- `scanningProgress?_eq` - what the words come to
- `scanningProgress?_interpolates` - progress is exact, and there is some if the product fits
-/

namespace LegacyAudit

variable {earlier done total : UInt64} {progress : UInt8}

/-- The part of the span of 24 that is scanned when `done` of `n` files are. -/
def scanShare (n done : Nat) : Nat :=
  24 * done / n

theorem scanShare_zero (n : Nat) : scanShare n 0 = 0 := by
  simp [scanShare]

theorem scanShare_self {n : Nat} (hn : 0 < n) : scanShare n n = 24 :=
  Nat.mul_div_cancel 24 hn

theorem scanShare_mono (n : Nat) {a b : Nat} (h : a ≤ b) : scanShare n a ≤ scanShare n b :=
  Nat.div_le_div_right (Nat.mul_le_mul_left 24 h)

theorem scanShare_le {n done : Nat} (h : done ≤ n) : scanShare n done ≤ 24 := by
  rcases Nat.eq_zero_or_pos n with rfl | hn
  · simp [scanShare]
  · exact (scanShare_mono n h).trans_eq (scanShare_self hn)

theorem scanShare_min_le (n done : Nat) : scanShare n (min done n) ≤ 24 :=
  scanShare_le (Nat.min_le_right done n)

theorem scanShare_eq_iff {n done : Nat} (hn : 0 < n) (h : done ≤ n) :
    scanShare n done = 24 ↔ done = n := by
  constructor
  · intro hshare
    have hmul : 24 * n ≤ 24 * done := (Nat.le_div_iff_mul_le hn).mp hshare.ge
    omega
  · rintro rfl
    exact scanShare_self hn

/-- The product of the span and the files that are done fits into a word of 64 bits. -/
def ProductFits (done total : UInt64) : Prop :=
  24 * min done.toNat total.toNat < UInt64.size

instance : Decidable (ProductFits done total) :=
  inferInstanceAs (Decidable (_ < _))

/-- The result of every step, worked out in natural numbers, fits into the word that is to hold
it. -/
structure StaysInWords (done total : UInt64) : Prop where
  span : scanningStart ≤ scanningEnd
  product : (scanningEnd - scanningStart).toNat * (min done total).toNat < UInt64.size
  share : (scanningEnd - scanningStart).toNat * (min done total).toNat / total.toNat < UInt8.size
  sum : scanningStart.toNat +
    (scanningEnd - scanningStart).toNat * (min done total).toNat / total.toNat < UInt8.size

theorem staysInWords_iff : StaysInWords done total ↔ ProductFits done total := by
  have hspan : (scanningEnd - scanningStart).toNat = 24 := by decide
  have hshare := scanShare_min_le total.toNat done.toNat
  constructor
  · intro h
    have hproduct := h.product
    rwa [hspan, UInt64.toNat_min] at hproduct
  · intro h
    refine ⟨by decide, ?_, ?_, ?_⟩
    all_goals rw [hspan, UInt64.toNat_min]
    · exact h
    · exact Nat.lt_of_le_of_lt hshare (by decide)
    · exact Nat.lt_of_le_of_lt (Nat.add_le_add_left hshare _) (by decide)

theorem umulOverflow_iff :
    (24 : UInt64).toBitVec.umulOverflow (min done total).toBitVec ↔ ¬ProductFits done total := by
  have hspan : (24 : UInt64).toBitVec.toNat = 24 := by decide
  have hscanned : (min done total).toBitVec.toNat = min done.toNat total.toNat :=
    UInt64.toNat_min done total
  rw [BitVec.umulOverflow, hspan, hscanned, decide_eq_true_eq, ProductFits, Nat.not_lt]

theorem toNat_pos_of_ne_zero (htotal : total ≠ 0) : 0 < total.toNat := by
  rw [Nat.pos_iff_ne_zero]
  exact fun h => htotal (UInt64.toNat_inj.mp h)

/-- The progress when a part of the span is scanned. -/
def shareProgress (share : Nat) : UInt8 :=
  .ofNat (25 + share)

theorem toNat_shareProgress {share : Nat} (h : share ≤ 24) :
    (shareProgress share).toNat = 25 + share := by
  rw [shareProgress, UInt8.toNat_ofNat']
  omega

theorem shareProgress_lt {a b : Nat} (hb : b ≤ 24) (h : a < b) :
    shareProgress a < shareProgress b := by
  rw [UInt8.lt_iff_toNat_lt, toNat_shareProgress hb, toNat_shareProgress (by omega)]
  omega

theorem shareProgress_le {a b : Nat} (hb : b ≤ 24) (h : a ≤ b) :
    shareProgress a ≤ shareProgress b := by
  rw [UInt8.le_iff_toNat_le, toNat_shareProgress hb, toNat_shareProgress (by omega)]
  omega

theorem shareProgress_bounds {share : Nat} (h : share ≤ 24) :
    25 ≤ shareProgress share ∧ shareProgress share ≤ 49 :=
  ⟨shareProgress_le h (Nat.zero_le share), shareProgress_le (Nat.le_refl 24) h⟩

theorem shareProgress_eq_end_iff {share : Nat} (h : share ≤ 24) :
    shareProgress share = 49 ↔ share = 24 := by
  have hend : (49 : UInt8).toNat = 49 := rfl
  rw [← UInt8.toNat_inj, toNat_shareProgress h, hend]
  omega

theorem scanningProgress?_zero (done : UInt64) : scanningProgress? done 0 = some 49 :=
  if_pos rfl

/-- What the words of a scan come to. The product is the only step that can overflow. -/
theorem scanningProgress?_eq (htotal : total ≠ 0) :
    scanningProgress? done total =
      if ProductFits done total then
        some (shareProgress (scanShare total.toNat (min done.toNat total.toNat)))
      else none := by
  have hspan : (scanningEnd - scanningStart).toUInt64 = 24 := by decide
  have hstart : scanningStart.toNat = 25 := rfl
  have hshare := scanShare_min_le total.toNat done.toNat
  rw [scanningProgress?, if_neg htotal]
  simp only [hspan, umulOverflow_iff, ite_not]
  split
  · next hfits =>
    have hproduct : 24 * min done.toNat total.toNat < 2 ^ 64 := hfits
    have hquotient : (24 * min done total / total).toNat =
        scanShare total.toNat (min done.toNat total.toNat) := by
      rw [UInt64.toNat_div, UInt64.toNat_mul, UInt64.toNat_min, scanShare]
      exact congrArg (· / total.toNat) (Nat.mod_eq_of_lt hproduct)
    rw [Option.some.injEq, ← UInt8.toNat_inj, toNat_shareProgress hshare]
    simp only [UInt8.toNat_add, UInt64.toNat_toUInt8, hquotient, hstart]
    omega
  · rfl

theorem scanningProgress?_eq_none_iff :
    scanningProgress? done total = none ↔ ¬ProductFits done total := by
  by_cases htotal : total = 0
  · rw [htotal, scanningProgress?_zero]
    simp [ProductFits]
  · rw [scanningProgress?_eq htotal]
    simp

theorem scanningProgress?_eq_some (htotal : total ≠ 0)
    (h : scanningProgress? done total = some progress) :
    progress = shareProgress (scanShare total.toNat (min done.toNat total.toNat)) := by
  rw [scanningProgress?_eq htotal] at h
  split at h
  · exact (Option.some.inj h).symm
  · cases h

theorem scanningProgress?_bounds (h : scanningProgress? done total = some progress) :
    25 ≤ progress ∧ progress ≤ 49 := by
  by_cases htotal : total = 0
  · rw [htotal, scanningProgress?_zero] at h
    cases h
    decide
  · rw [scanningProgress?_eq_some htotal h]
    exact shareProgress_bounds (scanShare_min_le _ _)

/-- A scan is at its end exactly if all files are done. -/
theorem scanningProgress?_eq_end_iff (htotal : total ≠ 0)
    (h : scanningProgress? done total = some progress) : progress = 49 ↔ total ≤ done := by
  have hle : min done.toNat total.toNat ≤ total.toNat := Nat.min_le_right _ _
  rw [scanningProgress?_eq_some htotal h, shareProgress_eq_end_iff (scanShare_le hle),
    scanShare_eq_iff (toNat_pos_of_ne_zero htotal) hle, UInt64.le_iff_toNat_le]
  omega

theorem ProductFits.mono (h : ProductFits done total) (hle : earlier ≤ done) :
    ProductFits earlier total := by
  have hdone := UInt64.le_iff_toNat_le.mp hle
  rw [ProductFits] at h ⊢
  omega

theorem productFits_of_eq_some (h : scanningProgress? done total = some progress) :
    ProductFits done total := by
  by_contra hover
  rw [scanningProgress?_eq_none_iff.mpr hover] at h
  cases h

/-- Where there is progress, there was some before, and it has not fallen. -/
theorem exists_scanningProgress?_le (hle : earlier ≤ done)
    (h : scanningProgress? done total = some progress) :
    ∃ before, scanningProgress? earlier total = some before ∧ before ≤ progress := by
  by_cases htotal : total = 0
  · rw [htotal, scanningProgress?_zero] at h ⊢
    exact ⟨progress, h, UInt8.le_refl progress⟩
  · have hfits : ProductFits earlier total := (productFits_of_eq_some h).mono hle
    have hearlier := UInt64.le_iff_toNat_le.mp hle
    have hshare : scanShare total.toNat (min earlier.toNat total.toNat) ≤
        scanShare total.toNat (min done.toNat total.toNat) := scanShare_mono _ (by omega)
    rw [scanningProgress?_eq htotal, if_pos hfits, scanningProgress?_eq_some htotal h]
    exact ⟨_, rfl, shareProgress_le (scanShare_min_le _ _) hshare⟩

/-- There is progress exactly if the product fits, and no other step can overflow. Progress keeps
between its bounds, and at 49 where there are no files. Otherwise it is the exact proportion,
rounded down, and it is at 49 exactly if all files are done. It has not fallen before. -/
theorem scanningProgress?_interpolates (done total : UInt64) :
    (scanningProgress? done total = none ↔ ¬ProductFits done total) ∧
      (StaysInWords done total ↔ ProductFits done total) ∧
      ∀ progress, scanningProgress? done total = some progress →
        (25 ≤ progress ∧ progress ≤ 49) ∧
        (total = 0 → progress = 49) ∧
        (total ≠ 0 →
          progress.toNat = 25 + scanShare total.toNat (min done.toNat total.toNat) ∧
          (progress = 49 ↔ total ≤ done)) ∧
        ∀ earlier ≤ done,
          ∃ before, scanningProgress? earlier total = some before ∧ before ≤ progress := by
  refine ⟨scanningProgress?_eq_none_iff, staysInWords_iff, fun progress h => ?_⟩
  refine ⟨scanningProgress?_bounds h, ?_, fun htotal => ⟨?_, ?_⟩, ?_⟩
  · rintro rfl
    rw [scanningProgress?_zero] at h
    exact (Option.some.inj h).symm
  · rw [scanningProgress?_eq_some htotal h, toNat_shareProgress (scanShare_min_le _ _)]
  · exact scanningProgress?_eq_end_iff htotal h
  · exact fun _ hle => exists_scanningProgress?_le hle h

/-- Nothing overflows when 999 of 1000 files are done, and something is left of the span. -/
theorem scanningProgress?_interpolates_thousand :
    StaysInWords 999 1000 ∧ ∃ progress, scanningProgress? 999 1000 = some progress ∧
      progress.toNat = 25 + scanShare 1000 999 ∧ progress ≠ 49 := by
  obtain ⟨_, hstays, hprogress⟩ := scanningProgress?_interpolates 999 1000
  have hsome : scanningProgress? 999 1000 = some 48 := by decide
  obtain ⟨_, _, hexact, _⟩ := hprogress 48 hsome
  obtain ⟨hshare, hend⟩ := hexact (by decide)
  exact ⟨hstays.mpr (by decide), 48, hsome, hshare, fun h => absurd (hend.mp h) (by decide)⟩

/-- The product of 24 and 10¹⁸ overflows. So a scan of as many files has no progress in the end,
where the proportion is 49; when half of them are done it stands at 37. -/
theorem scanningProgress?_overflows :
    ¬StaysInWords 1000000000000000000 1000000000000000000 ∧
      scanningProgress? 1000000000000000000 1000000000000000000 = none ∧
      25 + scanShare 1000000000000000000 1000000000000000000 = 49 ∧
      scanningProgress? 500000000000000000 1000000000000000000 = some 37 := by
  refine ⟨fun h => ?_, by decide, by decide, by decide⟩
  exact absurd (staysInWords_iff.mp h) (by decide)

end LegacyAudit
