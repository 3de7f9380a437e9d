import LegacyAudit.Job.Id
import LegacyAudit.Proofs.Text.Decimal
import LegacyAudit.Timestamp
import Mathlib.Algebra.Ring.Nat
import Mathlib.Tactic.SplitIfs

/-!
# Written identifiers and points in time

Identifiers have one written form each. So have points in time, except for leap seconds in the
middle of a minute, which are written like the second behind them. The parts of a point in time have
fixed widths, except for the year, which ends in front of a hyphen.

## Main definitions

- `JobId.text_injective` - identifiers can be told by their texts
- `Timestamp.shown` - the point in time that a text shows
- `Timestamp.text_eq_iff` - texts tell what they show, and no more than that
- `Timestamp.IsCivil` - the points in time that are shown as they are
-/

namespace LegacyAudit

open LegacyAudit.Text

theorem mod_pow_eq_of_digits {base count m n : Nat}
    (h : ∀ place < count, m / base ^ place % base = n / base ^ place % base) :
    m % base ^ count = n % base ^ count := by
  induction count with
  | zero => simp [Nat.mod_one]
  | succ count ih =>
    rw [Nat.mod_pow_succ, Nat.mod_pow_succ, h count (by omega),
      ih fun place hplace => h place (by omega)]

theorem digitChar_ne_hyphen {n : Nat} (h : n < 16) : digitChar n ≠ '-' := by
  revert n
  decide

namespace JobId

theorem length_digits (id : JobId) : id.digits.length = 32 := by
  simp [digits]

theorem digits_injective : Function.Injective digits := by
  intro a b h
  have hdigit : ∀ place < 32,
      a.value.toNat / 16 ^ place % 16 = b.value.toNat / 16 ^ place % 16 := by
    intro place hplace
    have hplaces := List.map_inj_left.mp h (31 - place) (List.mem_range.mpr (by omega))
    rw [show 31 - (31 - place) = place by omega] at hplaces
    exact digitChar_inj (Nat.mod_lt _ (by omega)) (Nat.mod_lt _ (by omega)) hplaces
  have hvalue := mod_pow_eq_of_digits hdigit
  have ha : a.value.toNat < 16 ^ 32 := a.value.isLt
  have hb : b.value.toNat < 16 ^ 32 := b.value.isLt
  rw [Nat.mod_eq_of_lt ha, Nat.mod_eq_of_lt hb] at hvalue
  obtain ⟨a⟩ := a
  obtain ⟨b⟩ := b
  exact congrArg JobId.mk (BitVec.eq_of_toNat_eq hvalue)

theorem ne_hyphen_of_mem_digits {id : JobId} : ∀ c ∈ id.digits, c ≠ '-' := by
  intro c hc
  obtain ⟨place, _, rfl⟩ := List.mem_map.mp hc
  exact digitChar_ne_hyphen (Nat.mod_lt _ (by omega))

theorem flatten_cut (lengths : List Nat) (s : List Char) :
    (cut lengths s).flatten = s.take lengths.sum := by
  induction lengths generalizing s with
  | nil => rfl
  | cons n lengths ih => rw [cut, List.flatten_cons, ih, List.sum_cons, List.take_add]

theorem filter_intercalate {groups : List (List Char)} (h : ∀ c ∈ groups.flatten, c ≠ '-') :
    (['-'].intercalate groups).filter (· ≠ '-') = groups.flatten := by
  have hkeep : ∀ group : List Char, (∀ c ∈ group, c ≠ '-') →
      group.filter (fun c => decide (c ≠ '-')) = group := by
    intro group hgroup
    rw [List.filter_eq_self]
    exact fun c hc => decide_eq_true (hgroup c hc)
  induction groups with
  | nil => rfl
  | cons group rest ih =>
    rw [List.flatten_cons, List.forall_mem_append] at h
    cases rest with
    | nil => simpa [List.intercalate] using h.1
    | cons group' rest =>
      have hrest := ih h.2
      rw [List.intercalate] at hrest ⊢
      rw [List.intersperse_cons_cons, List.flatten_cons, List.flatten_cons, List.filter_append,
        List.filter_append, hrest, hkeep group h.1, List.flatten_cons (l := group)]
      rfl

theorem filter_text (id : JobId) : id.text.toList.filter (· ≠ '-') = id.digits := by
  have hflatten : (cut groupLengths id.digits).flatten = id.digits := by
    rw [flatten_cut, List.take_of_length_le]
    rw [length_digits]
    decide
  rw [text, String.toList_ofList, filter_intercalate, hflatten]
  rw [hflatten]
  exact ne_hyphen_of_mem_digits

theorem text_injective : Function.Injective text := by
  intro a b h
  apply digits_injective
  rw [← filter_text a, ← filter_text b, h]

end JobId

namespace Timestamp

/-- A leap second ends its minute, as on the clocks of civil time. -/
def IsCivil (t : Timestamp) : Prop :=
  t.nanosecond < 1000000000 ∨ t.second % 60 = 59

instance (t : Timestamp) : Decidable t.IsCivil :=
  inferInstanceAs (Decidable (_ ∨ _))

/-- The point in time that the text of another one shows: instead of a leap second in the middle of
a minute, the second behind it. -/
def shown (t : Timestamp) : Timestamp :=
  if h : t.IsCivil then t
  else
    { t with
      second := t.second + 1
      nanosecond := t.nanosecond - 1000000000
      second_lt := by
        have := t.second_lt
        rw [IsCivil] at h
        omega
      nanosecond_lt := by
        have := t.nanosecond_lt
        omega }

theorem shown_eq_self {t : Timestamp} (h : t.IsCivil) : t.shown = t :=
  dif_pos h

theorem isCivil_shown (t : Timestamp) : t.shown.IsCivil := by
  have := t.nanosecond_lt
  unfold shown
  split
  · assumption
  · left
    dsimp only
    omega

/-- A leap second in the middle of a minute has the hour and the minute of the second behind it, and
its nanoseconds count as one more second. -/
theorem text_shown (t : Timestamp) : t.shown.text = t.text := by
  unfold shown
  split
  · rfl
  · next h =>
    rw [IsCivil] at h
    have hhour : (t.second + 1) / 3600 = t.second / 3600 := by omega
    have hminute : (t.second + 1) / 60 % 60 = t.second / 60 % 60 := by omega
    have hsecond : (t.second + 1) % 60 + (t.nanosecond - 1000000000) / 1000000000 =
        t.second % 60 + t.nanosecond / 1000000000 := by omega
    have hnanosecond : (t.nanosecond - 1000000000) % 1000000000 = t.nanosecond % 1000000000 := by
      omega
    simp only [text, hhour, hminute, hsecond, hnanosecond]

theorem toList_padded (width n : Nat) : (padded width n).toList =
    List.replicate (width - (decimalChars n).length) '0' ++ decimalChars n := by
  simp [padded]

theorem isDigit_of_mem_padded {width n : Nat} :
    ∀ c ∈ (padded width n).toList, c.isDigit = true := by
  intro c hc
  rw [toList_padded, List.mem_append] at hc
  rcases hc with hc | hc
  · obtain rfl := List.eq_of_mem_replicate hc
    rfl
  · exact isDigit_of_mem_decimalChars c hc

theorem length_padded {width n : Nat} (hwidth : 0 < width) (h : n < 10 ^ width) :
    (padded width n).toList.length = width := by
  have hlength : (decimalChars n).length ≤ width :=
    length_digitsOnto_le (by omega) [] h hwidth
  rw [toList_padded, List.length_append, List.length_replicate]
  omega

theorem padded_inj {width m n : Nat} (h : (padded width m).toList = (padded width n).toList) :
    m = n := by
  have hvalue : ∀ k, numeralFrom? 10 0 (padded width k).toList = some k := by
    intro k
    have hk := numeral?_decimalChars k
    rw [numeral?, if_neg (by simpa using decimalChars_ne_nil k)] at hk
    rw [toList_padded, numeralFrom?_replicate_zero (by omega), hk]
  have hm := hvalue m
  rw [h, hvalue n] at hm
  exact (Option.some.inj hm).symm

theorem padded_append_inj {width m n : Nat} {rest rest' : List Char} (hwidth : 0 < width)
    (hm : m < 10 ^ width) (hn : n < 10 ^ width)
    (h : (padded width m).toList ++ rest = (padded width n).toList ++ rest') :
    m = n ∧ rest = rest' := by
  obtain ⟨hdigits, hrests⟩ := List.append_inj h
    ((length_padded hwidth hm).trans (length_padded hwidth hn).symm)
  exact ⟨padded_inj hdigits, hrests⟩

theorem toList_yearText (year : Int) : ∃ sign, (yearText year).toList =
      sign ++ (padded 4 year.natAbs).toList ∧
    (sign = [] ∧ 0 ≤ year ∧ year ≤ 9999 ∨ sign = ['-'] ∧ year < 0 ∨
      sign = ['+'] ∧ 9999 < year) := by
  unfold yearText
  split_ifs with hfour hnegative
  · exact ⟨[], rfl, .inl ⟨rfl, hfour⟩⟩
  · exact ⟨['-'], by simp, .inr (.inl ⟨rfl, hnegative⟩)⟩
  · exact ⟨['+'], by simp, .inr (.inr ⟨rfl, by omega⟩)⟩

theorem padded_append_hyphen_inj {width m n : Nat} {rest rest' : List Char}
    (h : (padded width m).toList ++ '-' :: rest = (padded width n).toList ++ '-' :: rest') :
    m = n ∧ rest = rest' := by
  have hhyphen : ∀ s : List Char, ∀ c ∈ ('-' :: s).head?, c.isDigit = false := by
    intro s c hc
    obtain rfl := Option.some.inj hc
    rfl
  obtain ⟨hdigits, hrests⟩ := append_inj_of_forall isDigit_of_mem_padded isDigit_of_mem_padded
    (hhyphen rest) (hhyphen rest') h
  exact ⟨padded_inj hdigits, (List.cons.inj hrests).2⟩

theorem padded_ne_nil (width n : Nat) : (padded width n).toList ≠ [] := by
  rw [toList_padded]
  exact List.append_ne_nil_of_right_ne_nil _ (decimalChars_ne_nil n)

theorem padded_append_ne {width n : Nat} {c : Char} (hc : c.isDigit = false)
    (rest rest' : List Char) : (padded width n).toList ++ rest ≠ c :: rest' := by
  obtain ⟨d, more, hd⟩ := List.exists_cons_of_ne_nil (padded_ne_nil width n)
  have hmem : d ∈ (padded width n).toList := by simp [hd]
  have hdigit := isDigit_of_mem_padded d hmem
  rw [hd]
  intro h
  rw [(List.cons.inj h).1, hc] at hdigit
  cases hdigit

theorem yearText_append_inj {year year' : Int} {rest rest' : List Char}
    (h : (yearText year).toList ++ '-' :: rest = (yearText year').toList ++ '-' :: rest') :
    year = year' ∧ rest = rest' := by
  obtain ⟨sign, hyear, hsign⟩ := toList_yearText year
  obtain ⟨sign', hyear', hsign'⟩ := toList_yearText year'
  rw [hyear, hyear', List.append_assoc, List.append_assoc] at h
  rcases hsign with ⟨rfl, hpositive, _⟩ | ⟨rfl, hnegative⟩ | ⟨rfl, hlarge⟩ <;>
    rcases hsign' with ⟨rfl, hpositive', _⟩ | ⟨rfl, hnegative'⟩ | ⟨rfl, hlarge'⟩
  · obtain ⟨habs, hrests⟩ := padded_append_hyphen_inj h
    exact ⟨by omega, hrests⟩
  · exact absurd h (padded_append_ne rfl _ _)
  · exact absurd h (padded_append_ne rfl _ _)
  · exact absurd h.symm (padded_append_ne rfl _ _)
  · obtain ⟨habs, hrests⟩ := padded_append_hyphen_inj (List.cons.inj h).2
    exact ⟨by omega, hrests⟩
  · cases (List.cons.inj h).1
  · exact absurd h.symm (padded_append_ne rfl _ _)
  · cases (List.cons.inj h).1
  · obtain ⟨habs, hrests⟩ := padded_append_hyphen_inj (List.cons.inj h).2
    exact ⟨by omega, hrests⟩

theorem length_fractionText {n : Nat} (h : n < 1000000000) : (fractionText n).toList.length =
    if n = 0 then 0 else if n % 1000000 = 0 then 4 else if n % 1000 = 0 then 7 else 10 := by
  unfold fractionText
  split_ifs with hzero hmilli hmicro
  · rfl
  all_goals
    rw [String.toList_append, List.length_append, length_padded (by omega) (by omega)]
    rfl

/-- The length of a fraction tells its unit, and its digits how many of these there are. -/
theorem fractionText_inj {m n : Nat} (hm : m < 1000000000) (hn : n < 1000000000)
    (h : (fractionText m).toList = (fractionText n).toList) : m = n := by
  have hlength := congrArg List.length h
  rw [length_fractionText hm, length_fractionText hn] at hlength
  have hdigits : ∀ {width a b : Nat},
      ("." ++ padded width a).toList = ("." ++ padded width b).toList → a = b := by
    intro width a b heq
    rw [String.toList_append, String.toList_append] at heq
    exact padded_inj (List.append_cancel_left heq)
  unfold fractionText at h
  split_ifs at h hlength
  -- a fraction of another unit has another length
  all_goals first | omega | (have hunits := hdigits h; omega)

theorem bounds_of_isValid {date : Date} (h : date.isValid = true) :
    date.month < 100 ∧ date.day < 100 := by
  simp only [Date.isValid, Bool.and_eq_true, decide_eq_true_eq] at h
  have hdays : Date.daysIn date.year date.month ≤ 31 := by
    unfold Date.daysIn
    split_ifs <;> omega
  omega

/-- The clock shows 60 exactly for leap seconds. -/
theorem IsCivil.second_eq_iff {t : Timestamp} (h : t.IsCivil) :
    t.second % 60 + t.nanosecond / 1000000000 = 60 ↔ t.nanosecond / 1000000000 = 1 := by
  have := t.nanosecond_lt
  rw [IsCivil] at h
  omega

theorem text_inj {t u : Timestamp} (ht : t.IsCivil) (hu : u.IsCivil) (h : t.text = u.text) :
    t = u := by
  obtain ⟨htmonth, htday⟩ := bounds_of_isValid t.date_isValid
  obtain ⟨humonth, huday⟩ := bounds_of_isValid u.date_isValid
  have htsecond := t.second_lt
  have husecond := u.second_lt
  have htnanosecond := t.nanosecond_lt
  have hunanosecond := u.nanosecond_lt
  have htshown := ht.second_eq_iff
  have hushown := hu.second_eq_iff
  have hchars := congrArg String.toList h
  simp only [text, String.toList_append, List.append_assoc, String.reduceToList,
    List.cons_append, List.nil_append] at hchars
  -- only the year has no fixed width; it ends at a hyphen
  obtain ⟨hyear, hchars⟩ := yearText_append_inj hchars
  obtain ⟨hmonth, hchars⟩ := padded_append_inj (by omega) htmonth humonth hchars
  obtain ⟨hday, hchars⟩ := padded_append_inj (by omega) htday huday (List.cons.inj hchars).2
  obtain ⟨hhour, hchars⟩ :=
    padded_append_inj (by omega) (by omega) (by omega) (List.cons.inj hchars).2
  obtain ⟨hminute, hchars⟩ :=
    padded_append_inj (by omega) (by omega) (by omega) (List.cons.inj hchars).2
  obtain ⟨hshown, hchars⟩ :=
    padded_append_inj (by omega) (by omega) (by omega) (List.cons.inj hchars).2
  have hfraction := fractionText_inj (by omega) (by omega) (List.append_cancel_right hchars)
  -- both show a leap second or neither does, so that the parts add up to the same
  have hnanosecond : t.nanosecond = u.nanosecond := by omega
  have hsecond : t.second = u.second := by omega
  obtain ⟨⟨_, _, _⟩, _, _⟩ := t
  obtain ⟨⟨_, _, _⟩, _, _⟩ := u
  simp_all

theorem text_eq_iff {t u : Timestamp} : t.text = u.text ↔ t.shown = u.shown := by
  rw [← text_shown t, ← text_shown u]
  exact ⟨text_inj t.isCivil_shown u.isCivil_shown, congrArg text⟩

end Timestamp

end LegacyAudit
