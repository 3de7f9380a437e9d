import LegacyAudit.Job.Summary
import LegacyAudit.Proofs.Json.Decoding
import LegacyAudit.Proofs.Report.Notation

/-!
# Points in time that are read

A leap second is read from the end of a minute, and an offset is a number of minutes. So no leap
second in the middle of a minute can be read, generous as the notation is.

## Main definitions

- `Timestamp.isCivil_of_read` - points in time that are read are civil
- `JobSummary.IsCivil` - all points in time of a summary are civil
- `Job.isCivil_of_decode` - so they are in a job that is read
-/

namespace LegacyAudit

namespace Timestamp

theorem isCivil_of_ofParts {date : Date} {clock : Clock} {offset : Int} {t : Timestamp}
    (h : ofParts date clock offset = .ok t) : t.IsCivil := by
  have hsecond := clock.second_le
  have hnanosecond := clock.nanosecond_lt
  unfold ofParts at h
  split at h
  · cases h
  · dsimp only at h
    split at h
    · obtain rfl := Except.ok.inj h
      unfold IsCivil
      dsimp only
      -- an offset of whole minutes leaves the seconds of the minute as they are
      rcases Nat.lt_or_ge clock.second 60 with hordinary | hleap
      · left
        omega
      · right
        omega
    · cases h

theorem isCivil_of_read {s : String} {t : Timestamp} (h : read s = .ok t) : t.IsCivil := by
  obtain ⟨⟨⟨date, clock, offset⟩, rest⟩, _, hparts⟩ := exists_of_bind_eq_ok h
  exact isCivil_of_ofParts hparts

theorem isCivil_of_decode {v : Json} {t : Timestamp} (h : decode v = .ok t) : t.IsCivil := by
  cases v with
  | string s =>
    rw [decode] at h
    split at h
    · next hread =>
      obtain rfl := Except.ok.inj h
      exact isCivil_of_read hread
    · cases h
  | _ => cases h

theorem isCivil_of_required {name : String} {lookup : String → Option Json} {t : Timestamp}
    (h : (Field.required name decode).get lookup = .ok t) : t.IsCivil := by
  obtain ⟨v, hv⟩ | habsent := Field.get_eq_ok h
  · exact isCivil_of_decode hv
  · cases habsent

theorem isCivil_of_nullable {name : String} {lookup : String → Option Json} {t : Timestamp}
    (h : (Field.nullable name decode).get lookup = .ok (some t)) : t.IsCivil := by
  obtain ⟨v, hv⟩ | habsent := Field.get_eq_ok h
  · exact isCivil_of_decode (decode_of_decodeNullable hv)
  · cases habsent

end Timestamp

/-- All points in time of a summary are civil. -/
structure JobSummary.IsCivil (s : JobSummary) : Prop where
  created : s.createdAt.IsCivil
  updated : s.updatedAt.IsCivil
  completed : ∀ t ∈ s.completedAt, t.IsCivil

theorem Job.isCivil_of_decode {v : Json} {job : Job} (h : decode v = .ok job) :
    job.summary.IsCivil := by
  obtain ⟨lookup, h⟩ := build_of_decodeRecord h
  obtain ⟨_, _, h⟩ := exists_of_bind_eq_ok h
  obtain ⟨_, _, h⟩ := exists_of_bind_eq_ok h
  obtain ⟨_, _, h⟩ := exists_of_bind_eq_ok h
  obtain ⟨_, _, h⟩ := exists_of_bind_eq_ok h
  obtain ⟨createdAt, hcreated, h⟩ := exists_of_bind_eq_ok h
  obtain ⟨updatedAt, hupdated, h⟩ := exists_of_bind_eq_ok h
  obtain ⟨completedAt, hcompleted, h⟩ := exists_of_bind_eq_ok h
  obtain ⟨_, _, h⟩ := exists_of_bind_eq_ok h
  obtain ⟨_, _, h⟩ := exists_of_bind_eq_ok h
  obtain ⟨_, _, h⟩ := exists_of_bind_eq_ok h
  obtain ⟨_, _, h⟩ := exists_of_bind_eq_ok h
  obtain ⟨_, _, h⟩ := exists_of_bind_eq_ok h
  obtain rfl := Except.ok.inj h
  constructor
  · exact Timestamp.isCivil_of_required hcreated
  · exact Timestamp.isCivil_of_required hupdated
  · rintro t rfl
    exact Timestamp.isCivil_of_nullable hcompleted

end LegacyAudit
