import LegacyAudit.Language
import LegacyAudit.Proofs.Files.Endings
import LegacyAudit.Proofs.Text.Search
import Mathlib.Data.List.Forall2

/-!
# Languages of files

Of the name of a file only the extension of the last component counts, and its case does not.

## Main definitions

- `Text.Recased` - a text with other case
- `Language.detect_reads_last` - what the language of a file depends on
-/

namespace LegacyAudit

namespace Text

/-- The second text is the first one with some ASCII letters in the other case. -/
def Recased (text recased : List Char) : Prop :=
  List.Forall₂ (fun c d => d = c ∨ d = c.toLower ∨ d = c.toUpper) text recased

variable {text recased : List Char}

theorem caseless_of_not_ascii {c : Char} (h : 0x80 ≤ c.toNat) : c.toLower = c ∧ c.toUpper = c := by
  constructor
  all_goals
    apply dif_neg
    rintro ⟨_, hle⟩
    have hsmall := UInt32.le_iff_toNat_le.mp hle
    simp only [Char.toNat_val, Char.reduceToNat] at hsmall
    omega

theorem toLower_eq_of_recased {c d : Char} (h : d = c ∨ d = c.toLower ∨ d = c.toUpper) :
    d.toLower = c.toLower := by
  have hcase : c.toLower.toLower = c.toLower ∧ c.toUpper.toLower = c.toLower := by
    rcases Nat.lt_or_ge c.toNat 0x80 with hascii | hlarge
    · exact of_forall_ascii
        (P := fun c => c.toLower.toLower = c.toLower ∧ c.toUpper.toLower = c.toLower)
        (by decide +kernel) hascii
    · simp only [caseless_of_not_ascii hlarge, and_self]
  rcases h with rfl | rfl | rfl
  · rfl
  · exact hcase.1
  · exact hcase.2

theorem Recased.lowerAscii_eq (h : Recased text recased) :
    lowerAscii recased = lowerAscii text := by
  induction h with
  | nil => rfl
  | cons hcase _ ih =>
    rw [lowerAscii, List.map_cons, toLower_eq_of_recased hcase, ← lowerAscii, ih]
    rfl

theorem lowerAscii_lowerAscii (text : List Char) :
    lowerAscii (lowerAscii text) = lowerAscii text := by
  rw [lowerAscii, lowerAscii, List.map_map]
  exact List.map_congr_left fun _ _ => toLower_eq_of_recased (.inr (.inl rfl))

/-- What is no letter is the small form of itself only. -/
theorem toLower_eq_iff {c d : Char} (hd : d.isAlpha = false) : c.toLower = d ↔ c = d := by
  rcases Nat.lt_or_ge c.toNat 0x80 with hascii | hlarge
  · have hletter := of_forall_ascii
      (P := fun c => c.toLower = c ∨ c.isAlpha = true ∧ c.toLower.isAlpha = true)
      (by decide +kernel) hascii
    rcases hletter with hsmall | ⟨hc, hlower⟩
    · rw [hsmall]
    · constructor
      · rintro rfl
        rw [hlower] at hd
        cases hd
      · rintro rfl
        rw [hc] at hd
        cases hd
  · rw [(caseless_of_not_ascii hlarge).1]

theorem mem_lowerAscii_iff {d : Char} (hd : d.isAlpha = false) :
    d ∈ lowerAscii text ↔ d ∈ text := by
  simp [lowerAscii, toLower_eq_iff hd]

theorem lowerAscii_eq_iff {fixed : List Char} (h : ∀ d ∈ fixed, d.isAlpha = false) :
    lowerAscii text = fixed ↔ text = fixed := by
  induction fixed generalizing text with
  | nil => exact List.map_eq_nil_iff
  | cons d fixed ih =>
    obtain ⟨hd, hfixed⟩ := List.forall_mem_cons.mp h
    cases text with
    | nil => simp [lowerAscii]
    | cons c text =>
      rw [lowerAscii, List.map_cons, List.cons.injEq, ← lowerAscii, toLower_eq_iff hd, ih hfixed,
        List.cons.injEq]

end Text

open Text

namespace Path

variable {path last tail : List Char}

theorem Trails.lowerAscii (h : Trails tail) : Trails (lowerAscii tail) := by
  induction h with
  | nil => exact .nil
  | slash _ ih => exact .slash ih
  | dot _ ih => exact .dot ih

theorem IsComponent.lowerAscii (h : IsComponent last) : IsComponent (lowerAscii last) where
  ne_nil := by simpa [Text.lowerAscii] using h.ne_nil
  ne_dot := by
    rw [Ne, lowerAscii_eq_iff (by simp)]
    exact h.ne_dot
  slash_notMem := by
    rw [mem_lowerAscii_iff rfl]
    exact h.slash_notMem

theorem EndsIn.lowerAscii (h : EndsIn path last) : EndsIn (lowerAscii path) (lowerAscii last) := by
  obtain ⟨directory, tail, hdirectory, hlast, htail, rfl⟩ := h
  refine ⟨Text.lowerAscii directory, Text.lowerAscii tail, ?_, hlast.lowerAscii, htail.lowerAscii,
    by simp [Text.lowerAscii]⟩
  rcases hdirectory with rfl | ⟨above, rfl⟩
  · exact .inl rfl
  · exact .inr ⟨Text.lowerAscii above, by simp [Text.lowerAscii]⟩

theorem IsBare.lowerAscii (h : IsBare path) : IsBare (lowerAscii path) := by
  obtain ⟨lead, tail, hlead, htail, rfl⟩ := h
  refine ⟨lead, Text.lowerAscii tail, hlead, htail.lowerAscii, ?_⟩
  rcases hlead with rfl | rfl <;> rfl

theorem IsUndivided.lowerAscii (h : IsUndivided last) : IsUndivided (lowerAscii last) := by
  rw [IsUndivided, Text.lowerAscii, ← List.map_tail, ← Text.lowerAscii, mem_lowerAscii_iff rfl]
  exact h

end Path

namespace Language

variable {filename : String} {last stem extension : List Char}

theorem ofExtension_lowerAscii (extension : List Char) :
    ofExtension (lowerAscii extension) = ofExtension extension := by
  rw [ofExtension, lowerAscii_lowerAscii, ofExtension]

theorem detect_of_divided (h : Path.EndsIn filename.toList (stem ++ '.' :: extension))
    (hstem : stem ≠ []) (hextension : '.' ∉ extension)
    (hparent : stem ++ '.' :: extension ≠ ['.', '.']) :
    detect filename = ofExtension extension := by
  rw [detect, Path.fileName?_of_endsIn h hparent, Option.bind_some,
    Path.extension?_append stem hextension hstem]

theorem detect_of_isUndivided (h : Path.EndsIn filename.toList last)
    (hlast : Path.IsUndivided last ∨ last = ['.', '.']) : detect filename = unknown := by
  by_cases hparent : last = ['.', '.']
  · subst hparent
    rw [detect, Path.fileName?_of_endsIn_parent h, Option.bind_none]
  · rw [detect, Path.fileName?_of_endsIn h hparent, Option.bind_some,
      (hlast.resolve_right hparent).extension?_eq]

theorem detect_of_isBare (h : Path.IsBare filename.toList) : detect filename = unknown := by
  rw [detect, Path.fileName?_of_isBare h, Option.bind_none]

theorem detect_lowerAscii (filename : String) :
    detect (String.ofList (lowerAscii filename.toList)) = detect filename := by
  rcases Path.endsIn_or_isBare filename.toList with ⟨last, hlast⟩ | hbare
  · have hlower : Path.EndsIn (String.ofList (lowerAscii filename.toList)).toList
        (lowerAscii last) := by
      rw [String.toList_ofList]
      exact hlast.lowerAscii
    by_cases hparent : last = ['.', '.']
    · rw [detect_of_isUndivided hlast (.inr hparent),
        detect_of_isUndivided hlower (.inr (by rw [hparent]; rfl))]
    · rcases Path.isUndivided_or_divided last with hundivided |
        ⟨stem, extension, hstem, hextension, rfl⟩
      · rw [detect_of_isUndivided hlast (.inl hundivided),
          detect_of_isUndivided hlower (.inl hundivided.lowerAscii)]
      · -- the last dot stays where it is, so the extension of the lowered name is the lowered one
        rw [detect_of_divided hlast hstem hextension hparent, ← ofExtension_lowerAscii]
        have happend : lowerAscii (stem ++ '.' :: extension) =
            lowerAscii stem ++ '.' :: lowerAscii extension := by
          simp [lowerAscii]
        rw [happend] at hlower
        apply detect_of_divided hlower
        · simpa [lowerAscii] using hstem
        · rwa [mem_lowerAscii_iff rfl]
        · rwa [← happend, Ne,
            lowerAscii_eq_iff (by simp)]
  · have hlower : Path.IsBare (String.ofList (lowerAscii filename.toList)).toList := by
      rw [String.toList_ofList]
      exact hbare.lowerAscii
    rw [detect_of_isBare hbare, detect_of_isBare hlower]

/-- The language of a file is that of the extension of its last component, wherever the file is and
whatever the case, and unknown if there is no such component or extension. -/
theorem detect_reads_last :
    (∀ (filename : String) (stem extension : List Char),
      Path.EndsIn filename.toList (stem ++ '.' :: extension) → stem ≠ [] → '.' ∉ extension →
        stem ++ '.' :: extension ≠ ['.', '.'] → detect filename = ofExtension extension) ∧
    (∀ (filename : String) (last : List Char), Path.EndsIn filename.toList last →
      Path.IsUndivided last ∨ last = ['.', '.'] → detect filename = unknown) ∧
    (∀ filename : String, (∃! last, Path.EndsIn filename.toList last) ∨
      Path.IsBare filename.toList ∧ detect filename = unknown) ∧
    ∀ filename recased : String, Recased filename.toList recased.toList →
      detect recased = detect filename := by
  refine ⟨fun _ _ _ => detect_of_divided, fun _ _ => detect_of_isUndivided, ?_, ?_⟩
  · intro filename
    rcases Path.endsIn_or_isBare filename.toList with ⟨last, hlast⟩ | hbare
    · exact .inl ⟨last, hlast, fun other hother => hother.unique hlast⟩
    · exact .inr ⟨hbare, detect_of_isBare hbare⟩
  · intro filename recased hcase
    rw [← detect_lowerAscii recased, hcase.lowerAscii_eq, detect_lowerAscii filename]

/-- Neither the extensions of directories count nor what comes behind the name, and a name that
begins with its only dot has no extension. -/
theorem detect_reads_last_sample :
    detect "a.py/../Main.tar.JaVa//." = java ∧ detect "a.py/.java" = unknown ∧
      detect "a.py/.." = unknown ∧ detect "src/MAIN.py" = detect "src/Main.PY" := by
  obtain ⟨hdivided, hundivided, _, hcase⟩ := detect_reads_last
  refine ⟨?_, ?_, ?_, ?_⟩
  · have hends : Path.EndsIn "a.py/../Main.tar.JaVa//.".toList
        ("Main.tar".toList ++ '.' :: "JaVa".toList) :=
      ⟨"a.py/../".toList, "//.".toList, .inr ⟨"a.py/..".toList, rfl⟩,
        ⟨by decide, by decide, by decide⟩, .slash (.dot .nil), rfl⟩
    exact hdivided _ _ _ hends (by decide) (by decide) (by decide)
  · have hends : Path.EndsIn "a.py/.java".toList ".java".toList :=
      ⟨"a.py/".toList, [], .inr ⟨"a.py".toList, rfl⟩, ⟨by decide, by decide, by decide⟩, .nil, rfl⟩
    exact hundivided _ _ hends (.inl (by unfold Path.IsUndivided; decide))
  · have hends : Path.EndsIn "a.py/..".toList "..".toList :=
      ⟨"a.py/".toList, [], .inr ⟨"a.py".toList, rfl⟩, ⟨by decide, by decide, by decide⟩, .nil, rfl⟩
    exact hundivided _ _ hends (.inr rfl)
  · apply hcase
    simp [Recased]

end Language

end LegacyAudit
