import LegacyAudit.Text.Lower
import LegacyAudit.Text.Search
import Mathlib.Data.List.Infix

/-!
# Finding words in lower-case text

Whether a capital sigma ends a word depends on what stands around it, so the lower-case form of a
text is not that of its parts joined together. For words of ASCII characters this makes no
difference: both forms of the sigma lie beyond ASCII.

## Main definitions

- `Shows` - a word stands in a text once every character is lower-cased by itself
- `contains_iff`, `contains_lower_iff` - what searching a text comes to
- `infix_append_iff`, `shows_append_cons` - where a word can stand in a text of several parts
-/

namespace LegacyAudit.Text

theorem occursIn_iff {needle text : List Char} :
    occursIn needle text = true ↔ needle <:+: text := by
  induction text with
  | nil => simp [occursIn]
  | cons c rest ih =>
    rw [occursIn, Bool.or_eq_true, List.isPrefixOf_iff_prefix, ih, List.infix_cons_iff]

theorem contains_iff {text needle : String} :
    contains text needle = true ↔ needle.toList <:+: text.toList :=
  occursIn_iff

section Parts

variable {w : List Char}

theorem prefix_append_iff {a b : List Char} :
    w <+: a ++ b ↔ w <+: a ∨ ∃ v, w = a ++ v ∧ v <+: b := by
  induction a generalizing w with
  | nil =>
    simp only [List.nil_append, List.prefix_nil, exists_eq_left']
    constructor
    · exact Or.inr
    · rintro (rfl | h)
      · exact List.nil_prefix
      · exact h
  | cons c a ih =>
    rw [List.cons_append, List.prefix_cons_iff, List.prefix_cons_iff]
    constructor
    · rintro (rfl | ⟨v, rfl, hv⟩)
      · exact Or.inl (Or.inl rfl)
      · rcases ih.mp hv with hv | ⟨u, rfl, hu⟩
        · exact Or.inl (Or.inr ⟨v, rfl, hv⟩)
        · exact Or.inr ⟨u, rfl, hu⟩
    · rintro ((rfl | ⟨v, rfl, hv⟩) | ⟨u, rfl, hu⟩)
      · exact Or.inl rfl
      · exact Or.inr ⟨v, rfl, ih.mpr (Or.inl hv)⟩
      · exact Or.inr ⟨a ++ u, rfl, ih.mpr (Or.inr ⟨u, rfl, hu⟩)⟩

theorem infix_append_iff {a b : List Char} :
    w <:+: a ++ b ↔ (∃ t, t <:+ a ∧ t ≠ [] ∧ w <+: t ++ b) ∨ w <:+: b := by
  induction a with
  | nil => simp
  | cons c a ih =>
    rw [List.cons_append, List.infix_cons_iff, ih]
    constructor
    · rintro (h | ⟨t, ht, hne, h⟩ | h)
      · exact Or.inl ⟨c :: a, List.suffix_refl _, List.cons_ne_nil _ _, h⟩
      · exact Or.inl ⟨t, ht.trans (List.suffix_cons c a), hne, h⟩
      · exact Or.inr h
    · rintro (⟨t, ht, hne, h⟩ | h)
      · rcases List.suffix_cons_iff.mp ht with rfl | ht
        · exact Or.inl h
        · exact Or.inr (Or.inl ⟨t, ht, hne, h⟩)
      · exact Or.inr (Or.inr h)

theorem infix_append_cons_iff {a b : List Char} {p : Char} (hp : p ∉ w) :
    w <:+: a ++ p :: b ↔ w <:+: a ∨ w <:+: b := by
  constructor
  · intro h
    rcases infix_append_iff.mp h with ⟨t, ht, _, hw⟩ | h
    · rcases prefix_append_iff.mp hw with hw | ⟨v, rfl, hv⟩
      · exact Or.inl (List.infix_iff_prefix_suffix.mpr ⟨t, hw, ht⟩)
      · rcases List.prefix_cons_iff.mp hv with rfl | ⟨u, rfl, _⟩
        · rw [List.append_nil]
          exact Or.inl ht.isInfix
        · exact absurd (by simp) hp
    · rcases List.infix_cons_iff.mp h with h | h
      · rcases List.prefix_cons_iff.mp h with rfl | ⟨u, rfl, _⟩
        · exact Or.inl List.nil_infix
        · exact absurd (by simp) hp
      · exact Or.inr h
  · rintro (h | h)
    · exact h.trans (List.prefix_append _ _).isInfix
    · exact h.trans ((List.suffix_cons p b).trans (List.suffix_append a _)).isInfix

end Parts

/-- The word stands in the text once every character of the text is lower-cased by itself. -/
def Shows (w s : List Char) : Prop :=
  w <:+: s.flatMap lowerChar

instance (w s : List Char) : Decidable (Shows w s) :=
  inferInstanceAs (Decidable (_ <:+: _))

/-- The character, unless it lies beyond ASCII. -/
def ascii? (c : Char) : Option Char :=
  if c.toNat < 0x80 then some c else none

theorem eq_of_ascii?_eq_some {c d : Char} (h : ascii? c = some d) : c = d := by
  unfold ascii? at h
  split at h
  · exact Option.some.inj h
  · cases h

theorem map_ascii?_of_ascii {w : List Char} (h : ∀ c ∈ w, c.toNat < 0x80) :
    w.map ascii? = w.map some :=
  List.map_congr_left fun c hc => if_pos (h c hc)

/-- Where only ASCII words are looked for, it does not matter which characters beyond ASCII stand
in the text. -/
theorem infix_iff_of_map_ascii? {w s t : List Char} (hw : ∀ c ∈ w, c.toNat < 0x80)
    (h : s.map ascii? = t.map ascii?) : w <:+: s ↔ w <:+: t := by
  have hback : ∀ u : List Char, w.map ascii? <:+: u.map ascii? → w <:+: u := by
    intro u hu
    obtain ⟨v, hv, hmap⟩ := List.infix_map_iff.mp hu
    suffices w = v by rwa [this]
    rw [map_ascii?_of_ascii hw] at hmap
    clear hu hv hw
    induction w generalizing v with
    | nil => simpa [eq_comm] using hmap
    | cons c w ih =>
      obtain ⟨d, v, rfl, hd, hmap⟩ := List.map_eq_cons_iff.mp hmap.symm
      rw [ih v hmap.symm, eq_of_ascii?_eq_some hd]
  constructor
  · intro hs
    exact hback t (h ▸ hs.map ascii?)
  · intro ht
    exact hback s (h ▸ ht.map ascii?)

theorem map_ascii?_lowerAt (before : List Char) (c : Char) (after : List Char) :
    (lowerAt before c after).map ascii? = (lowerChar c).map ascii? := by
  unfold lowerAt
  split
  · next h =>
    subst h
    have hsigma : lowerChar 'Σ' = ['σ'] := by decide +kernel
    rw [hsigma]
    split <;> rfl
  · rfl

theorem map_ascii?_lowerLoop (before done s : List Char) :
    (lowerLoop before done s).map ascii? =
      done.reverse.map ascii? ++ (s.flatMap lowerChar).map ascii? := by
  induction s generalizing before done with
  | nil => simp [lowerLoop]
  | cons c s ih =>
    rw [lowerLoop, ih, List.flatMap_cons]
    simp [map_ascii?_lowerAt]

theorem infix_lowerChars_iff {w s : List Char} (hw : ∀ c ∈ w, c.toNat < 0x80) :
    w <:+: lowerChars s ↔ Shows w s :=
  infix_iff_of_map_ascii? hw (map_ascii?_lowerLoop [] [] s)

theorem contains_lower_iff {text needle : String} (h : ∀ c ∈ needle.toList, c.toNat < 0x80) :
    contains (lower text) needle = true ↔ Shows needle.toList text.toList := by
  rw [contains_iff, lower, String.toList_ofList, infix_lowerChars_iff h]

theorem of_forall_ascii {P : Char → Prop} (h : ∀ n < 0x80, P (Char.ofNat n)) {c : Char}
    (hc : c.toNat < 0x80) : P c := by
  simpa only [Char.ofNat_toNat] using h c.toNat hc

theorem lowerChar_of_ascii {c : Char} (h : c.toNat < 0x80) : lowerChar c = [c.toLower] :=
  if_pos h

theorem lowerChars_of_ascii {w : List Char} (h : ∀ c ∈ w, c.toNat < 0x80) :
    lowerChars w = w.map Char.toLower := by
  have hloop : ∀ before done : List Char,
      lowerLoop before done w = done.reverse ++ w.map Char.toLower := by
    induction w with
    | nil => simp [lowerLoop]
    | cons c w ih =>
      intro before done
      rw [List.forall_mem_cons] at h
      have hat : lowerAt before c w = [c.toLower] := by
        have hsigma : c ≠ 'Σ' := by
          rintro rfl
          exact absurd h.1 (by decide)
        rw [lowerAt, if_neg hsigma, lowerChar_of_ascii h.1]
      rw [lowerLoop, hat, ih h.2]
      simp
  exact hloop [] []

section Shows

variable {w : List Char}

theorem Shows.of_infix {s t : List Char} (h : Shows w s) (hst : s <:+: t) : Shows w t :=
  h.trans (hst.flatMap lowerChar)

theorem not_shows_nil (hw : w ≠ []) : ¬Shows w [] := by
  simpa [Shows] using hw

/-- A text that shows a word shows it on one side of a character that the word lacks. -/
theorem shows_append_cons {a b : List Char} {p : Char} (hlower : lowerChar p = [p])
    (hp : p ∉ w) : Shows w (a ++ p :: b) ↔ Shows w a ∨ Shows w b := by
  rw [Shows, List.flatMap_append, List.flatMap_cons, hlower, List.singleton_append,
    infix_append_cons_iff hp]
  rfl

end Shows

end LegacyAudit.Text
