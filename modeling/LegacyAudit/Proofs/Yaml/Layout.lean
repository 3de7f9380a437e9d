import LegacyAudit.Proofs.Text.Utf8
import LegacyAudit.Yaml.Token.Scalar
import LegacyAudit.Yaml.Writer

/-!
# Blanks and line breaks

What is written breaks its lines with line feeds, and inside of scalars with the separators of
Unicode. A new line begins with blanks, and then with something that is neither blank nor comment.

## Main definitions

- `Solid` - a text that does not begin with anything that is skipped
- `Mark.indented` - a place in the next line
- `readGap_line_end` - a line end and the blanks behind it are one gap
-/

namespace LegacyAudit.Yaml

open Content (blanks)

theorem isGap_eq_false {c : Char} (h : c ≠ ' ' ∧ c ≠ '\t') : isGap c = false := by
  simp [isGap, h]

/-- Of the printable characters only the space is a blank, and none is a carriage return. -/
theorem ne_of_isPrintable {c : Char} (h : isPrintable c = true) : c ≠ '\t' ∧ c ≠ '\r' := by
  constructor <;>
  · rintro rfl
    revert h
    decide

theorem breakAs_of_isPrintable {c : Char} (h : isPrintable c = true) (hbreak : isBreak c = true) :
    breakAs c = c := by
  have hreturn := (ne_of_isPrintable h).2
  have hnext : c ≠ '\x85' := by
    rintro rfl
    exact absurd h (by decide)
  by_cases hfeed : c = '\n'
  · rw [hfeed]
    decide
  · simp only [isBreak, hfeed, hreturn, hnext, Bool.or_eq_true, decide_eq_true_eq, decide_false,
      Bool.false_eq_true, false_or] at hbreak
    rw [breakAs, if_pos (by simpa using hbreak)]

theorem isAllowed_of_isPrintable {c : Char} (h : isPrintable c = true) : isAllowed c = true := by
  have hvalid := Text.toNat_valid c
  simp only [isPrintable, isAllowed, Bool.or_eq_true, Bool.and_eq_true, beq_iff_eq, bne_iff_ne,
    decide_eq_true_eq] at h ⊢
  omega

/-- Whether the names of keys may hold the character. -/
def isKeyChar (c : Char) : Bool :=
  c.isAlphanum || c = '_'

theorem ne_of_isKeyChar {c d : Char} (hc : isKeyChar c = true) (hd : isKeyChar d = false) :
    c ≠ d := by
  rintro rfl
  exact absurd (hc.symm.trans hd) (by decide)

theorem notMem_of_isKeyChar {c : Char} {marks : List Char} (hc : isKeyChar c = true)
    (hmarks : marks.any isKeyChar = false) : c ∉ marks :=
  fun hmem => List.any_eq_false.mp hmarks c hmem hc

theorem isPrintable_of_isKeyChar {c : Char} (h : isKeyChar c = true) : isPrintable c = true := by
  have hrange : 48 ≤ c.toNat ∧ c.toNat ≤ 122 := by
    change (decide (65 ≤ c.toNat ∧ c.toNat ≤ 90) ||
      decide (97 ≤ c.toNat) && decide (c.toNat ≤ 122) ||
      decide (48 ≤ c.toNat) && decide (c.toNat ≤ 57) || decide (c = '_')) = true at h
    simp only [Bool.or_eq_true, Bool.and_eq_true, decide_eq_true_eq] at h
    rcases h with h | rfl
    · omega
    · decide
  simp only [isPrintable, Bool.or_eq_true, Bool.and_eq_true, decide_eq_true_eq]
  omega

theorem word_of_isKeyChar {c : Char} (h : isKeyChar c = true) :
    isGap c = false ∧ isBreak c = false := by
  have hne (d : Char) := @ne_of_isKeyChar c d h
  constructor
  · exact isGap_eq_false ⟨hne ' ' (by decide), hne '\t' (by decide)⟩
  · simp [isBreak, hne '\n' (by decide), hne '\r' (by decide), hne '\x85' (by decide),
      hne '\u2028' (by decide), hne '\u2029' (by decide)]

/-- A text that begins with no blank, line break, comment or byte order mark. -/
def Solid (text : List Char) : Prop :=
  ∀ c ∈ text.head?, isGap c = false ∧ isBreak c = false ∧ c ≠ '#' ∧ c ≠ '\ufeff'

theorem solid_nil : Solid [] := by
  simp [Solid]

theorem Solid.append {text : List Char} (h : Solid text) (hne : text ≠ []) (rest : List Char) :
    Solid (text ++ rest) := by
  obtain ⟨c, text, rfl⟩ := List.exists_cons_of_ne_nil hne
  exact h

@[simp] theorem length_blanks (count : Nat) : (blanks count).length = count :=
  List.length_replicate

namespace Mark

@[simp] theorem next_line (m : Mark) (c : Char) : (m.next c).line = m.line := rfl

@[simp] theorem next_column (m : Mark) (c : Char) : (m.next c).column = m.column + 1 := rfl

theorem index_lt_next (m : Mark) (c : Char) : m.index < (m.next c).index := by
  have := c.utf8Size_pos
  simp only [next]
  omega

theorem skip_cons (m : Mark) (c : Char) (text : List Char) :
    m.skip (c :: text) = (m.next c).skip text := rfl

theorem skip_spec (m : Mark) (text : List Char) : m.index + text.length ≤ (m.skip text).index ∧
    (m.skip text).line = m.line ∧ (m.skip text).column = m.column + text.length := by
  induction text generalizing m with
  | nil => exact ⟨Nat.le_refl _, rfl, rfl⟩
  | cons c text ih =>
    obtain ⟨hindex, hline, hcolumn⟩ := ih (m.next c)
    have hnext := m.index_lt_next c
    rw [skip_cons, List.length_cons]
    refine ⟨by omega, hline, ?_⟩
    rw [hcolumn]
    simp only [next]
    omega

theorem skip_index_le (m : Mark) (text : List Char) :
    (m.skip text).index ≤ m.index + 4 * text.length := by
  induction text generalizing m with
  | nil => exact Nat.le_refl _
  | cons c text ih =>
    have hnext : (m.next c).index ≤ m.index + 4 := Nat.add_le_add_left c.utf8Size_le_four _
    have hrest := ih (m.next c)
    rw [skip_cons, List.length_cons]
    omega

def indented (m : Mark) (column : Nat) : Mark :=
  (m.nextLine 1).skip (blanks column)

@[simp] theorem indented_line (m : Mark) (column : Nat) :
    (m.indented column).line = m.line + 1 :=
  ((m.nextLine 1).skip_spec (blanks column)).2.1

@[simp] theorem indented_column (m : Mark) (column : Nat) :
    (m.indented column).column = column := by
  have hcolumn := ((m.nextLine 1).skip_spec (blanks column)).2.2
  rw [length_blanks] at hcolumn
  exact hcolumn.trans (Nat.zero_add column)

theorem index_lt_indented (m : Mark) (column : Nat) : m.index < (m.indented column).index := by
  have hindex := ((m.nextLine 1).skip_spec (blanks column)).1
  simp only [nextLine] at hindex
  unfold indented nextLine
  omega

end Mark

theorem atDocumentMark_eq_false {c : Cursor} (h : 0 < c.mark.column) :
    c.atDocumentMark = false := by
  simp [Cursor.atDocumentMark, Cursor.atTriple, show c.mark.column ≠ 0 by omega]

theorem atDocumentMark_of_isKeyChar {c : Char} {rest : List Char} {m : Mark}
    (h : isKeyChar c = true) : (⟨c :: rest, m⟩ : Cursor).atDocumentMark = false := by
  have hne (d : Char) := @ne_of_isKeyChar c d h
  simp [Cursor.atDocumentMark, Cursor.atTriple, hne '-' (by decide), hne '.' (by decide)]

@[simp] theorem Gap.addBlank_spaces (spaces : List Char) (c : Char) :
    ({ blanks := spaces } : Gap).addBlank c = { blanks := c :: spaces } := rfl

@[simp] theorem Gap.reversed_spaces (spaces : List Char) :
    ({ blanks := spaces } : Gap).reversed = spaces := rfl

section Gaps

variable {tabs : Nat} {g : Gap} {m : Mark} {rest : List Char}

theorem readGap_stop (h : ∀ c ∈ rest.head?, isGap c = false ∧ isBreak c = false) :
    readGap tabs g m rest = .ok (g, ⟨rest, m⟩) := by
  cases rest with
  | nil => rfl
  | cons c rest =>
    obtain ⟨hgap, hbreak⟩ := h c rfl
    rw [readGap]
    · simp [hgap, hbreak]
    · rintro _ rfl
      simp [isBreak] at hbreak

theorem readGap_break {b : Char} (hb : isBreak b = true) (hr : b ≠ '\r') :
    readGap tabs g m (b :: rest) =
      readGap tabs (g.addBreak (breakAs b)) (m.nextLine b.utf8Size) rest := by
  rw [readGap]
  · simp [hb]
  · intro _ h
    exact absurd h hr

theorem readGap_space :
    readGap tabs g m (' ' :: rest) = readGap tabs (g.addBlank ' ') (m.next ' ') rest := by
  rw [readGap]
  · simp [show isBreak ' ' = false by decide, show isGap ' ' = true by decide]
  · simp

theorem readGap_blanks (hg : g.broken = true) (count : Nat) :
    readGap tabs g m (blanks count ++ rest) = readGap tabs g (m.skip (blanks count)) rest := by
  induction count generalizing m with
  | zero => rfl
  | succ count ih =>
    have haddBlank : g.addBlank ' ' = g := by simp [Gap.addBlank, hg]
    have hblanks : blanks (count + 1) = ' ' :: blanks count := rfl
    rw [hblanks, List.cons_append, readGap_space, haddBlank, ih]
    rfl

theorem readGap_line_end {body : List Char} (hbody : Solid body) (column : Nat) :
    readGap tabs g m ('\n' :: (blanks column ++ body)) =
      .ok (g.addBreak '\n', ⟨body, m.indented column⟩) := by
  have hbroken : (g.addBreak '\n').broken = true := by
    unfold Gap.addBreak
    split
    · assumption
    · rfl
  have hstop : ∀ c ∈ body.head?, isGap c = false ∧ isBreak c = false := by
    intro c hc
    obtain ⟨hgap, hbreak, _⟩ := hbody c hc
    exact ⟨hgap, hbreak⟩
  rw [readGap_break (by decide) (by decide)]
  exact (readGap_blanks hbroken column).trans (readGap_stop hstop)

end Gaps

end LegacyAudit.Yaml
