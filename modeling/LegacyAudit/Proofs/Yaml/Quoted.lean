import LegacyAudit.Proofs.Text.Decimal
import LegacyAudit.Proofs.Yaml.Layout

/-!
# Quoted scalars

A text in single quotes shows its line separators, and each line begins at the same column. A text
in double quotes stands in one line; what cannot be shown is escaped.

## Main definitions

- `Apart` - a text whose spaces and line breaks are apart from each other
- `ReadsWord`, `ReadsGap`, `ReadsDouble`, `ReadsDoubleGap` - the rest of a quoted text is read
- `readQuoted_single`, `readQuoted_double` - quoted scalars are read up to the closing quote
- `readEscape_escapeChar` - an escape is read as its character
-/

namespace LegacyAudit.Yaml

open LegacyAudit.Text
open Content (blanks)

-- ═══════════════════════════════════════════════════════════════════════════
-- The loop
-- ═══════════════════════════════════════════════════════════════════════════

section Loop

variable {single : Bool} {fuel : Nat} {text rest : List Char} {c : Cursor} {m : Mark}

/-- What is done behind a part of a quoted scalar without blanks and breaks. -/
def behindPart (single : Bool) (fuel : Nat) (text : List Char) (c : Cursor) :
    Except Fault (List Char × Cursor) :=
  if c.peek = some (if single then '\'' else '"') then .ok (text, c.skip 1)
  else do
    let (g, c) ← readGap 0 {} c.mark c.rest
    readQuotedWords single fuel (g.reversed ++ text) c

theorem behindPart_single :
    behindPart true fuel text ⟨'\'' :: rest, m⟩ = .ok (text, ⟨rest, m.next '\''⟩) := rfl

theorem behindPart_double :
    behindPart false fuel text ⟨'"' :: rest, m⟩ = .ok (text, ⟨rest, m.next '"'⟩) := rfl

/-- Behind a part that ends in front of something else than a quote comes a gap. -/
theorem behindPart_gap {d : Char} (h : d ≠ (if single then '\'' else '"')) :
    behindPart single fuel text ⟨d :: rest, m⟩ =
      readGap 0 {} m (d :: rest) >>= fun (g, c) =>
        readQuotedWords single fuel (g.reversed ++ text) c := by
  rw [behindPart, if_neg (by simpa [Cursor.peek] using h)]

theorem readQuotedWords_single (hcolumn : 0 < c.mark.column) (hrest : c.rest ≠ []) :
    readQuotedWords true (fuel + 1) text c =
      behindPart true fuel (readSingle 0 c.mark text c.rest).1
        (readSingle 0 c.mark text c.rest).2 := by
  rw [readQuotedWords]
  simp only [atDocumentMark_eq_false hcolumn, List.isEmpty_eq_false_iff.mpr hrest]
  simp [behindPart, pure, Except.pure, bind, Except.bind]

end Loop

-- ═══════════════════════════════════════════════════════════════════════════
-- Single quotes
-- ═══════════════════════════════════════════════════════════════════════════

/-- A printable text without line feeds whose spaces and line breaks are apart from each other. -/
structure Apart (text : List Char) : Prop where
  printable : ∀ c ∈ text, isPrintable c = true ∧ c ≠ '\n'
  spaceBreak : hasNeighbours isSpace isBreak text = false
  breakSpace : hasNeighbours isBreak isSpace text = false

theorem hasNeighbours_cons_cons {first second : Char → Bool} (a b : Char) (text : List Char) :
    hasNeighbours first second (a :: b :: text) =
      (first a && second b || hasNeighbours first second (b :: text)) := by
  simp [hasNeighbours]

section Single

variable {a c : Char} {text acc rest : List Char} {indent fuel : Nat} {m : Mark} {g : Gap}

namespace Apart

theorem tail (h : Apart (c :: text)) : Apart text := by
  obtain ⟨hprintable, hspaceBreak, hbreakSpace⟩ := h
  have htail : ∀ {p q : Char → Bool}, hasNeighbours p q (c :: text) = false →
      hasNeighbours p q text = false := by
    intro p q hpq
    cases text with
    | nil => rfl
    | cons d text =>
      rw [hasNeighbours_cons_cons, Bool.or_eq_false_iff] at hpq
      exact hpq.2
  exact ⟨fun d hd => hprintable d (List.mem_cons_of_mem c hd), htail hspaceBreak,
    htail hbreakSpace⟩

theorem isBreak_eq_false (h : Apart (' ' :: c :: text)) : isBreak c = false := by
  have := h.spaceBreak
  rw [hasNeighbours_cons_cons, Bool.or_eq_false_iff] at this
  simpa [isSpace] using this.1

theorem ne_space (h : Apart (a :: c :: text)) (ha : isBreak a = true) : c ≠ ' ' := by
  have := h.breakSpace
  rw [hasNeighbours_cons_cons, Bool.or_eq_false_iff] at this
  simpa [ha, isSpace] using this.1

theorem separator (h : Apart (c :: text)) (hc : isBreak c = true) :
    c ≠ '\r' ∧ c ≠ '\n' ∧ breakAs c = c := by
  obtain ⟨hprintable, hfeed⟩ := h.printable c List.mem_cons_self
  exact ⟨(ne_of_isPrintable hprintable).2, hfeed, breakAs_of_isPrintable hprintable hc⟩

theorem head (h : Apart (c :: text)) : isBreak c = true ∨ c = ' ' ∨
    isGap c = false ∧ isBreak c = false := by
  have htab := (ne_of_isPrintable (h.printable c List.mem_cons_self).1).1
  by_cases hspace : c = ' '
  · exact .inr (.inl hspace)
  · cases hbreak : isBreak c with
    | true => exact .inl rfl
    | false => exact .inr (.inr ⟨isGap_eq_false ⟨hspace, htab⟩, rfl⟩)

end Apart

/-- A gap with line breaks, the first of which is a separator. -/
structure Gap.Separates (g : Gap) : Prop where
  broken : g.broken = true
  first : g.first ≠ some '\n'

theorem Gap.separates_addBreak (hc : c ≠ '\n') :
    (({} : Gap).addBreak c).Separates ∧ (({} : Gap).addBreak c).reversed = [c] := by
  have heq : ({} : Gap).addBreak c = { broken := true, first := some c } := rfl
  rw [heq]
  exact ⟨⟨rfl, by simpa using hc⟩, by simp [Gap.reversed, hc]⟩

theorem Gap.Separates.addBreak (h : g.Separates) :
    (g.addBreak c).Separates ∧ (g.addBreak c).reversed = c :: g.reversed := by
  obtain ⟨hbroken, hfirst⟩ := h
  have heq : g.addBreak c = { g with more := c :: g.more } := by simp [Gap.addBreak, hbroken]
  rw [heq]
  exact ⟨⟨hbroken, hfirst⟩, by simp [Gap.reversed, hbroken, hfirst]⟩

theorem length_le_singleQuotedBody {fresh : Bool} :
    text.length ≤ (singleQuotedBody indent fresh text).length := by
  induction text generalizing fresh with
  | nil => simp
  | cons c text ih =>
    have hbreak := @ih true
    have hword := @ih false
    rw [singleQuotedBody]
    split
    · simpa using hbreak
    · split <;> split <;> simp <;> omega

theorem singleQuotedBody_true (h : ∀ c ∈ text.head?, isBreak c = false) :
    singleQuotedBody indent true text = blanks indent ++ singleQuotedBody indent false text := by
  cases text with
  | nil => simp [singleQuotedBody, blanks]
  | cons c text => simp [singleQuotedBody, h c rfl, blanks]

theorem word_singleQuotedBody (h : ∀ c ∈ text.head?, isGap c = false ∧ isBreak c = false) :
    ∀ d ∈ (singleQuotedBody indent false text ++ '\'' :: rest).head?,
      isGap d = false ∧ isBreak d = false := by
  have hquote : isGap '\'' = false ∧ isBreak '\'' = false := ⟨by decide, by decide⟩
  cases text with
  | nil => simpa [singleQuotedBody] using hquote
  | cons c text =>
    obtain ⟨hgap, hbreak⟩ := h c rfl
    by_cases hc : c = '\''
    · simpa [singleQuotedBody, hc, hquote.2] using hquote
    · simpa [singleQuotedBody, hc, hbreak] using hgap

theorem readSingle_stop (h : isGap c = true ∨ isBreak c = true) :
    readSingle 0 m acc (c :: rest) = (acc, ⟨c :: rest, m⟩) := by
  rw [readSingle.eq_def]
  exact if_pos (by simpa using h)

theorem readSingle_cons (hgap : isGap c = false) (hbreak : isBreak c = false) (hc : c ≠ '\'') :
    readSingle 0 m acc (c :: rest) = readSingle 0 (m.next c) (c :: acc) rest := by
  rw [readSingle.eq_def]
  simp [hgap, hbreak, hc]

theorem readSingle_quote : readSingle 0 m acc ('\'' :: '\'' :: rest) =
    readSingle 0 ((m.next '\'').next '\'') ('\'' :: acc) rest := by
  rw [readSingle.eq_def]
  simp [show isGap '\'' = false by decide, show isBreak '\'' = false by decide, readSingle]

/-- Reading ends behind the closing quote, in the given line or a later one. -/
def Closes (result : Except Fault (List Char × Cursor)) (text rest : List Char) (line : Nat) :
    Prop :=
  ∃ m : Mark, line ≤ m.line ∧ result = .ok (text, ⟨rest, m⟩)

theorem Closes.mono {result : Except Fault (List Char × Cursor)} {line line' : Nat}
    (h : Closes result text rest line) (hline : line' ≤ line) : Closes result text rest line' := by
  obtain ⟨m, hm, hresult⟩ := h
  exact ⟨m, Nat.le_trans hline hm, hresult⟩

/-- The rest of a quoted text is read from inside a word. -/
def ReadsWord (indent : Nat) (rest text : List Char) : Prop :=
  ∀ (fuel : Nat) (acc : List Char) (m : Mark), text.length ≤ fuel →
    Closes (behindPart true fuel
        (readSingle 0 m acc (singleQuotedBody indent false text ++ '\'' :: rest)).1
        (readSingle 0 m acc (singleQuotedBody indent false text ++ '\'' :: rest)).2)
      (text.reverse ++ acc) rest m.line

/-- The rest of a quoted text is read from inside a gap. -/
def ReadsGap (indent : Nat) (rest text : List Char) (fresh : Bool) (g : Gap) : Prop :=
  ∀ (fuel : Nat) (acc : List Char) (m : Mark), fresh = true ∨ 0 < m.column → text.length < fuel →
    Closes (readGap 0 g m (singleQuotedBody indent fresh text ++ '\'' :: rest) >>= fun (g, c) =>
        readQuotedWords true fuel (g.reversed ++ acc) c)
      (text.reverse ++ g.reversed ++ acc) rest m.line

theorem readsWord_nil (hrest : rest.head? ≠ some '\'') : ReadsWord indent rest [] := by
  intro fuel acc m _
  have hread : readSingle 0 m acc ('\'' :: rest) = (acc, ⟨'\'' :: rest, m⟩) := by
    rw [readSingle.eq_def]
    simp [hrest, show isGap '\'' = false by decide, show isBreak '\'' = false by decide]
  refine ⟨m.next '\'', Nat.le_refl _, ?_⟩
  simp only [singleQuotedBody, Bool.false_eq_true, if_false, List.nil_append, hread]
  exact behindPart_single

theorem ReadsWord.cons (h : ReadsWord indent rest text)
    (hword : isGap c = false ∧ isBreak c = false) : ReadsWord indent rest (c :: text) := by
  intro fuel acc m hfuel
  have hlength : text.length ≤ fuel := Nat.le_of_lt hfuel
  by_cases hc : c = '\''
  · have hread := h fuel ('\'' :: acc) ((m.next '\'').next '\'') hlength
    have hbody : singleQuotedBody indent false (c :: text) =
        '\'' :: '\'' :: singleQuotedBody indent false text := by
      simp [singleQuotedBody, hc, show isBreak '\'' = false by decide]
    rw [hbody, List.cons_append, List.cons_append, readSingle_quote]
    simpa [hc] using hread
  · have hread := h fuel (c :: acc) (m.next c) hlength
    have hbody : singleQuotedBody indent false (c :: text) =
        c :: singleQuotedBody indent false text := by
      simp [singleQuotedBody, hword.2, hc]
    rw [hbody, List.cons_append, readSingle_cons hword.1 hword.2 hc]
    simpa using hread

theorem singleQuotedBody_space :
    singleQuotedBody indent false (' ' :: text) = ' ' :: singleQuotedBody indent false text := by
  simp [singleQuotedBody, show isBreak ' ' = false by decide]

theorem ReadsGap.behind_word (h : ReadsGap indent rest text false { blanks := [' '] }) :
    ReadsWord indent rest (' ' :: text) := by
  intro fuel acc m hfuel
  have hread := h fuel acc (m.next ' ') (.inr (Nat.succ_pos _)) hfuel
  rw [singleQuotedBody_space, List.cons_append, readSingle_stop (.inl (by decide))]
  simp only
  rw [behindPart_gap (by decide), readGap_space]
  simpa using hread

theorem ReadsGap.space {spaces : List Char}
    (h : ReadsGap indent rest text false { blanks := ' ' :: spaces }) :
    ReadsGap indent rest (' ' :: text) false { blanks := spaces } := by
  intro fuel acc m _ hfuel
  have hread := h fuel acc (m.next ' ') (.inr (Nat.succ_pos _)) (Nat.lt_of_succ_lt hfuel)
  rw [singleQuotedBody_space, List.cons_append, readGap_space]
  simpa using hread

theorem ReadsGap.behind_line (h : ReadsGap indent rest text true (({} : Gap).addBreak c))
    (hbreak : isBreak c = true) (hc : c ≠ '\r' ∧ c ≠ '\n' ∧ breakAs c = c) :
    ReadsWord indent rest (c :: text) := by
  intro fuel acc m hfuel
  obtain ⟨hreturn, hfeed, has⟩ := hc
  have hread := h fuel acc (m.nextLine c.utf8Size) (.inl rfl) hfuel
  have hquote : c ≠ '\'' := by
    rintro rfl
    exact absurd hbreak (by decide)
  have hbody : singleQuotedBody indent false (c :: text) =
      c :: singleQuotedBody indent true text := by simp [singleQuotedBody, hbreak]
  rw [hbody, List.cons_append, readSingle_stop (.inr hbreak)]
  simp only
  rw [behindPart_gap hquote, readGap_break hbreak hreturn, has]
  rw [(Gap.separates_addBreak hfeed).2] at hread
  simpa using hread.mono (Nat.le_succ _)

theorem ReadsGap.line (h : ReadsGap indent rest text true (g.addBreak c)) (hg : g.Separates)
    (hbreak : isBreak c = true) (hc : c ≠ '\r' ∧ c ≠ '\n' ∧ breakAs c = c) :
    ReadsGap indent rest (c :: text) true g := by
  intro fuel acc m _ hfuel
  obtain ⟨hreturn, _, has⟩ := hc
  have hread := h fuel acc (m.nextLine c.utf8Size) (.inl rfl) (Nat.lt_of_succ_lt hfuel)
  have hbody : singleQuotedBody indent true (c :: text) =
      c :: singleQuotedBody indent true text := by simp [singleQuotedBody, hbreak]
  rw [hbody, List.cons_append, readGap_break hbreak hreturn, has]
  rw [hg.addBreak.2] at hread
  simpa using hread.mono (Nat.le_succ _)

theorem ReadsWord.behind_spaces (h : ReadsWord indent rest text)
    (hhead : ∀ c ∈ text.head?, isGap c = false ∧ isBreak c = false) :
    ReadsGap indent rest text false g := by
  intro fuel acc m hcolumn hfuel
  obtain ⟨fuel, rfl⟩ : ∃ f, fuel = f + 1 := ⟨fuel - 1, by omega⟩
  rw [readGap_stop (word_singleQuotedBody hhead)]
  change Closes (readQuotedWords true (fuel + 1) _ _) _ _ _
  rw [readQuotedWords_single (by simpa using hcolumn) (by simp)]
  simpa using h fuel _ _ (Nat.lt_succ_iff.mp hfuel)

theorem ReadsWord.behind_lines (h : ReadsWord indent rest text) (hindent : 0 < indent)
    (hhead : ∀ c ∈ text.head?, isGap c = false ∧ isBreak c = false) (hg : g.broken = true) :
    ReadsGap indent rest text true g := by
  intro fuel acc m _ hfuel
  obtain ⟨_, hline, hcolumn⟩ := m.skip_spec (blanks indent)
  rw [length_blanks] at hcolumn
  rw [singleQuotedBody_true fun c hc => (hhead c hc).2, List.append_assoc, readGap_blanks hg]
  exact (h.behind_spaces hhead _ _ _ (.inr (by omega)) hfuel).mono (Nat.le_of_eq hline.symm)

/-- A text is read from inside a word, behind a space from inside spaces, and behind a separator
from the start of a line. -/
theorem reads_apart (hindent : 0 < indent) (hrest : rest.head? ≠ some '\'') :
    (Apart text → ReadsWord indent rest text) ∧
    (∀ spaces, Apart (' ' :: text) → ReadsGap indent rest text false { blanks := spaces }) ∧
    (∀ b g, isBreak b = true → Apart (b :: text) → g.Separates →
      ReadsGap indent rest text true g) := by
  induction text with
  | nil =>
    have hword : ReadsWord indent rest [] := readsWord_nil hrest
    refine ⟨fun _ => hword, fun _ _ => hword.behind_spaces (by simp), ?_⟩
    intro _ _ _ _ hg
    exact hword.behind_lines hindent (by simp) hg.broken
  | cons c text ih =>
    -- which part of the hypothesis applies depends on the next character
    obtain ⟨ihWord, ihSpaces, ihLines⟩ := ih
    have hword (hapart : Apart (c :: text)) : ReadsWord indent rest (c :: text) := by
      rcases hapart.head with hbreak | rfl | hc
      · have hc := hapart.separator hbreak
        have hg := (Gap.separates_addBreak hc.2.1).1
        exact (ihLines c _ hbreak hapart hg).behind_line hbreak hc
      · exact (ihSpaces [' '] hapart).behind_word
      · exact (ihWord hapart.tail).cons hc
    refine ⟨hword, ?_, ?_⟩
    · intro spaces hapart
      rcases hapart.tail.head with hbreak | rfl | hc
      · -- no break stands behind a space
        exact absurd hapart.isBreak_eq_false (by simp [hbreak])
      · exact (ihSpaces (' ' :: spaces) hapart.tail).space
      · exact (hword hapart.tail).behind_spaces (by simpa using hc)
    · intro b g hb hapart hg
      rcases hapart.tail.head with hbreak | rfl | hc
      · have hc := hapart.tail.separator hbreak
        exact (ihLines c _ hbreak hapart.tail hg.addBreak.1).line hg hbreak hc
      · exact absurd rfl (hapart.ne_space hb)
      · exact (hword hapart.tail).behind_lines hindent (by simpa using hc) hg.broken

theorem readQuoted_single (htext : Apart text) (hindent : 0 < indent)
    (hrest : rest.head? ≠ some '\'') (hcolumn : 0 < m.column) :
    Closes (readQuoted true ⟨singleQuotedBody indent false text ++ '\'' :: rest, m⟩) text rest
      m.line := by
  let c : Cursor := ⟨singleQuotedBody indent false text ++ '\'' :: rest, m⟩
  have hlength : text.length ≤ c.rest.length := by
    have := @length_le_singleQuotedBody text indent false
    simp only [c, List.length_append]
    omega
  obtain ⟨m', hline, hread⟩ :=
    (reads_apart hindent hrest).1 htext c.rest.length [] m hlength
  refine ⟨m', hline, ?_⟩
  have hwords := @readQuotedWords_single c.rest.length [] c hcolumn (by simp [c])
  change (readQuotedWords true (c.rest.length + 1) [] c >>= fun p => pure (p.1.reverse, p.2)) = _
  rw [hwords, hread]
  simp [pure, Except.pure, bind, Except.bind]

end Single

-- ═══════════════════════════════════════════════════════════════════════════
-- Escapes
-- ═══════════════════════════════════════════════════════════════════════════

theorem upperHex_spec {width n : Nat} (hwidth : 0 < width) (hn : n < Nat.pow 16 width) :
    (upperHex width n).length = width ∧ numeral? 16 (upperHex width n) = some n := by
  have hlength : (hexChars n).length ≤ width + 0 :=
    length_digitsOnto_le (by omega) [] hn hwidth
  have hcount : (upperHex width n).length = width := by
    simp only [upperHex, List.length_append, List.length_replicate, List.length_map]
    omega
  refine ⟨hcount, ?_⟩
  have hne : (upperHex width n).isEmpty = false := by
    rw [List.isEmpty_eq_false_iff, ← List.length_pos_iff, hcount]
    exact hwidth
  rw [numeral?, if_neg (by simp [hne]), upperHex,
    numeralFrom?_replicate_zero (by omega), hexChars,
    numeralFrom?_map_digitsOnto (by omega) fun d hd => digitValue?_toUpper_digitChar hd]
  rfl

theorem readCode_upperHex {width : Nat} (c : Char) (hwidth : 0 < width)
    (hc : c.toNat < Nat.pow 16 width) (rest : List Char) :
    readCode width (upperHex width c.toNat ++ rest) = some (c, width + 1) := by
  obtain ⟨hlength, hvalue⟩ := upperHex_spec hwidth hc
  have htake : (upperHex width c.toNat ++ rest).take width = upperHex width c.toNat := by
    rw [List.take_append_of_le_length (by omega), List.take_of_length_le (by omega)]
  have hvalid : c.toNat.isValidChar := c.valid
  rw [readCode, htake, if_pos hlength, hvalue]
  simp [hvalid]

theorem readEscape_escapeChar (c : Char) : ∃ letter digits,
    escapeChar c = '\\' :: letter :: digits ∧ isBreak letter = false ∧
      ∀ rest, readEscape (letter :: (digits ++ rest)) = some (c, digits.length + 1) := by
  unfold escapeChar
  cases hletter : escapeLetters.lookup c with
  | some letter =>
    have hmem : (c, letter) ∈ escapeLetters := by
      obtain ⟨before, behind, heq, _⟩ := List.lookup_eq_some_iff.mp hletter
      simp [heq]
    have hknown : ∀ p ∈ escapeLetters, isBreak p.2 = false ∧
        ∀ rest, readEscape (p.2 :: rest) = some (p.1, 1) := by
      simp [escapeLetters, readEscape]
      decide
    exact ⟨letter, [], rfl, hknown (c, letter) hmem⟩
  | none =>
    have hlimit : c.toNat < 0x110000 := by
      have hvalid := toNat_valid c
      omega
    have hcode {width : Nat} (hwidth : 0 < width) (hc : c.toNat < Nat.pow 16 width) (rest) :
        readCode width (upperHex width c.toNat ++ rest) =
          some (c, (upperHex width c.toNat).length + 1) := by
      rw [readCode_upperHex c hwidth hc, (upperHex_spec hwidth hc).1]
    dsimp only
    split
    · exact ⟨'x', _, rfl, by decide, hcode (by omega) (by simp; omega)⟩
    · split
      · exact ⟨'u', _, rfl, by decide, hcode (by omega) (by simp; omega)⟩
      · exact ⟨'U', _, rfl, by decide, hcode (by omega) (by simp; omega)⟩

-- ═══════════════════════════════════════════════════════════════════════════
-- Double quotes
-- ═══════════════════════════════════════════════════════════════════════════

section Double

variable {c : Char} {text acc rest : List Char} {fuel : Nat} {m : Mark}

theorem readDouble_stop (h : isGap c = true ∨ isBreak c = true ∨ c = '"') :
    readDouble 0 m acc (c :: rest) = .ok (acc, ⟨c :: rest, m⟩) := by
  rw [readDouble.eq_def]
  exact if_pos (by simpa [or_assoc] using h)

theorem readDouble_cons (hgap : isGap c = false) (hbreak : isBreak c = false) (hquote : c ≠ '"')
    (hslash : c ≠ '\\') :
    readDouble 0 m acc (c :: rest) = readDouble 0 (m.next c) (c :: acc) rest := by
  rw [readDouble.eq_def]
  simp [hgap, hbreak, hquote, hslash]

theorem readDouble_skip (done : List Char) :
    readDouble done.length m acc (done ++ rest) = readDouble 0 (m.skip done) acc rest := by
  induction done generalizing m with
  | nil => rfl
  | cons d done ih =>
    rw [List.cons_append, List.length_cons, readDouble.eq_def]
    exact ih

theorem readDouble_escapeChar (c : Char) : ∃ m' : Mark, m'.line = m.line ∧
    m.column < m'.column ∧
      readDouble 0 m acc (escapeChar c ++ rest) = readDouble 0 m' (c :: acc) rest := by
  obtain ⟨letter, digits, hescape, hbreak, hread⟩ := readEscape_escapeChar c
  obtain ⟨_, hline, hcolumn⟩ := (m.next '\\').skip_spec (letter :: digits)
  refine ⟨(m.next '\\').skip (letter :: digits), hline, ?_, ?_⟩
  · rw [hcolumn]
    simp only [Mark.next_column]
    omega
  · rw [hescape, List.cons_append, readDouble.eq_def]
    simp only [show isGap '\\' = false by decide, show isBreak '\\' = false by decide,
      List.cons_append, takesBreakAway, hbreak, hread]
    exact readDouble_skip (letter :: digits)

/-- A character between double quotes is a space, part of a word or an escape. -/
theorem doubleQuotedChar_cases (c : Char) : c = ' ' ∧ doubleQuotedChar c = [' '] ∨
    (isGap c = false ∧ isBreak c = false ∧ c ≠ '"' ∧ c ≠ '\\') ∧ doubleQuotedChar c = [c] ∨
    c ≠ ' ' ∧ doubleQuotedChar c = escapeChar c := by
  unfold doubleQuotedChar
  split
  · next h =>
    simp only [Bool.and_eq_true, Bool.not_eq_true', decide_eq_true_eq] at h
    obtain ⟨⟨⟨hprintable, hbreak⟩, hquote⟩, hslash⟩ := h
    by_cases hspace : c = ' '
    · exact .inl ⟨hspace, by rw [hspace]⟩
    · have hgap := isGap_eq_false ⟨hspace, (ne_of_isPrintable hprintable).1⟩
      exact .inr (.inl ⟨⟨hgap, hbreak, hquote, hslash⟩, rfl⟩)
  · next h =>
    refine .inr (.inr ⟨?_, rfl⟩)
    rintro rfl
    exact h (by decide)

theorem length_le_doubleQuoted (text : List Char) :
    text.length ≤ (text.flatMap doubleQuotedChar).length := by
  induction text with
  | nil => simp
  | cons c text ih =>
    have hpos : 0 < (doubleQuotedChar c).length := by
      rcases doubleQuotedChar_cases c with ⟨_, hchar⟩ | ⟨_, hchar⟩ | ⟨_, hchar⟩
      · simp [hchar]
      · simp [hchar]
      · obtain ⟨letter, digits, hescape, _⟩ := readEscape_escapeChar c
        simp [hchar, hescape]
    rw [List.flatMap_cons, List.length_append, List.length_cons]
    omega

theorem word_doubleQuoted (h : ∀ c ∈ text.head?, c ≠ ' ') :
    ∀ d ∈ (text.flatMap doubleQuotedChar ++ '"' :: rest).head?,
      isGap d = false ∧ isBreak d = false := by
  intro d hd
  cases text with
  | nil =>
    obtain rfl : '"' = d := by simpa using hd
    exact ⟨by decide, by decide⟩
  | cons c text =>
    rw [List.flatMap_cons, List.append_assoc] at hd
    rcases doubleQuotedChar_cases c with ⟨hc, _⟩ | ⟨⟨hgap, hbreak, _⟩, hchar⟩ | ⟨_, hchar⟩
    · exact absurd hc (h c rfl)
    · rw [hchar] at hd
      obtain rfl : c = d := by simpa using hd
      exact ⟨hgap, hbreak⟩
    · obtain ⟨letter, digits, hescape, _⟩ := readEscape_escapeChar c
      rw [hchar, hescape] at hd
      obtain rfl : '\\' = d := by simpa using hd
      exact ⟨by decide, by decide⟩

theorem readQuotedWords_double {c c' : Cursor} {text' : List Char} (hcolumn : 0 < c.mark.column)
    (hrest : c.rest ≠ []) (hread : readDouble 0 c.mark text c.rest = .ok (text', c'))
    (htakes : takesBreakAway c'.rest = false) :
    readQuotedWords false (fuel + 1) text c = behindPart false fuel text' c' := by
  rw [readQuotedWords]
  simp only [atDocumentMark_eq_false hcolumn, List.isEmpty_eq_false_iff.mpr hrest, hread]
  simp [behindPart, htakes, pure, Except.pure, bind, Except.bind]

/-- The rest of a text in double quotes is read from inside a word. -/
def ReadsDouble (rest text : List Char) : Prop :=
  ∀ (fuel : Nat) (acc : List Char) (m : Mark), text.length ≤ fuel → 0 < m.column → ∃ acc' c',
    readDouble 0 m acc (text.flatMap doubleQuotedChar ++ '"' :: rest) = .ok (acc', c') ∧
      takesBreakAway c'.rest = false ∧
      Closes (behindPart false fuel acc' c') (text.reverse ++ acc) rest m.line

/-- The rest of a text in double quotes is read from inside a gap. -/
def ReadsDoubleGap (rest text : List Char) : Prop :=
  ∀ (fuel : Nat) (acc spaces : List Char) (m : Mark), text.length < fuel → 0 < m.column →
    Closes (readGap 0 { blanks := spaces } m
        (text.flatMap doubleQuotedChar ++ '"' :: rest) >>= fun (g, c) =>
          readQuotedWords false fuel (g.reversed ++ acc) c)
      (text.reverse ++ spaces ++ acc) rest m.line

theorem readsDouble_nil : ReadsDouble rest [] := by
  intro fuel acc m _ _
  refine ⟨acc, ⟨'"' :: rest, m⟩, readDouble_stop (.inr (.inr rfl)), rfl, m.next '"',
    Nat.le_refl _, ?_⟩
  exact behindPart_double

theorem ReadsDouble.cons (h : ReadsDouble rest text) (hspace : c ≠ ' ') :
    ReadsDouble rest (c :: text) := by
  intro fuel acc m hfuel hcolumn
  have hlength : text.length ≤ fuel := Nat.le_of_lt hfuel
  rw [List.flatMap_cons, List.append_assoc]
  rcases doubleQuotedChar_cases c with
    ⟨hc, _⟩ | ⟨⟨hgap, hbreak, hquote, hslash⟩, hchar⟩ | ⟨_, hchar⟩
  · exact absurd hc hspace
  · have hread := h fuel (c :: acc) (m.next c) hlength (Nat.succ_pos _)
    rw [hchar, List.cons_append, List.nil_append, readDouble_cons hgap hbreak hquote hslash]
    simpa using hread
  · obtain ⟨m', hline, hcolumn', hescape⟩ := @readDouble_escapeChar acc
      (text.flatMap doubleQuotedChar ++ '"' :: rest) m c
    have hread := h fuel (c :: acc) m' hlength (by omega)
    rw [hchar, hescape, ← hline]
    simpa using hread

theorem doubleQuotedChar_space : doubleQuotedChar ' ' = [' '] := by
  decide

theorem ReadsDoubleGap.behind_word (h : ReadsDoubleGap rest text) :
    ReadsDouble rest (' ' :: text) := by
  intro fuel acc m hfuel _
  have hread := h fuel acc [' '] (m.next ' ') hfuel (Nat.succ_pos _)
  rw [List.flatMap_cons, doubleQuotedChar_space, List.cons_append, List.nil_append,
    List.cons_append]
  refine ⟨acc, _, readDouble_stop (.inl (by decide)), rfl, ?_⟩
  rw [behindPart_gap (by decide), readGap_space]
  simpa using hread

theorem ReadsDoubleGap.space (h : ReadsDoubleGap rest text) :
    ReadsDoubleGap rest (' ' :: text) := by
  intro fuel acc spaces m hfuel _
  have hread := h fuel acc (' ' :: spaces) (m.next ' ') (Nat.lt_of_succ_lt hfuel)
    (Nat.succ_pos _)
  rw [List.flatMap_cons, doubleQuotedChar_space, List.cons_append, List.cons_append, readGap_space]
  simpa using hread

theorem ReadsDouble.behind_gap (h : ReadsDouble rest text) (hhead : ∀ c ∈ text.head?, c ≠ ' ') :
    ReadsDoubleGap rest text := by
  intro fuel acc spaces m hfuel hcolumn
  obtain ⟨fuel, rfl⟩ : ∃ f, fuel = f + 1 := ⟨fuel - 1, by omega⟩
  obtain ⟨acc', c', hread, htakes, hcloses⟩ :=
    h fuel (spaces ++ acc) m (Nat.lt_succ_iff.mp hfuel) hcolumn
  rw [readGap_stop (word_doubleQuoted hhead)]
  change Closes (readQuotedWords false (fuel + 1) _ _) _ _ _
  rw [readQuotedWords_double hcolumn (by simp) hread htakes]
  simpa using hcloses

theorem reads_double : ReadsDouble rest text ∧ ReadsDoubleGap rest text := by
  induction text with
  | nil => exact ⟨readsDouble_nil, readsDouble_nil.behind_gap (by simp)⟩
  | cons c text ih =>
    obtain ⟨hword, hgap⟩ := ih
    by_cases hspace : c = ' '
    · subst hspace
      exact ⟨hgap.behind_word, hgap.space⟩
    · have hcons := hword.cons hspace
      exact ⟨hcons, hcons.behind_gap (by simpa using hspace)⟩

theorem readQuoted_double (text : List Char) (hcolumn : 0 < m.column) :
    Closes (readQuoted false ⟨text.flatMap doubleQuotedChar ++ '"' :: rest, m⟩) text rest
      m.line := by
  let c : Cursor := ⟨text.flatMap doubleQuotedChar ++ '"' :: rest, m⟩
  have hlength : text.length ≤ c.rest.length := by
    have := length_le_doubleQuoted text
    simp only [c, List.length_append]
    omega
  obtain ⟨acc', c', hread, htakes, m', hline, hcloses⟩ :=
    reads_double.1 c.rest.length [] m hlength hcolumn
  refine ⟨m', hline, ?_⟩
  have hwords := @readQuotedWords_double [] c.rest.length c c' acc' hcolumn (by simp [c]) hread
    htakes
  change (readQuotedWords false (c.rest.length + 1) [] c >>= fun p => pure (p.1.reverse, p.2)) = _
  rw [hwords, hcloses]
  simp [pure, Except.pure, bind, Except.bind]

end Double

end LegacyAudit.Yaml
