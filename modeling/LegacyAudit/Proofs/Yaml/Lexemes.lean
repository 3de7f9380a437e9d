import LegacyAudit.Proofs.Text.Decimal
import LegacyAudit.Proofs.Yaml.Literal
import LegacyAudit.Proofs.Yaml.Moves
import LegacyAudit.Proofs.Yaml.Plain
import LegacyAudit.Proofs.Yaml.Quoted

/-!
# Scalars, keys and hyphens as tokens

Each piece of a document that is written takes the token reader from one place to the next: a scalar
to the next line, a key behind its colon, the hyphen of an item in front of that item.

## Main definitions

- `TokenReader.Leads` - tokens are read up to a place in a later line
- `TokenReader.leads_scalar`, `TokenReader.leads_number` - values
- `TokenReader.reaches_key`, `TokenReader.reaches_hyphen` - what stands in front of values
-/

namespace LegacyAudit.Yaml

open Text
open Content (blanks)

-- ═══════════════════════════════════════════════════════════════════════════
-- Styles and lines
-- ═══════════════════════════════════════════════════════════════════════════

section Styles

variable {text rest : List Char}

theorem printable_of_needsEscapes (h : needsEscapes text = false) :
    ∀ c ∈ text, isPrintable c = true := by
  intro c hc
  have hany := (Bool.or_eq_false_iff.mp h).1
  simpa using List.any_eq_false.mp hany c hc

/-- What is known of a text that is written in a style. -/
def Suits (text : List Char) : ScalarStyle → Prop
  | .plain => text ≠ [] ∧ allowsPlain text = true
  | .singleQuoted => Apart text
  | .doubleQuoted => True
  | .literal => text ≠ [] ∧ ∀ c ∈ text, isPrintable c = true
  | .folded => False

theorem suits_styleFor (value : String) : Suits value.toList (styleFor value) := by
  simp only [styleFor]
  split
  · next hfeed =>
    split
    · next hliteral =>
      simp only [allowsLiteral, Bool.not_eq_true', Bool.or_eq_false_iff] at hliteral
      -- the empty text has no line feed
      refine ⟨?_, printable_of_needsEscapes hliteral.1⟩
      intro hnil
      simp [hnil] at hfeed
    · trivial
  · next hfeed =>
    split
    · next hplain =>
      simp only [readsAsText, Bool.and_eq_true, Bool.not_eq_true', Bool.or_eq_false_iff] at hplain
      obtain ⟨⟨⟨⟨⟨⟨hempty, _⟩, _⟩, _⟩, _⟩, _⟩, hallows⟩ := hplain
      exact ⟨by simpa using hempty, hallows⟩
    · split
      · next hsingle =>
        simp only [allowsSingleQuotes, Bool.not_eq_true', Bool.or_eq_false_iff] at hsingle
        refine ⟨fun c hc => ⟨printable_of_needsEscapes hsingle.1 c hc, ?_⟩, ?_, hsingle.2⟩
        · rintro rfl
          exact hfeed (by simpa using hc)
        · exact (Bool.or_eq_false_iff.mp hsingle.1).2
      · trivial

theorem endLine_append {line : List Char} (h : ∀ c ∈ line.getLast?, isBreak c = false) :
    Content.endLine line ++ rest = line ++ '\n' :: rest := by
  have hlast : line.getLast?.any isBreak = false := by
    cases hline : line.getLast? with
    | none => rfl
    | some c => exact h c hline
  rw [Content.endLine, if_neg (by simp [hlast]), List.append_assoc]
  rfl

/-- The quote that begins and ends a scalar of a style. -/
inductive Quotes : ScalarStyle → Char → Prop
  | single : Quotes .singleQuoted '\''
  | double : Quotes .doubleQuoted '"'

theorem endLine_quoted {style : ScalarStyle} {quote : Char} (hquote : Quotes style quote)
    (quoted : List Char) : Content.endLine (quote :: quoted ++ [quote]) ++ rest =
      quote :: (quoted ++ quote :: '\n' :: rest) := by
  rw [endLine_append]
  · simp
  · simp only [List.getLast?_append, List.getLast?_singleton]
    rintro _ ⟨⟩
    cases hquote <;> decide

theorem endLine_plain (h : allowsPlain text = true) :
    Content.endLine text ++ rest = text ++ '\n' :: rest := by
  apply endLine_append
  intro c hc
  simp only [allowsPlain, Bool.not_eq_true', Bool.or_eq_false_iff] at h
  simpa using List.any_eq_false.mp h.1.1.2 c (List.mem_of_mem_getLast? hc)

theorem solid_plain (hallows : allowsPlain text = true) (hne : text ≠ []) :
    Solid (text ++ rest) := by
  obtain ⟨ch, text, rfl⟩ := List.exists_cons_of_ne_nil hne
  obtain ⟨hprintable, hbreak, hspace, hstart, _⟩ := flows_of_allowsPlain hallows
  rintro _ ⟨⟩
  refine ⟨isGap_eq_false ⟨hspace, (ne_of_isPrintable hprintable).1⟩, hbreak,
    ne_hash_of_startsOtherwise hstart, ?_⟩
  rintro rfl
  exact absurd hprintable (by decide)

theorem isKeyChar_of_mem_decimalChars {n : Nat} : ∀ c ∈ decimalChars n, isKeyChar c = true := by
  intro c hc
  simp [isKeyChar, Char.isAlphanum, isDigit_of_mem_decimalChars c hc]

end Styles

namespace TokenReader

variable {r : TokenReader} {c : Cursor} {tokens tokens' : List Token} {level column : Nat}
  {levels : List Nat} {keyAllowed : Bool} {key : Option PossibleKey} {m : Mark}
  {text body rest : List Char}

/-- Tokens are read up to `body`, which stands at the given column of a later line. -/
def Leads (r : TokenReader) (body : List Char) (column : Nat) (tokens : List Token) (level : Nat)
    (levels : List Nat) : Prop :=
  ∃ r' m, Reaches r r' ∧ m.column = column ∧ Arrives r' ⟨body, m⟩ tokens level levels true

theorem Leads.of_reaches {r' : TokenReader} (h : Leads r' body column tokens level levels)
    (hreaches : Reaches r r') : Leads r body column tokens level levels := by
  obtain ⟨r'', m, hreaches', hm, harrives⟩ := h
  exact ⟨r'', m, hreaches.trans hreaches', hm, harrives⟩

theorem length_le_line (line : List Char) (column : Nat) :
    body.length ≤ (line ++ '\n' :: (blanks column ++ body)).length := by
  simp only [List.length_append, List.length_cons]
  omega

-- ═══════════════════════════════════════════════════════════════════════════
-- Indicators
-- ═══════════════════════════════════════════════════════════════════════════

section Indicators

variable (hdocument : r.cursor.atDocumentMark = false)

include hdocument

theorem readToken_quote {style : ScalarStyle} {quote : Char} (hquote : Quotes style quote) :
    r.readToken quote = r.readQuotedScalar style := by
  obtain ⟨hdash, hdot⟩ := Bool.or_eq_false_iff.mp hdocument
  cases hquote <;> simp [readToken, hdash, hdot]

theorem readToken_bar (hflow : r.inFlow = false) :
    r.readToken '|' = r.readBlockScalar .literal := by
  obtain ⟨hdash, hdot⟩ := Bool.or_eq_false_iff.mp hdocument
  simp [readToken, hdash, hdot, hflow]

theorem readToken_opening : r.readToken '[' = r.openFlow .flowSequenceStart := by
  obtain ⟨hdash, hdot⟩ := Bool.or_eq_false_iff.mp hdocument
  simp [readToken, hdash, hdot]

theorem readToken_closing : r.readToken ']' = r.closeFlow .flowSequenceEnd := by
  obtain ⟨hdash, hdot⟩ := Bool.or_eq_false_iff.mp hdocument
  simp [readToken, hdash, hdot]

theorem readToken_hyphen (hnext : endsWord (r.cursor.peekAt 1) = true) :
    r.readToken '-' = r.readBlockEntry := by
  obtain ⟨hdash, hdot⟩ := Bool.or_eq_false_iff.mp hdocument
  simp [readToken, hdash, hdot, hnext]

theorem readToken_colon (hnext : endsWord (r.cursor.peekAt 1) = true) :
    r.readToken ':' = r.readValueMark := by
  obtain ⟨hdash, hdot⟩ := Bool.or_eq_false_iff.mp hdocument
  simp [readToken, hdash, hdot, hnext]

end Indicators

-- ═══════════════════════════════════════════════════════════════════════════
-- Scalars
-- ═══════════════════════════════════════════════════════════════════════════

/-- The key that may begin in front of a scalar. -/
def keyAt (c : Cursor) (tokens : List Token) (level : Nat) (keyAllowed : Bool) :
    Option PossibleKey :=
  if keyAllowed then some ⟨level == c.mark.column + 1, tokens.length, c.mark⟩ else none

theorem saveKey_bare : (bare c tokens level levels keyAllowed).saveKey =
    .ok (standing c tokens level levels keyAllowed (keyAt c tokens level keyAllowed)) := by
  cases keyAllowed <;> rfl

theorem mark_of_mem_keyAt {k : PossibleKey} (h : k ∈ keyAt c tokens level keyAllowed) :
    k.mark = c.mark := by
  unfold keyAt at h
  split at h
  · cases h
    rfl
  · cases h

/-- Right of the keys of its block, a key is given up silently in the next line. -/
theorem fades_keyAt {line : Nat} (hlevel : level ≤ c.mark.column) (hline : c.mark.line < line) :
    Fades (keyAt c tokens level keyAllowed) line := by
  unfold keyAt
  split
  · rintro _ ⟨⟩
    refine ⟨?_, hline⟩
    simp only [beq_eq_false_iff_ne]
    omega
  · rintro _ ⟨⟩

/-- Of the marks that are indicators only in front of a blank, none stands in front of one. -/
def Unmarked (ch : Char) (rest : List Char) : Prop :=
  ∀ mark ∈ ['?', ':', '-'], ch = mark → endsWord rest.head? = false

theorem beginsPlain_of_unmarked {ch : Char} (hch : startIndicators.contains ch = false)
    (hword : isGap ch = false ∧ isBreak ch = false) (hmark : Unmarked ch rest) :
    beginsPlain false ch rest.head? = true := by
  simp only [startIndicators, List.contains_cons, List.contains_nil, Bool.or_eq_false_iff,
    beq_eq_false_iff_ne] at hch
  by_cases hne : ch = '?' ∨ ch = ':' ∨ ch = '-'
  · have hends : endsWord rest.head? = false := by
      rcases hne with rfl | rfl | rfl <;> exact hmark _ (by simp) rfl
    obtain ⟨d, hd⟩ : ∃ d, rest.head? = some d := by
      cases rest with
      | nil => exact absurd hends (by decide)
      | cons d _ => exact ⟨d, rfl⟩
    have hgap : isGap d = false := by
      rw [hd] at hends
      exact (Bool.or_eq_false_iff.mp hends).1
    rw [hd] at hends ⊢
    rcases hne with rfl | rfl | rfl <;> simp [beginsPlain, hends, hgap]
  · simp only [not_or] at hne
    simp [beginsPlain, indicators, hword, hne, hch]

/-- Anything but an indicator begins a plain scalar, and so do some indicators inside of a word. -/
theorem readToken_plain {ch : Char} (hch : startIndicators.contains ch = false)
    (hword : isGap ch = false ∧ isBreak ch = false) (hmark : Unmarked ch rest)
    (hdocument : (⟨ch :: rest, m⟩ : Cursor).atDocumentMark = false) :
    (bare ⟨ch :: rest, m⟩ tokens level levels keyAllowed).readToken ch =
      (bare ⟨ch :: rest, m⟩ tokens level levels keyAllowed).readPlainScalar := by
  have hnext : (⟨ch :: rest, m⟩ : Cursor).peekAt 1 = rest.head? := by
    cases rest <;> rfl
  have hflow : (bare ⟨ch :: rest, m⟩ tokens level levels keyAllowed).inFlow = false := rfl
  have hcursor : (bare ⟨ch :: rest, m⟩ tokens level levels keyAllowed).cursor = ⟨ch :: rest, m⟩ :=
    rfl
  have hbegins := beginsPlain_of_unmarked hch hword hmark
  have hends {mark : Char} (hmem : mark ∈ ['?', ':', '-']) :
      (decide (ch = mark) && endsWord rest.head?) = false := by
    by_cases heq : ch = mark
    · simp [hmark mark hmem heq]
    · simp [heq]
  obtain ⟨hdash, hdot⟩ := Bool.or_eq_false_iff.mp hdocument
  simp only [startIndicators, List.contains_cons, List.contains_nil, Bool.or_eq_false_iff,
    beq_eq_false_iff_ne] at hch
  simp [readToken, hcursor, hflow, hdash, hdot, hch, hnext, hbegins, hends]

theorem unmarked_of_isKeyChar {ch : Char} (h : isKeyChar ch = true) (rest : List Char) :
    startIndicators.contains ch = false ∧ Unmarked ch rest := by
  have hstart : ch ∉ startIndicators := notMem_of_isKeyChar h (by decide)
  have hmarks : ch ∉ ['?', ':', '-'] := notMem_of_isKeyChar h (by decide)
  refine ⟨by simpa using hstart, ?_⟩
  rintro mark hmem rfl
  exact absurd hmem hmarks

theorem unmarked_of_startsOtherwise {ch : Char} (h : startsOtherwise (ch :: text) = false) :
    startIndicators.contains ch = false ∧ Unmarked ch (text ++ '\n' :: rest) := by
  simp only [startsOtherwise, Bool.or_eq_false_iff] at h
  obtain ⟨⟨⟨hstart, hmark⟩, _⟩, _⟩ := h
  refine ⟨hstart, ?_⟩
  intro mark hmem heq
  rw [endsWord_append_line]
  have hch : (decide (ch = '?') || decide (ch = ':') || decide (ch = '-')) = true := by
    simpa [heq, or_assoc] using hmem
  simpa [hch] using hmark

theorem leads_plain {indent : Nat} (hallows : allowsPlain text = true) (hne : text ≠ [])
    (hbody : Solid body) (hcolumn : column ≤ indent) (hindent : indent < m.column)
    (h : Arrives r ⟨text ++ '\n' :: (blanks column ++ body), m⟩ tokens (indent + 1) levels
      keyAllowed) :
    Leads r body column (.scalar .plain text :: tokens) (indent + 1) levels := by
  obtain ⟨ch, text, rfl⟩ := List.exists_cons_of_ne_nil hne
  obtain ⟨hprintable, hbreak, hspace, hstart, _⟩ := flows_of_allowsPlain hallows
  have hgap : isGap ch = false := isGap_eq_false ⟨hspace, (ne_of_isPrintable hprintable).1⟩
  obtain ⟨hch, hmark⟩ := unmarked_of_startsOtherwise hstart
  obtain ⟨m', hm', hline, hread⟩ := readPlain_of_allowsPlain hallows hne hbody
    (Nat.lt_succ_of_le hcolumn) (Nat.succ_le_of_lt hindent)
  let here : Cursor := ⟨ch :: text ++ '\n' :: (blanks column ++ body), m⟩
  let there : TokenReader := standing ⟨body, m'⟩ (.scalar .plain (ch :: text) :: tokens)
    (indent + 1) levels true (keyAt here tokens (indent + 1) keyAllowed)
  have htoken : (bare here tokens (indent + 1) levels keyAllowed).readToken ch = .ok there := by
    have hdocument := @atDocumentMark_eq_false here (Nat.zero_lt_of_lt hindent)
    refine (readToken_plain hch ⟨hgap, hbreak⟩ hmark hdocument).trans ?_
    rw [readPlainScalar, saveKey_bare]
    change (readPlain false (indent + 1) here >>= _) = _
    rw [hread]
    rfl
  have hmove : Move r there :=
    h.move (Nat.succ_le_succ (Nat.le_of_lt hindent)) htoken (length_le_line text column)
  exact ⟨there, m', .single hmove, hm', arrives_blanks hbody 0 (fades_keyAt hindent hline)⟩

theorem leads_quoted {indent : Nat} {style : ScalarStyle} {quote : Char} {quoted : List Char}
    (hquote : Quotes style quote)
    (hread : Closes (readQuoted (style = .singleQuoted)
      ⟨quoted ++ quote :: '\n' :: (blanks column ++ body), m.next quote⟩) text
      ('\n' :: (blanks column ++ body)) m.line)
    (hbody : Solid body) (hindent : indent < m.column)
    (h : Arrives r ⟨quote :: (quoted ++ quote :: '\n' :: (blanks column ++ body)), m⟩ tokens
      (indent + 1) levels keyAllowed) :
    Leads r body column (.scalar style text :: tokens) (indent + 1) levels := by
  obtain ⟨m', hline, hread⟩ := hread
  let here : Cursor := ⟨quote :: (quoted ++ quote :: '\n' :: (blanks column ++ body)), m⟩
  let there : TokenReader := standing ⟨'\n' :: (blanks column ++ body), m'⟩
    (.scalar style text :: tokens) (indent + 1) levels false
    (keyAt here tokens (indent + 1) keyAllowed)
  have hquoted : (bare here tokens (indent + 1) levels keyAllowed).readQuotedScalar style =
      .ok there := by
    rw [readQuotedScalar, saveKey_bare]
    change (readQuoted (style = .singleQuoted)
      ⟨quoted ++ quote :: '\n' :: (blanks column ++ body), m.next quote⟩ >>= _) = _
    rw [hread]
    rfl
  have htoken : (bare here tokens (indent + 1) levels keyAllowed).readToken quote = .ok there := by
    rw [← hquoted]
    exact readToken_quote (atDocumentMark_eq_false (Nat.zero_lt_of_lt hindent)) hquote
  have hmove : Move r there := by
    apply h.move (Nat.succ_le_succ (Nat.le_of_lt hindent)) htoken
    simp only [there, standing, List.length_append, List.length_cons]
    omega
  have hfades : Fades (keyAt here tokens (indent + 1) keyAllowed) (m'.line + 1) :=
    fades_keyAt hindent (Nat.lt_succ_of_le hline)
  exact ⟨there, m'.indented column, .single hmove, m'.indented_column column,
    arrives_line_end hbody column hfades⟩

theorem leads_literal {indent : Nat} (hne : text ≠ [])
    (hprintable : ∀ c ∈ text, isPrintable c = true) (hbody : Solid body)
    (hcolumn : column ≤ indent) (hindent : indent < m.column)
    (h : Arrives r ⟨'|' :: (indicatorsFor text ++ '\n' ::
        (literalBody (indent + 2) true (text ++ ending text) ++ (blanks column ++ body))), m⟩ tokens
      (indent + 1) levels keyAllowed) :
    Leads r body column (.scalar .literal text :: tokens) (indent + 1) levels := by
  let block := indicatorsFor text ++ '\n' ::
    (literalBody (indent + 2) true (text ++ ending text) ++ (blanks column ++ body))
  have htab : ∀ c ∈ text.head?, c ≠ '\t' :=
    fun c hc => (ne_of_isPrintable (hprintable c (List.mem_of_mem_head? hc))).1
  obtain ⟨m', _, hm', hread⟩ := @readBlock_literal text body (indent + 2) column (m.next '|')
    (indent + 1) hne (plainBreaks_of_printable hprintable) htab hbody (by omega) (by omega)
  let here : TokenReader := bare ⟨'|' :: block, m⟩ tokens (indent + 1) levels keyAllowed
  let there : TokenReader := bare ⟨body, m'⟩ (.scalar .literal text :: tokens) (indent + 1) levels
    true
  have hblock : here.readBlockScalar .literal = .ok there := by
    change (readBlock false (indent + 1) ⟨block, m.next '|'⟩ >>= _) = _
    rw [hread]
    rfl
  have htoken : here.readToken '|' = .ok there := by
    rw [← hblock]
    exact readToken_bar (atDocumentMark_eq_false (Nat.zero_lt_of_lt hindent)) rfl
  have hshorter : body.length ≤ block.length := by
    simp only [block, List.length_append, List.length_cons]
    omega
  have hmove : Move r there :=
    h.move (Nat.succ_le_succ (Nat.le_of_lt hindent)) htoken hshorter
  exact ⟨there, m', .single hmove, hm', arrives_blanks hbody 0 fades_none⟩

-- ═══════════════════════════════════════════════════════════════════════════
-- Values
-- ═══════════════════════════════════════════════════════════════════════════

theorem leads_scalar {indent : Nat} (value : String) (hbody : Solid body)
    (hcolumn : column ≤ indent) (hindent : indent < m.column) :
    Leads (bare ⟨' ' :: (Content.endLine (scalarText (indent + 2) value) ++
        (blanks column ++ body)), m⟩ tokens (indent + 1) levels keyAllowed) body column
      (.scalar (styleFor value) value.toList :: tokens) (indent + 1) levels := by
  have harrives {rest : List Char} (hrest : Solid rest) :
      Arrives (bare ⟨' ' :: rest, m⟩ tokens (indent + 1) levels keyAllowed)
        ⟨rest, m.next ' '⟩ tokens (indent + 1) levels keyAllowed :=
    arrives_blanks hrest 1 fades_none
  have hnext : indent < (m.next ' ').column := Nat.lt_succ_of_lt hindent
  have hpos (quote : Char) : 0 < ((m.next ' ').next quote).column := Nat.succ_pos _
  -- what is known of the text depends on the style that was chosen for it
  have hsuits := suits_styleFor value
  rw [scalarText]
  cases hstyle : styleFor value with
  | plain =>
    rw [hstyle] at hsuits
    obtain ⟨hne, hallows⟩ := hsuits
    have hline := @endLine_plain value.toList (blanks column ++ body) hallows
    dsimp only
    rw [hline]
    exact leads_plain hallows hne hbody hcolumn hnext (harrives (solid_plain hallows hne))
  | singleQuoted =>
    rw [hstyle] at hsuits
    dsimp only
    rw [endLine_quoted .single]
    exact leads_quoted .single
      (readQuoted_single hsuits (Nat.succ_pos (indent + 1)) (by simp) (hpos '\'')) hbody hnext
      (harrives (by simp [Solid, isGap, isBreak]))
  | doubleQuoted =>
    dsimp only
    rw [endLine_quoted .double]
    exact leads_quoted .double (readQuoted_double value.toList (hpos '"')) hbody hnext
      (harrives (by simp [Solid, isGap, isBreak]))
  | literal =>
    rw [hstyle] at hsuits
    obtain ⟨hne, hprintable⟩ := hsuits
    dsimp only
    rw [endLine_literal hne, literalHeader_eq, List.cons_append, List.cons_append,
      List.append_assoc]
    exact leads_literal hne hprintable hbody hcolumn hnext
      (harrives (by simp [Solid, isGap, isBreak]))
  | folded =>
    rw [hstyle] at hsuits
    exact hsuits.elim

theorem leads_number {indent : Nat} (value : Nat) (hbody : Solid body)
    (hcolumn : column ≤ indent) (hindent : indent < m.column) :
    Leads (bare ⟨' ' :: (decimalChars value ++ '\n' :: (blanks column ++ body)), m⟩ tokens
        (indent + 1) levels keyAllowed) body column
      (.scalar .plain (decimalChars value) :: tokens) (indent + 1) levels := by
  have hallows := allowsPlain_of_key (@isKeyChar_of_mem_decimalChars value)
  have hne := decimalChars_ne_nil value
  have hnext : indent < (m.next ' ').column := Nat.lt_succ_of_lt hindent
  apply leads_plain hallows hne hbody hcolumn hnext
  exact arrives_blanks (solid_plain hallows hne) 1 fades_none

theorem freshKey_of_same_line {here : Mark} {key : Option PossibleKey}
    (h : ∀ k ∈ key, k.mark.line = here.line ∧ here.index ≤ k.mark.index + keyReach) :
    freshKey here key = .ok key := by
  cases key with
  | none => rfl
  | some k =>
    obtain ⟨hline, hindex⟩ := h k rfl
    simp [freshKey, hline, Nat.not_lt.mpr hindex]

-- ═══════════════════════════════════════════════════════════════════════════
-- Brackets
-- ═══════════════════════════════════════════════════════════════════════════

/-- A state between brackets, in front of which a key may have begun. -/
def bracketed (c : Cursor) (tokens : List Token) (level : Nat) (levels : List Nat)
    (key : Option PossibleKey) : TokenReader :=
  { cursor := c, tokens, count := tokens.length, level, levels, outerKeys := [key] }

theorem move_opening (hm : 0 < m.column) (hlevel : level ≤ m.column + 1)
    (h : Arrives r ⟨'[' :: rest, m⟩ tokens level levels keyAllowed) :
    Move r (bracketed ⟨rest, m.next '['⟩ (.flowSequenceStart :: tokens) level levels
      (keyAt ⟨'[' :: rest, m⟩ tokens level keyAllowed)) := by
  have hread : (bare ⟨'[' :: rest, m⟩ tokens level levels keyAllowed).readToken '[' =
      .ok (bracketed ⟨rest, m.next '['⟩ (.flowSequenceStart :: tokens) level levels
        (keyAt ⟨'[' :: rest, m⟩ tokens level keyAllowed)) := by
    rw [readToken_opening (atDocumentMark_eq_false hm), openFlow, saveKey_bare]
    rfl
  exact h.move hlevel hread (Nat.le_refl _)

/-- Between brackets nothing is left to be done while a key may still come to be. -/
theorem settle_bracketed (hbody : Solid body) (hkey : freshKey m key = .ok key) :
    (bracketed ⟨body, m⟩ tokens level levels key).settle =
      .ok (bracketed ⟨body, m⟩ tokens level levels key) := by
  have hskip : (bracketed ⟨body, m⟩ tokens level levels key).skipBlank (body.length + 1) =
      bracketed ⟨body, m⟩ tokens level levels key := by
    have hfiller (tabs : Bool) : behindFiller tabs ⟨body, m⟩ = ⟨body, m⟩ := by
      apply behindFiller_blanks tabs 0
      intro d hd
      obtain ⟨hgap, _, hhash, hmark⟩ := hbody d hd
      exact ⟨hgap, hhash, hmark⟩
    rw [skipBlank_succ]
    simp only [bracketed, hfiller, break?_of_solid hbody]
  have hdrop : (bracketed ⟨body, m⟩ tokens level levels key).dropStaleKeys =
      .ok (bracketed ⟨body, m⟩ tokens level levels key) := by
    change ([key].mapM (freshKey m) >>= _) = _
    rw [List.mapM_cons, hkey]
    rfl
  exact settle_of_skipBlank hskip hdrop

theorem move_closing (hm : 0 < m.column) (hkey : freshKey m key = .ok key) :
    Move (bracketed ⟨']' :: rest, m⟩ tokens level levels key)
      (standing ⟨rest, m.next ']'⟩ (.flowSequenceEnd :: tokens) level levels false key) := by
  have hsettle := @settle_bracketed tokens level levels key m (']' :: rest)
    (by simp [Solid, isGap, isBreak]) hkey
  refine ⟨step_of_settle hsettle rfl ?_, Nat.lt_succ_self _⟩
  rw [readToken_closing (atDocumentMark_eq_false hm)]
  rfl

theorem leads_brackets {indent : Nat} (hbody : Solid body) (hindent : indent < m.column) :
    Leads (bare ⟨' ' :: '[' :: ']' :: '\n' :: (blanks column ++ body), m⟩ tokens (indent + 1) levels
        keyAllowed) body column
      (.flowSequenceEnd :: .flowSequenceStart :: tokens) (indent + 1) levels := by
  let here : Cursor := ⟨'[' :: ']' :: '\n' :: (blanks column ++ body), m.next ' '⟩
  let key := keyAt here tokens (indent + 1) keyAllowed
  have hnext : indent < (m.next ' ').column := Nat.lt_succ_of_lt hindent
  have harrives : Arrives (bare ⟨blanks 1 ++ here.rest, m⟩ tokens (indent + 1) levels keyAllowed)
      here tokens (indent + 1) levels keyAllowed :=
    arrives_blanks (by simp [here, Solid, isGap, isBreak]) 1 fades_none
  have hkey : freshKey (here.mark.next '[') key = .ok key := by
    apply freshKey_of_same_line
    intro k hk
    rw [mark_of_mem_keyAt hk]
    exact ⟨rfl, Nat.add_le_add_left (by decide) _⟩
  have hfirst := move_opening (Nat.zero_lt_of_lt hnext) (Nat.succ_le_succ (Nat.le_of_lt hnext))
    harrives
  have hsecond := @move_closing (.flowSequenceStart :: tokens) (indent + 1) levels key
    (here.mark.next '[') ('\n' :: (blanks column ++ body)) (Nat.succ_pos _) hkey
  have hfades : Fades key (m.line + 1) := fades_keyAt hnext (Nat.lt_succ_self _)
  exact ⟨_, _, .head hfirst (.single hsecond), Mark.indented_column _ column,
    arrives_line_end hbody column hfades⟩

-- ═══════════════════════════════════════════════════════════════════════════
-- Keys and hyphens
-- ═══════════════════════════════════════════════════════════════════════════

/-- A piece at the column is part of the innermost block or begins a new one. -/
inductive Opens (token : Token) (column : Nat) (tokens : List Token) : (level : Nat) →
    (levels : List Nat) → (tokens' : List Token) → (levels' : List Nat) → Prop
  | inside (levels : List Nat) : Opens token column tokens (column + 1) levels tokens levels
  | outside {level : Nat} (levels : List Nat) (h : level ≤ column) :
    Opens token column tokens level levels (token :: tokens) (level :: levels)

theorem Opens.level_le {token : Token} {levels' : List Nat}
    (h : Opens token column tokens level levels tokens' levels') : level ≤ column + 1 := by
  cases h <;> omega

theorem insertAt_standing (front : List Token) (token : Token) :
    (standing c (front ++ tokens) level levels keyAllowed key).insertAt tokens.length token =
      standing c (front ++ token :: tokens) level levels keyAllowed key := by
  have hlater : (front ++ tokens).length - tokens.length = front.length := by
    rw [List.length_append, Nat.add_sub_cancel]
  have htake : (front ++ tokens).take front.length = front := List.take_left
  have hdrop : (front ++ tokens).drop front.length = tokens := List.drop_left
  have hcount : (front ++ tokens).length + 1 = (front ++ token :: tokens).length := by
    simp only [List.length_append, List.length_cons]
    omega
  simp only [insertAt, standing, hlater, htake, hdrop, hcount]

theorem openBlock_some {token : Token} {levels' : List Nat} (front : List Token)
    (hopens : Opens token column tokens level levels tokens' levels') :
    (standing c (front ++ tokens) level levels keyAllowed key).openBlock column
        (some tokens.length) token =
      standing c (front ++ tokens') (column + 1) levels' keyAllowed key := by
  cases hopens with
  | inside => exact if_pos (by simp [standing])
  | outside levels hlevel =>
    refine (if_neg ?_).trans (insertAt_standing front token)
    simpa [standing, inFlow] using Nat.not_lt.mpr hlevel

theorem openBlock_none {token : Token} {levels' : List Nat}
    (hopens : Opens token column tokens level levels tokens' levels') :
    (standing c tokens level levels keyAllowed key).openBlock column none token =
      standing c tokens' (column + 1) levels' keyAllowed key := by
  cases hopens with
  | inside => exact if_pos (by simp [standing])
  | outside levels hlevel =>
    simp [openBlock, standing, inFlow, push, Nat.not_lt.mpr hlevel]

theorem move_key {key : List Char} (hne : key ≠ []) (hkey : ∀ c ∈ key, isKeyChar c = true)
    (hrest : endsWord rest.head? = true) (hlevel : level ≤ m.column + 1)
    (h : Arrives r ⟨key ++ ':' :: rest, m⟩ tokens level levels true) :
    Move r (standing ⟨':' :: rest, m.skip key⟩ (.scalar .plain key :: tokens) level levels false
      (keyAt ⟨key ++ ':' :: rest, m⟩ tokens level true)) := by
  obtain ⟨ch, more, rfl⟩ := List.exists_cons_of_ne_nil hne
  have hch := hkey ch List.mem_cons_self
  obtain ⟨hindicator, hmark⟩ := unmarked_of_isKeyChar hch (more ++ ':' :: rest)
  have hread : (bare ⟨ch :: more ++ ':' :: rest, m⟩ tokens level levels true).readToken ch =
      .ok (standing ⟨':' :: rest, m.skip (ch :: more)⟩ (.scalar .plain (ch :: more) :: tokens)
        level levels false (keyAt ⟨ch :: more ++ ':' :: rest, m⟩ tokens level true)) := by
    refine (readToken_plain hindicator (word_of_isKeyChar hch) hmark
      (atDocumentMark_of_isKeyChar hch)).trans ?_
    rw [readPlainScalar, saveKey_bare]
    change (readPlain false level ⟨ch :: more ++ ':' :: rest, m⟩ >>= _) = _
    rw [readPlain_key hne hkey hrest]
    rfl
  have hlength : (':' :: rest).length ≤ (more ++ ':' :: rest).length := by
    simp only [List.length_append]
    omega
  exact h.move hlevel hread hlength

/-- The colon behind a scalar makes it a key. The tokens of the key and of its block go in front of
the scalar. -/
theorem move_colon {token : Token} {levels' : List Nat} (hrest : endsWord rest.head? = true)
    (hline : m.line = c.mark.line) (hcolumn : c.mark.column < m.column)
    (hindex : m.index ≤ c.mark.index + keyReach)
    (hopens : Opens .blockMappingStart c.mark.column tokens level levels tokens' levels') :
    Move (standing ⟨':' :: rest, m⟩ (token :: tokens) level levels false
        (keyAt c tokens level true))
      (bare ⟨rest, m.next ':'⟩ (.value :: token :: .key :: tokens') (c.mark.column + 1) levels'
        false) := by
  let here := standing ⟨':' :: rest, m⟩ (token :: tokens) level levels false
    (keyAt c tokens level true)
  have hsettle : here.settle = .ok here := by
    have hlevel := hopens.level_le
    apply settle_standing (by simp [Solid, isGap, isBreak]) _ (by omega)
    apply freshKey_of_same_line
    intro k hk
    rw [mark_of_mem_keyAt hk]
    exact ⟨hline.symm, hindex⟩
  have hnext : endsWord ((⟨':' :: rest, m⟩ : Cursor).peekAt 1) = true := by
    cases rest <;> exact hrest
  have hopened : (here.insertAt tokens.length .key).openBlock c.mark.column (some tokens.length)
      .blockMappingStart = standing ⟨':' :: rest, m⟩ (token :: .key :: tokens')
        (c.mark.column + 1) levels' false (keyAt c tokens level true) := by
    rw [show here.insertAt tokens.length .key = _ from insertAt_standing [_] .key]
    exact openBlock_some [_, _] hopens
  refine ⟨step_of_settle hsettle rfl ?_, Nat.lt_succ_self _⟩
  rw [readToken_colon (atDocumentMark_eq_false (Nat.zero_lt_of_lt hcolumn)) hnext]
  exact congrArg (fun r : TokenReader => Except.ok
    ({ r with key := none, keyAllowed := false }.pushThen .value (r.cursor.skip 1))) hopened

theorem reaches_key {key : List Char} {levels' : List Nat} (hne : key ≠ [])
    (hkey : ∀ c ∈ key, isKeyChar c = true) (hlength : key.length ≤ 256)
    (hrest : endsWord rest.head? = true)
    (hopens : Opens .blockMappingStart m.column tokens level levels tokens' levels')
    (h : Arrives r ⟨key ++ ':' :: rest, m⟩ tokens level levels true) :
    Reaches r (bare ⟨rest, (m.skip key).next ':'⟩ (.value :: .scalar .plain key :: .key :: tokens')
      (m.column + 1) levels' false) := by
  obtain ⟨_, hline, hskip⟩ := m.skip_spec key
  have hpos := List.length_pos_iff.mpr hne
  have hindex := m.skip_index_le key
  have hfirst := move_key hne hkey hrest hopens.level_le h
  have hsecond := @move_colon ⟨key ++ ':' :: rest, m⟩ tokens tokens' level levels (m.skip key) rest
    (.scalar .plain key) levels' hrest hline (by simp only; omega)
    (by simp only [keyReach]; omega) hopens
  exact .head hfirst (.single hsecond)

theorem reaches_hyphen {levels' : List Nat}
    (hopens : Opens .blockSequenceStart m.column tokens level levels tokens' levels')
    (h : Arrives r ⟨'-' :: ' ' :: rest, m⟩ tokens level levels true) :
    Reaches r (bare ⟨' ' :: rest, m.next '-'⟩ (.blockEntry :: tokens') (m.column + 1) levels'
      true) := by
  have hdocument : (⟨'-' :: ' ' :: rest, m⟩ : Cursor).atDocumentMark = false := by
    simp [Cursor.atDocumentMark, Cursor.atTriple]
  have hread : (bare ⟨'-' :: ' ' :: rest, m⟩ tokens level levels true).readToken '-' = .ok
      (bare ⟨' ' :: rest, m.next '-'⟩ (.blockEntry :: tokens') (m.column + 1) levels' true) := by
    rw [readToken_hyphen hdocument rfl]
    change (((bare ⟨'-' :: ' ' :: rest, m⟩ tokens level levels true).openBlock m.column none
      .blockSequenceStart).dropKey >>= _) = _
    rw [openBlock_none hopens]
    rfl
  exact .single (h.move hopens.level_le hread (Nat.le_refl _))

end TokenReader

end LegacyAudit.Yaml
