import LegacyAudit.Proofs.Yaml.Tokens

/-!
# The tokens of a document

What is written has only characters that a stream may hold: those of a text are printable, or it is
written with escapes. So a whole document is read as the tokens of its tree.

## Main definitions

- `Allowed` - a text that a stream may hold
- `allowed_scalarText`, `allowed_membersText` - scalars and members
- `Token.ofText_documentText` - the tokens of a document
-/

namespace LegacyAudit.Yaml

open Text
open Content (blanks)

/-- A text whose characters a stream may hold. -/
def Allowed (text : List Char) : Prop :=
  ∀ c ∈ text, isAllowed c = true

variable {c : Char} {text text' : List Char} {indent : Nat}

@[simp] theorem allowed_nil : Allowed [] := by
  simp [Allowed]

@[simp] theorem allowed_cons : Allowed (c :: text) ↔ isAllowed c = true ∧ Allowed text := by
  simp [Allowed]

@[simp] theorem allowed_append : Allowed (text ++ text') ↔ Allowed text ∧ Allowed text' := by
  simp only [Allowed, List.mem_append, or_imp, forall_and]

@[simp] theorem allowed_blanks (count : Nat) : Allowed (blanks count) := by
  intro c hc
  rw [List.eq_of_mem_replicate hc]
  decide

theorem Allowed.drop (h : Allowed text) (count : Nat) : Allowed (text.drop count) :=
  fun c hc => h c (List.mem_of_mem_drop hc)

theorem allowed_of_printable (h : ∀ c ∈ text, isPrintable c = true) : Allowed text :=
  fun c hc => isAllowed_of_isPrintable (h c hc)

theorem allowed_singleQuotedBody {fresh : Bool} (h : Allowed text) :
    Allowed (singleQuotedBody indent fresh text) := by
  have hblanks (fresh : Bool) : Allowed (if fresh then List.replicate indent ' ' else []) := by
    cases fresh
    · exact allowed_nil
    · exact allowed_blanks indent
  induction text generalizing fresh with
  | nil => exact hblanks fresh
  | cons c text ih =>
    obtain ⟨hc, htext⟩ := allowed_cons.mp h
    rw [singleQuotedBody]
    split
    · exact allowed_cons.mpr ⟨hc, ih htext⟩
    · refine allowed_append.mpr ⟨allowed_append.mpr ⟨hblanks fresh, ?_⟩, ih htext⟩
      split <;> simp [hc]

theorem allowed_literalBody {fresh : Bool} (h : Allowed text) :
    Allowed (literalBody indent fresh text) := by
  induction text generalizing fresh with
  | nil => exact allowed_nil
  | cons c text ih =>
    obtain ⟨hc, htext⟩ := allowed_cons.mp h
    rw [literalBody]
    split
    · exact allowed_cons.mpr ⟨hc, ih htext⟩
    · refine allowed_append.mpr ⟨?_, allowed_cons.mpr ⟨hc, ih htext⟩⟩
      split
      · exact allowed_blanks indent
      · exact allowed_nil

theorem allowed_literalHeader (text : List Char) : Allowed (literalHeader text) := by
  have hmark : ∀ mark ∈ ['|', '2', '-', '+'], isAllowed mark = true :=
    List.all_eq_true.mp (by decide)
  simp only [literalHeader, allowed_cons, List.cons_append, allowed_append]
  refine ⟨hmark '|' (by simp), ?_, ?_⟩
  · split <;> simp [hmark]
  · split
    · simp [hmark]
    · split
      · simp [hmark]
      · split <;> simp [hmark]

theorem allowed_upperHex (width n : Nat) : Allowed (upperHex width n) := by
  have hdigit : ∀ d < 16, isAllowed (digitChar d).toUpper = true := by decide
  refine allowed_append.mpr ⟨?_, ?_⟩
  · intro c hc
    rw [List.eq_of_mem_replicate hc]
    decide
  · intro c hc
    obtain ⟨digit, hmem, rfl⟩ := List.mem_map.mp hc
    obtain ⟨d, hd, rfl⟩ := (mem_digitsOnto (by omega) digit hmem).resolve_left (by simp)
    exact hdigit d hd

theorem allowed_escapeChar (c : Char) : Allowed (escapeChar c) := by
  have hletter : ∀ letter ∈ escapeLetters.map (·.2), isAllowed letter = true :=
    List.all_eq_true.mp (by decide)
  have hmark : ∀ mark ∈ ['\\', 'x', 'u', 'U'], isAllowed mark = true :=
    List.all_eq_true.mp (by decide)
  unfold escapeChar
  split
  · next letter hlookup =>
    obtain ⟨before, behind, heq, _⟩ := List.lookup_eq_some_iff.mp hlookup
    have hmem : letter ∈ escapeLetters.map (·.2) := by simp [heq]
    simp [hmark, hletter letter hmem]
  · dsimp only
    split
    · simp [hmark, allowed_upperHex]
    · split <;> simp [hmark, allowed_upperHex]

theorem allowed_scalarText (indent : Nat) (value : String) : Allowed (scalarText indent value) := by
  have hquote : isAllowed '\'' = true ∧ isAllowed '"' = true ∧ isAllowed '\n' = true := by decide
  have hsuits := suits_styleFor value
  rw [scalarText]
  cases hstyle : styleFor value with
  | plain =>
    rw [hstyle] at hsuits
    have hallows := hsuits.2
    simp only [allowsPlain, Bool.not_eq_true', Bool.or_eq_false_iff] at hallows
    exact allowed_of_printable (printable_of_needsEscapes hallows.1.1.1.1)
  | singleQuoted =>
    rw [hstyle] at hsuits
    have hbody := allowed_of_printable fun c hc => (hsuits.printable c hc).1
    simp [hquote, allowed_singleQuotedBody hbody]
  | doubleQuoted =>
    have hbody : Allowed (value.toList.flatMap doubleQuotedChar) := by
      intro c hc
      obtain ⟨d, _, hd⟩ := List.mem_flatMap.mp hc
      unfold doubleQuotedChar at hd
      split at hd
      · next hshown =>
        simp only [Bool.and_eq_true] at hshown
        rw [List.mem_singleton.mp hd]
        exact isAllowed_of_isPrintable hshown.1.1.1
      · exact allowed_escapeChar d c hd
    simp [hquote, hbody]
  | literal =>
    rw [hstyle] at hsuits
    have hbody := allowed_of_printable hsuits.2
    simp [hquote, allowed_literalBody hbody, allowed_literalHeader]
  | folded =>
    rw [hstyle] at hsuits
    exact hsuits.elim

theorem allowed_endLine (h : Allowed text) : Allowed (Content.endLine text) := by
  unfold Content.endLine
  split
  · exact h
  · exact allowed_append.mpr ⟨h, by simp; decide⟩

theorem allowed_key {key : List Char} (h : ∀ c ∈ key, isKeyChar c = true) : Allowed key :=
  allowed_of_printable fun c hc => isPrintable_of_isKeyChar (h c hc)

theorem allowed_decimalChars (n : Nat) : Allowed (decimalChars n) :=
  allowed_key isKeyChar_of_mem_decimalChars

namespace Content

theorem marks_allowed : ∀ mark ∈ [' ', '\n', '-', ':', '[', ']'], isAllowed mark = true :=
  List.all_eq_true.mp (by decide)

mutual

theorem allowed_afterKey (column : Nat) : ∀ value : Content, value.Regular →
    Allowed (value.afterKey column)
  | .text value, _ => by
    have hline := allowed_endLine (allowed_scalarText (column + 2) value)
    simpa [afterKey, marks_allowed] using hline
  | .number value, _ => by
    have hline := allowed_decimalChars value
    simpa [afterKey, marks_allowed] using hline
  | .list items, hregular => by
    have hitems := allowed_itemsText column items hregular
    rw [afterKey]
    split
    · simp [marks_allowed]
    · simpa [marks_allowed] using hitems
  | .record members, hregular => by
    have hmembers := allowed_membersText (column + 2) members hregular.2
    simpa [afterKey, marks_allowed] using hmembers

theorem allowed_afterDash (column : Nat) : ∀ value : Content, value.Regular →
    Allowed (value.afterDash column)
  | .text value, _ => by
    have hline := allowed_endLine (allowed_scalarText (column + 2) value)
    simpa [afterDash, marks_allowed] using hline
  | .number value, _ => by
    have hline := allowed_decimalChars value
    simpa [afterDash, marks_allowed] using hline
  | .list items, hregular => by
    have hitems := (allowed_itemsText (column + 2) items hregular).drop (column + 2)
    rw [afterDash]
    split
    · simp [marks_allowed]
    · simpa [marks_allowed] using hitems
  | .record members, hregular => by
    have hmembers := (allowed_membersText (column + 2) members hregular.2).drop (column + 2)
    simpa [afterDash, marks_allowed] using hmembers

theorem allowed_itemsText (column : Nat) : ∀ items : List Content, RegularItems items →
    Allowed (itemsText column items)
  | [], _ => allowed_nil
  | item :: rest, hregular => by
    have hitem := allowed_afterDash column item hregular.1
    have hrest := allowed_itemsText column rest hregular.2
    simp [itemsText, marks_allowed, hitem, hrest]

theorem allowed_membersText (column : Nat) : ∀ members : List (String × Content),
    RegularMembers members → Allowed (membersText column members)
  | [], _ => allowed_nil
  | (key, value) :: rest, hregular => by
    have hkey := allowed_key hregular.1.chars
    have hvalue := allowed_afterKey column value hregular.2.1
    have hrest := allowed_membersText column rest hregular.2.2
    simp [membersText, marks_allowed, hkey, hvalue, hrest]

end

end Content

open Content TokenReader

theorem TokenReader.step_end {r : TokenReader} {m : Mark} {tokens : List Token} (hm : m.column = 0)
    (h : Arrives r ⟨[], m⟩ tokens 1 [0] true) :
    ∃ r', r.step = .ok (r', true) ∧ r'.tokens = .streamEnd :: .blockEnd :: tokens := by
  rw [step_eq, h.settles, closeBlocks_bare (by simp [hm])]
  exact ⟨_, rfl, rfl⟩

theorem Token.ofText_documentText {members : List (String × Content)}
    (hregular : (Content.record members).Regular) :
    Token.ofText (documentText members).toList =
      .ok ((Content.record members).tokens false ++ [.streamEnd]) := by
  have hallowed : (membersText 0 members).all isAllowed = true :=
    List.all_eq_true.mpr (allowed_membersText 0 members hregular.2)
  obtain ⟨text, htext, hblock⟩ := blocks_members 0 members hregular.2 hregular.1
  have htext : membersText 0 members = text := htext
  have harrives : Arrives (bare ⟨text ++ (blanks 0 ++ []), {}⟩ [] 0 [] true)
      ⟨text ++ (blanks 0 ++ []), {}⟩ [] 0 [] true :=
    arrives_blanks (hblock.solid.append hblock.nonempty _) 0 fades_none
  obtain ⟨r, m, hreaches, hm, harrives'⟩ :=
    hblock.leads solid_nil (Nat.le_refl 0) rfl (.outside [] (Nat.le_refl 0)) harrives
  obtain ⟨last, hstep, htokens⟩ := step_end hm harrives'
  obtain ⟨fuel, hfuel, hrun⟩ := readAll_of_reaches hreaches (Nat.lt_succ_self _)
  obtain ⟨fuel, rfl⟩ : ∃ f, fuel = f + 1 := ⟨fuel - 1, by omega⟩
  have hlast : readAll (fuel + 1) r = .ok last := by
    rw [readAll, hstep]
    rfl
  have hblanks : text ++ (blanks 0 ++ []) = text := by simp [blanks]
  rw [hblanks, hlast] at hrun
  rw [Token.ofText, documentText, String.toList_ofList, hallowed, htext]
  change (readAll (text.length + 1) (bare ⟨text, {}⟩ [] 0 [] true) >>= _) = _
  rw [show readAll (text.length + 1) (bare ⟨text, {}⟩ [] 0 [] true) = _ from hrun]
  simp [htokens, Content.tokens, pure, Except.pure, bind, Except.bind]

end LegacyAudit.Yaml
