import LegacyAudit.Proofs.Yaml.Layout

/-!
# Plain scalars

A text that is written plain stands in one line. Reading it takes turns at words and the spaces
between them, and ends in the next line. So there is one step for each character of a word, one for
each space, and one for each change between the two.

## Main definitions

- `Flows` - a text that goes on as part of a plain scalar
- `ReadsPlainWord`, `ReadsPlainGap` - the rest of a plain scalar is read
- `readPlain_of_allowsPlain` - a plain scalar and the line end behind it
- `readPlain_key` - a key in front of its colon
-/

namespace LegacyAudit.Yaml

open Content (blanks)

/-- A text that goes on as part of a plain scalar behind the character `before`. -/
structure Flows (before : Char) (text : List Char) : Prop where
  printable : ∀ c ∈ text, isPrintable c = true ∧ isBreak c = false
  unmarked : endsWithin before text = false
  ends : (before :: text).getLast? ≠ some ' '

variable {before c : Char} {text rest : List Char}

namespace Flows

theorem tail (h : Flows before (c :: text)) : Flows c text where
  printable := fun d hd => h.printable d (List.mem_cons_of_mem c hd)
  unmarked := by
    have := h.unmarked
    simp only [endsWithin, Bool.or_eq_false_iff] at this
    exact this.2
  ends := by
    have := h.ends
    rwa [List.getLast?_cons_cons] at this

theorem ne_space_of_nil (h : Flows before []) : before ≠ ' ' := by
  have := h.ends
  simpa using this

theorem head (h : Flows before (c :: text)) : c = ' ' ∨ isGap c = false ∧ isBreak c = false := by
  obtain ⟨hprintable, hbreak⟩ := h.printable c List.mem_cons_self
  by_cases hc : c = ' '
  · exact .inl hc
  · exact .inr ⟨isGap_eq_false ⟨hc, (ne_of_isPrintable hprintable).1⟩, hbreak⟩

theorem colon (h : Flows before (c :: text)) : (c = ':' && endsWord text.head?) = false := by
  have := h.unmarked
  simp only [endsWithin, Bool.or_eq_false_iff] at this
  exact this.1.1

theorem hash (h : Flows ' ' (c :: text)) : c ≠ '#' := by
  have := h.unmarked
  simp only [endsWithin, Bool.or_eq_false_iff] at this
  rintro rfl
  exact absurd this.1.2 (by decide)

end Flows

theorem endsWord_append_line : endsWord (text ++ '\n' :: rest).head? = endsWord text.head? := by
  cases text <;> rfl

section Words

variable {m : Mark} {word : List Char}

theorem readWord_cons (hgap : isGap c = false) (hbreak : isBreak c = false)
    (hcolon : (c = ':' && endsWord rest.head?) = false) :
    readWord false m word (c :: rest) = readWord false (m.next c) (c :: word) rest := by
  rw [readWord.eq_def]
  simp only [hgap, hbreak, hcolon, Bool.false_and, Bool.or_false, Bool.false_eq_true, if_false]

theorem readWord_stop (h : isGap c = true ∨ isBreak c = true) :
    readWord false m word (c :: rest) = .ok (word, ⟨c :: rest, m⟩) := by
  rw [readWord.eq_def]
  exact if_pos (by simpa using h)

end Words

/-- What is done behind a gap that began at the byte `start`. -/
def behindGap (level fuel : Nat) (text : List Char) (start : Nat) (g : Gap) (c : Cursor) :
    Except Fault (List Char × Bool × Cursor) :=
  if c.mark.index = start then .ok (text, false, c)
  else if c.mark.column < level then .ok (text, g.broken, c)
  else readWords false level fuel text g c

def behindWord (level fuel : Nat) (text word : List Char) (g : Gap) (c : Cursor) :
    Except Fault (List Char × Bool × Cursor) :=
  if word.isEmpty then .ok (text, g.broken, c)
  else do
    let (g', c') ← readGap level {} c.mark c.rest
    behindGap level fuel (word ++ g.reversed ++ text) c.mark.index g' c'

theorem readWords_succ (level fuel : Nat) (text : List Char) (g : Gap) (c : Cursor)
    (hdocument : c.atDocumentMark = false) (hhash : c.peek ≠ some '#') :
    readWords false level (fuel + 1) text g c =
      readWord false c.mark [] c.rest >>= fun (word, c') =>
        behindWord level fuel text word g c' := by
  rw [readWords]
  simp only [hdocument, hhash, decide_false, Bool.or_self, Bool.false_eq_true, if_false]
  cases readWord false c.mark [] c.rest with
  | error e => rfl
  | ok p =>
    obtain ⟨word, c'⟩ := p
    simp only [bind, Except.bind, behindWord]
    split
    · rfl
    · cases readGap level {} c'.mark c'.rest with
      | error e => rfl
      | ok q =>
        simp only [behindGap]
        split
        · rfl
        · simp
          rfl

section Reading

variable {level column fuel : Nat} {g : Gap} {m : Mark} {word done body : List Char}

/-- Behind its last word a plain scalar ends in the next line, left of the column `level`. -/
theorem behindWord_line_end (hbody : Solid body) (hcolumn : column < level) (hword : word ≠ []) :
    behindWord level fuel done word g ⟨'\n' :: (blanks column ++ body), m⟩ =
      .ok (word ++ g.reversed ++ done, true, ⟨body, m.indented column⟩) := by
  have hindex := m.index_lt_indented column
  rw [behindWord, if_neg (by simpa using hword), readGap_line_end hbody]
  change behindGap _ _ _ _ _ _ = _
  rw [behindGap, if_neg (by simp only; omega), if_pos (by simpa using hcolumn)]
  rfl

/-- A plain scalar ends in front of `body`, at the column of a line behind the given one. -/
def EndsBelow (result : Except Fault (List Char × Bool × Cursor)) (text body : List Char)
    (column line : Nat) : Prop :=
  ∃ m : Mark, m.column = column ∧ line < m.line ∧ result = .ok (text, true, ⟨body, m⟩)

/-- The rest of a plain scalar is read from inside a word. -/
def ReadsPlainWord (level column : Nat) (body text : List Char) : Prop :=
  ∀ (fuel : Nat) (g : Gap) (m : Mark) (word done : List Char), word ≠ [] → level ≤ m.column →
    text.length ≤ fuel →
    EndsBelow (readWord false m word (text ++ '\n' :: (blanks column ++ body)) >>= fun (word, c) =>
        behindWord level fuel done word g c)
      (text.reverse ++ word ++ g.reversed ++ done) body column m.line

/-- The rest of a plain scalar is read from inside a gap that began at the byte `start`. -/
def ReadsPlainGap (level column : Nat) (body text : List Char) : Prop :=
  ∀ (fuel start : Nat) (m : Mark) (spaces done : List Char), start < m.index → level ≤ m.column →
    text.length < fuel →
    EndsBelow (readGap level { blanks := spaces } m (text ++ '\n' :: (blanks column ++ body)) >>=
        fun (g, c) => behindGap level fuel done start g c)
      (text.reverse ++ spaces ++ done) body column m.line

theorem readsPlainWord_nil (hbody : Solid body) (hcolumn : column < level) :
    ReadsPlainWord level column body [] := by
  intro fuel g m word done hword _ _
  refine ⟨m.indented column, m.indented_column column, by simp, ?_⟩
  rw [List.nil_append, readWord_stop (.inr (by decide))]
  exact behindWord_line_end hbody hcolumn hword

theorem ReadsPlainWord.cons (h : ReadsPlainWord level column body text)
    (hword : isGap c = false ∧ isBreak c = false)
    (hcolon : (c = ':' && endsWord text.head?) = false) :
    ReadsPlainWord level column body (c :: text) := by
  intro fuel g m word done _ hlevel hfuel
  rw [List.length_cons] at hfuel
  have hread := h fuel g (m.next c) (c :: word) done (List.cons_ne_nil _ _)
    (Nat.le_succ_of_le hlevel) (by omega)
  rw [List.cons_append, readWord_cons hword.1 hword.2 (by rwa [endsWord_append_line])]
  simpa using hread

theorem ReadsPlainGap.behind_word (h : ReadsPlainGap level column body text) :
    ReadsPlainWord level column body (' ' :: text) := by
  intro fuel g m word done hword hlevel hfuel
  have hread := h fuel m.index (m.next ' ') [' '] (word ++ g.reversed ++ done)
    (m.index_lt_next ' ') (Nat.le_succ_of_le hlevel) hfuel
  rw [List.cons_append, readWord_stop (.inl (by decide))]
  change EndsBelow (behindWord _ _ _ _ _ _) _ _ _ _
  rw [behindWord, if_neg (by simpa using hword), readGap_space]
  simpa using hread

theorem ReadsPlainGap.space (h : ReadsPlainGap level column body text) :
    ReadsPlainGap level column body (' ' :: text) := by
  intro fuel start m spaces done hstart hlevel hfuel
  have hnext := m.index_lt_next ' '
  rw [List.length_cons] at hfuel
  have hread := h fuel start (m.next ' ') (' ' :: spaces) done (by omega)
    (Nat.le_succ_of_le hlevel) (by omega)
  rw [List.cons_append, readGap_space]
  simpa using hread

theorem ReadsPlainWord.behind_gap (h : ReadsPlainWord level column body text)
    (hword : isGap c = false ∧ isBreak c = false)
    (hcolon : (c = ':' && endsWord text.head?) = false) (hhash : c ≠ '#') (hlevel : 0 < level) :
    ReadsPlainGap level column body (c :: text) := by
  intro fuel start m spaces done hstart hm hfuel
  obtain ⟨fuel, rfl⟩ : ∃ f, fuel = f + 1 := ⟨fuel - 1, by omega⟩
  rw [List.length_cons] at hfuel
  have hread := h fuel { blanks := spaces } (m.next c) [c] done (List.cons_ne_nil _ _)
    (Nat.le_succ_of_le hm) (by omega)
  rw [List.cons_append, readGap_stop (by simpa using hword)]
  change EndsBelow (behindGap _ _ _ _ _ _) _ _ _ _
  rw [behindGap, if_neg (by simp only; omega), if_neg (by simp only; omega),
    readWords_succ _ _ _ _ _ (atDocumentMark_eq_false (by simp only; omega))
      (by simpa [Cursor.peek] using hhash),
    readWord_cons hword.1 hword.2 (by rwa [endsWord_append_line])]
  simpa using hread

/-- The rest of a plain scalar is read from inside a word, and behind a space from inside a gap. -/
theorem reads_flows (hbody : Solid body) (hcolumn : column < level) (hflows : Flows before text) :
    ReadsPlainWord level column body text ∧
      (before = ' ' → ReadsPlainGap level column body text) := by
  induction text generalizing before with
  | nil =>
    refine ⟨readsPlainWord_nil hbody hcolumn, ?_⟩
    intro hspace
    exact absurd hspace hflows.ne_space_of_nil
  | cons c text ih =>
    obtain ⟨hword, hgap⟩ := ih hflows.tail
    have hcolon := hflows.colon
    rcases hflows.head with rfl | hc
    · exact ⟨(hgap rfl).behind_word, fun _ => (hgap rfl).space⟩
    · refine ⟨hword.cons hc hcolon, ?_⟩
      rintro rfl
      exact hword.behind_gap hc hcolon hflows.hash (Nat.zero_lt_of_lt hcolumn)

end Reading

theorem flows_of_allowsPlain (h : allowsPlain (c :: text) = true) :
    isPrintable c = true ∧ isBreak c = false ∧ c ≠ ' ' ∧
      startsOtherwise (c :: text) = false ∧ Flows c text := by
  simp only [allowsPlain, needsEscapes, hasIndicator, Bool.not_eq_true', Bool.or_eq_false_iff,
    List.any_eq_false, List.head?_cons, Option.any_some, isSpace, decide_eq_false_iff_not] at h
  obtain ⟨⟨⟨⟨⟨hprintable, _⟩, hstart, hwithin⟩, hbreaks⟩, hspace⟩, hlast⟩ := h
  have hchars : ∀ d ∈ c :: text, isPrintable d = true ∧ isBreak d = false := by
    intro d hd
    exact ⟨by simpa using hprintable d hd, by simpa using hbreaks d hd⟩
  refine ⟨(hchars c List.mem_cons_self).1, (hchars c List.mem_cons_self).2, hspace, hstart, ?_⟩
  refine ⟨fun d hd => hchars d (List.mem_cons_of_mem c hd), hwithin, ?_⟩
  intro hends
  rw [hends] at hlast
  simp [isSpace] at hlast

theorem colon_of_startsOtherwise (h : startsOtherwise (c :: text) = false) :
    (c = ':' && endsWord text.head?) = false := by
  simp only [startsOtherwise, Bool.or_eq_false_iff] at h
  have hmark := h.1.1.2
  by_cases hc : c = ':'
  · simpa [hc] using hmark
  · simp [hc]

theorem ne_hash_of_startsOtherwise (h : startsOtherwise (c :: text) = false) : c ≠ '#' := by
  rintro rfl
  simp [startsOtherwise, startIndicators] at h

/-- A text that can stand without quotes is read up to the next line, where it ends left of the
column `level`. -/
theorem readPlain_of_allowsPlain {m : Mark} {body : List Char} {column level : Nat}
    (hallows : allowsPlain text = true) (hne : text ≠ []) (hbody : Solid body)
    (hcolumn : column < level) (hlevel : level ≤ m.column) :
    ∃ m', m'.column = column ∧ m.line < m'.line ∧
      readPlain false level ⟨text ++ '\n' :: (blanks column ++ body), m⟩ =
        .ok (text, true, ⟨body, m'⟩) := by
  obtain ⟨c, text, rfl⟩ := List.exists_cons_of_ne_nil hne
  obtain ⟨hprintable, hbreak, hspace, hstart, hflows⟩ := flows_of_allowsPlain hallows
  have hgap : isGap c = false := isGap_eq_false ⟨hspace, (ne_of_isPrintable hprintable).1⟩
  have hhash := ne_hash_of_startsOtherwise hstart
  let c' : Cursor := ⟨c :: text ++ '\n' :: (blanks column ++ body), m⟩
  have hlength : text.length ≤ c'.rest.length := by
    simp only [c', List.cons_append, List.length_cons, List.length_append]
    omega
  obtain ⟨m', hm', hline, hread⟩ := (reads_flows hbody hcolumn hflows).1 c'.rest.length {}
    (m.next c) [c] [] (List.cons_ne_nil _ _) (Nat.le_succ_of_le hlevel) hlength
  refine ⟨m', hm', hline, ?_⟩
  have hcolon : (c = ':' && endsWord (text ++ '\n' :: (blanks column ++ body)).head?) = false := by
    rw [endsWord_append_line]
    exact colon_of_startsOtherwise hstart
  have hdocument : c'.atDocumentMark = false :=
    atDocumentMark_eq_false (Nat.lt_of_lt_of_le (Nat.zero_lt_of_lt hcolumn) hlevel)
  have hpeek : c'.peek ≠ some '#' := by
    simpa [c', Cursor.peek] using hhash
  change (readWords false level (c'.rest.length + 1) [] {} c' >>= fun p => pure _) = _
  rw [readWords_succ _ _ _ _ _ hdocument hpeek]
  change (readWord false m [] (c :: (text ++ '\n' :: (blanks column ++ body))) >>= _) >>= _ = _
  rw [readWord_cons hgap hbreak hcolon, hread]
  simp [pure, Except.pure, bind, Except.bind]

theorem endsWithin_of_key (h : ∀ c ∈ text, isKeyChar c = true) :
    endsWithin before text = false := by
  induction text generalizing before with
  | nil => rfl
  | cons c text ih =>
    have hne (d : Char) := @ne_of_isKeyChar c d (h c List.mem_cons_self)
    rw [endsWithin, ih fun d hd => h d (List.mem_cons_of_mem c hd)]
    simp [hne ':' (by decide), hne '#' (by decide)]

theorem allowsPlain_of_key (h : ∀ c ∈ text, isKeyChar c = true) : allowsPlain text = true := by
  have hspace : ∀ c ∈ text, isSpace c = false :=
    fun c hc => decide_eq_false (ne_of_isKeyChar (h c hc) (by decide))
  have hescapes : needsEscapes text = false := by
    have hneighbours : hasNeighbours isSpace isBreak text = false := by
      rw [hasNeighbours, List.any_eq_false]
      rintro ⟨a, b⟩ hmem
      simp [hspace a (List.of_mem_zip hmem).1]
    have hprintable : text.any (!isPrintable ·) = false := by
      rw [List.any_eq_false]
      intro c hc
      simp [isPrintable_of_isKeyChar (h c hc)]
    simp [needsEscapes, hneighbours, hprintable]
  -- no mark that begins or ends something else is a character of keys
  have hindicator : hasIndicator text = false := by
    cases text with
    | nil => rfl
    | cons c text =>
      have hne (d : Char) := @ne_of_isKeyChar c d (h c List.mem_cons_self)
      rw [hasIndicator, endsWithin_of_key fun d hd => h d (List.mem_cons_of_mem c hd)]
      have hstart : c ∉ startIndicators :=
        notMem_of_isKeyChar (h c List.mem_cons_self) (by decide)
      simp [startsOtherwise, List.isPrefixOf, hstart, hne '?' (by decide), hne ':' (by decide),
        hne '-' (by decide), (hne '-' (by decide)).symm, (hne '.' (by decide)).symm]
  have hbreaks : text.any isBreak = false := by
    rw [List.any_eq_false]
    intro c hc
    simp [(word_of_isKeyChar (h c hc)).2]
  have hends {c? : Option Char} (hc : ∀ c ∈ c?, c ∈ text) : c?.any isSpace = false := by
    cases c? with
    | none => rfl
    | some c => exact hspace c (hc c rfl)
  simp [allowsPlain, hescapes, hindicator, hbreaks, hends fun _ => List.mem_of_mem_head?,
    hends fun _ => List.mem_of_mem_getLast?]

theorem readWord_key {key word : List Char} {m : Mark} (hkey : ∀ c ∈ key, isKeyChar c = true)
    (hrest : endsWord rest.head? = true) :
    readWord false m word (key ++ ':' :: rest) =
      .ok (key.reverse ++ word, ⟨':' :: rest, m.skip key⟩) := by
  induction key generalizing m word with
  | nil =>
    rw [List.nil_append, readWord.eq_def]
    simp only [show isGap ':' = false by decide, show isBreak ':' = false by decide, hrest]
    rfl
  | cons c key ih =>
    have hc := hkey c List.mem_cons_self
    obtain ⟨hgap, hbreak⟩ := word_of_isKeyChar hc
    have hcolon : c ≠ ':' := ne_of_isKeyChar hc (by decide)
    rw [List.cons_append, readWord_cons hgap hbreak (by simp [hcolon]),
      ih fun d hd => hkey d (List.mem_cons_of_mem c hd)]
    simp [Mark.skip_cons]

theorem readPlain_key {key : List Char} {m : Mark} {level : Nat} (hne : key ≠ [])
    (hkey : ∀ c ∈ key, isKeyChar c = true) (hrest : endsWord rest.head? = true) :
    readPlain false level ⟨key ++ ':' :: rest, m⟩ =
      .ok (key, false, ⟨':' :: rest, m.skip key⟩) := by
  obtain ⟨c, more, rfl⟩ := List.exists_cons_of_ne_nil hne
  have hc := hkey c List.mem_cons_self
  let c' : Cursor := ⟨c :: more ++ ':' :: rest, m⟩
  have hdocument : c'.atDocumentMark = false := atDocumentMark_of_isKeyChar hc
  have hpeek : c'.peek ≠ some '#' := by
    simpa [c', Cursor.peek] using ne_of_isKeyChar hc (by decide)
  have hstop : ∀ d ∈ (':' :: rest).head?, isGap d = false ∧ isBreak d = false := by
    simp only [List.head?_cons, Option.mem_some_iff]
    rintro _ rfl
    exact ⟨by decide, by decide⟩
  change (readWords false level (c'.rest.length + 1) [] {} c' >>= fun p => pure _) = _
  rw [readWords_succ _ _ _ _ _ hdocument hpeek, readWord_key hkey hrest]
  change (behindWord level c'.rest.length [] ((c :: more).reverse ++ []) {}
    ⟨':' :: rest, m.skip (c :: more)⟩ >>= _) = _
  rw [behindWord, if_neg (by simp), readGap_stop hstop]
  change (behindGap _ _ _ _ _ _ >>= _) = _
  rw [behindGap, if_pos rfl]
  simp [bind, Except.bind, pure, Except.pure]

end LegacyAudit.Yaml
