import LegacyAudit.Proofs.Yaml.Layout

/-!
# Literal blocks

A literal block shows a text line by line. Its header says how far the lines are indented, where
that cannot be seen, and what becomes of the line breaks at the end.

## Main definitions

- `ending` - the line feed that is added to a text without one at its end
- `readLines_literal` - the lines of a block are read up to what follows them
- `readBlock_literal` - a literal block is read as its text
-/

namespace LegacyAudit.Yaml

open Content (blanks)

variable {c b : Char} {text rest body acc : List Char} {indent column deepest : Nat} {m : Mark}

-- ═══════════════════════════════════════════════════════════════════════════
-- Lines of a text
-- ═══════════════════════════════════════════════════════════════════════════

/-- The line feed that is added to a text without a line break at its end. -/
def ending (text : List Char) : List Char :=
  if text.getLast?.any isBreak then [] else ['\n']

/-- The line breaks are those that are read as themselves. -/
def PlainBreaks (text : List Char) : Prop :=
  ∀ c ∈ text, isBreak c = true → c ≠ '\r' ∧ breakAs c = c

theorem PlainBreaks.subset {part : List Char} (h : PlainBreaks text) (hpart : part ⊆ text) :
    PlainBreaks part :=
  fun c hc => h c (hpart hc)

theorem plainBreaks_of_printable (h : ∀ c ∈ text, isPrintable c = true) : PlainBreaks text :=
  fun c hc hbreak => ⟨(ne_of_isPrintable (h c hc)).2, breakAs_of_isPrintable (h c hc) hbreak⟩

theorem isBreak_of_mem_takeWhile (hc : c ∈ text.takeWhile isBreak) : isBreak c = true :=
  List.all_eq_true.mp List.all_takeWhile c hc

theorem isBreak_of_dropWhile (h : text.dropWhile isBreak = c :: rest) : isBreak c = false := by
  have hhead := List.head?_dropWhile_not isBreak text
  simpa [h] using hhead

theorem literalBody_append_feed {fresh : Bool} :
    literalBody indent fresh (text ++ ['\n']) = literalBody indent fresh text ++ ['\n'] := by
  induction text generalizing fresh with
  | nil => simp [literalBody, show isBreak '\n' = true by decide]
  | cons c text ih =>
    simp only [List.cons_append, literalBody, ih]
    split <;> simp

theorem getLast?_literalBody {fresh : Bool} :
    (literalBody indent fresh text).getLast? = text.getLast? := by
  induction text generalizing fresh with
  | nil => rfl
  | cons c text ih =>
    have hcons (fresh : Bool) :
        (c :: literalBody indent fresh text).getLast? = (c :: text).getLast? := by
      rw [List.getLast?_cons, List.getLast?_cons, ih]
    rw [literalBody]
    split
    · exact hcons true
    · rw [List.getLast?_append, hcons false]
      simp [List.getLast?_cons]

theorem length_le_literalBody {fresh : Bool} :
    text.length ≤ (literalBody indent fresh text).length := by
  induction text generalizing fresh with
  | nil => simp
  | cons c text ih =>
    have hbreak := @ih true
    have hline := @ih false
    rw [literalBody]
    split
    · simpa using hbreak
    · simp only [List.length_append, List.length_cons]
      omega

theorem endLine_literal (hne : text ≠ []) :
    Content.endLine (literalHeader text ++ '\n' :: literalBody indent true text) =
      literalHeader text ++ '\n' :: literalBody indent true (text ++ ending text) := by
  have hlast : (literalHeader text ++ '\n' :: literalBody indent true text).getLast? =
      text.getLast? := by
    have hbody := @getLast?_literalBody text indent true
    rw [List.getLast?_append, List.getLast?_cons, hbody]
    cases hlast : text.getLast? with
    | none => exact absurd (List.getLast?_eq_none_iff.mp hlast) hne
    | some last => rfl
  rw [Content.endLine, hlast, ending]
  split
  · simp
  · rw [literalBody_append_feed]
    simp

theorem literalBody_true (h : ∀ c ∈ text.head?, isBreak c = false) (hne : text ≠ []) :
    literalBody indent true text = blanks indent ++ literalBody indent false text := by
  obtain ⟨c, text, rfl⟩ := List.exists_cons_of_ne_nil hne
  simp [literalBody, h c rfl, blanks]

theorem literalBody_line (line : List Char) (hline : ∀ c ∈ line, isBreak c = false)
    (hb : isBreak b = true) :
    literalBody indent false (line ++ b :: rest) = line ++ b :: literalBody indent true rest := by
  induction line with
  | nil => simp [literalBody, hb]
  | cons c line ih =>
    have hc := hline c List.mem_cons_self
    rw [List.cons_append, literalBody, ih fun d hd => hline d (List.mem_cons_of_mem c hd)]
    simp [hc]

-- ═══════════════════════════════════════════════════════════════════════════
-- Indentation and empty lines
-- ═══════════════════════════════════════════════════════════════════════════

theorem readEmptyLines_cons {given : Option Nat} (hc : c ≠ '\r') :
    readEmptyLines given deepest acc m (c :: rest) =
      if given.all (m.column < ·) && c = ' ' then
        readEmptyLines given (max deepest m.column) acc (m.next c) rest
      else if given.all (m.column < ·) && c = '\t' then .error .token
      else if isBreak c then
        readEmptyLines given (max deepest m.column) (breakAs c :: acc) (m.nextLine c.utf8Size) rest
      else .ok (acc, max deepest m.column, ⟨c :: rest, m⟩) := by
  rw [readEmptyLines.eq_def]
  split
  · next h => exact absurd (List.cons.inj h).1 hc
  · next h =>
    obtain ⟨rfl, rfl⟩ := List.cons.inj h
    cases given <;> rfl
  · next h => cases h

theorem readEmptyLines_break {given : Option Nat} (hb : isBreak b = true) (hr : b ≠ '\r') :
    readEmptyLines given deepest acc m (b :: rest) =
      readEmptyLines given (max deepest m.column) (breakAs b :: acc) (m.nextLine b.utf8Size)
        rest := by
  have hne : b ≠ ' ' ∧ b ≠ '\t' := by
    constructor <;>
    · rintro rfl
      exact absurd hb (by decide)
  simp [readEmptyLines_cons hr, hne, hb]

theorem readEmptyLines_stop {given : Option Nat} (hbreak : ∀ c ∈ rest.head?, isBreak c = false)
    (hstop : (∀ c ∈ rest.head?, isGap c = false) ∨ given = some m.column) :
    readEmptyLines given deepest acc m rest = .ok (acc, max deepest m.column, ⟨rest, m⟩) := by
  cases rest with
  | nil => rfl
  | cons c rest =>
    have hc := hbreak c rfl
    have hreturn : c ≠ '\r' := by
      rintro rfl
      exact absurd hc (by decide)
    rw [readEmptyLines_cons hreturn]
    rcases hstop with hstop | rfl
    · have hgap := hstop c rfl
      simp only [isGap, Bool.or_eq_false_iff, decide_eq_false_iff_not] at hgap
      simp [hgap, hc]
    · simp [hc]

theorem readEmptyLines_blanks {given : Option Nat} (count : Nat)
    (hgiven : ∀ n ∈ given, m.column + count ≤ n) (hbreak : ∀ c ∈ rest.head?, isBreak c = false)
    (hstop : (∀ c ∈ rest.head?, isGap c = false) ∨ given = some (m.column + count)) :
    readEmptyLines given deepest acc m (blanks count ++ rest) =
      .ok (acc, max deepest (m.column + count), ⟨rest, m.skip (blanks count)⟩) := by
  induction count generalizing m deepest with
  | zero => exact readEmptyLines_stop hbreak hstop
  | succ count ih =>
    have hspace : given.all (m.column < ·) = true := by
      cases given with
      | none => rfl
      | some n =>
        have := hgiven n rfl
        simp only [Option.all_some, decide_eq_true_eq]
        omega
    have hcount : (m.next ' ').column + count = m.column + (count + 1) := by
      rw [Mark.next_column]
      omega
    have hread := @ih (max deepest m.column) (m.next ' ') (by rwa [hcount]) (by rwa [hcount])
    change readEmptyLines given deepest acc m (' ' :: (blanks count ++ rest)) = _
    rw [readEmptyLines_cons (by decide), hspace]
    simp only [Bool.true_and, decide_true, if_true]
    rw [hread, hcount]
    congr 3
    omega

/-- Empty lines and the indentation of the line behind them. Behind the last line of the block
comes the next line of its surroundings. -/
theorem readEmptyLines_literal (hbreaks : PlainBreaks text) (hbody : Solid body)
    (hcolumn : column < indent) (hm : m.column = 0) :
    ∃ deepest' m', m.line ≤ m'.line ∧
      m'.column = (if text.dropWhile isBreak = [] then column else indent) ∧
      readEmptyLines (some indent) deepest acc m
          (literalBody indent true text ++ (blanks column ++ body)) =
        .ok ((text.takeWhile isBreak).reverse ++ acc, deepest',
          ⟨literalBody indent false (text.dropWhile isBreak) ++
            (if text.dropWhile isBreak = [] then body else blanks column ++ body), m'⟩) := by
  induction text generalizing m deepest acc with
  | nil =>
    obtain ⟨_, hline, hskip⟩ := m.skip_spec (blanks column)
    refine ⟨max deepest (m.column + column), m.skip (blanks column), Nat.le_of_eq hline.symm, ?_,
      ?_⟩
    · simp [hskip, hm]
    · simp only [literalBody, List.nil_append]
      rw [readEmptyLines_blanks column (by simp [hm]; omega) (fun c hc => (hbody c hc).2.1)
        (.inl fun c hc => (hbody c hc).1)]
      simp [literalBody]
  | cons c text ih =>
    cases hc : isBreak c with
    | true =>
      -- an empty line
      obtain ⟨hreturn, has⟩ := hbreaks c List.mem_cons_self hc
      obtain ⟨deepest', m', hline, hcolumn', hread⟩ :=
        @ih (c :: acc) (max deepest m.column) (m.nextLine c.utf8Size)
          (fun d hd => hbreaks d (List.mem_cons_of_mem c hd)) rfl
      refine ⟨deepest', m', ?_, ?_, ?_⟩
      · simp only [Mark.nextLine] at hline
        omega
      · simpa [hc] using hcolumn'
      · rw [literalBody, if_pos hc, List.cons_append, readEmptyLines_break hc hreturn, has, hread]
        simp [hc]
    | false =>
      obtain ⟨_, hline, hskip⟩ := m.skip_spec (blanks indent)
      refine ⟨max deepest (m.column + indent), m.skip (blanks indent), Nat.le_of_eq hline.symm, ?_,
        ?_⟩
      · simp [hskip, hm, hc]
      · rw [literalBody_true (by simpa using hc) (by simp), List.append_assoc,
          readEmptyLines_blanks indent (by simp [hm]) (by simp [literalBody, hc])
            (.inr (by simp [hm]))]
        simp [hc]

-- ═══════════════════════════════════════════════════════════════════════════
-- Lines
-- ═══════════════════════════════════════════════════════════════════════════

/-- The reversed text of a block with all its line breaks. -/
def BlockReader.whole (b : BlockReader) : List Char :=
  b.empty ++ b.last.toList ++ b.text

theorem BlockReader.joined_false (b : BlockReader) (blank : Bool) :
    b.joined false blank = b.whole := rfl

theorem readLines_stop {fuel : Nat} {r : BlockReader} {c : Cursor} (h : c.mark.column ≠ indent) :
    readLines false indent fuel r c = .ok (r, c) := by
  cases fuel with
  | zero => rfl
  | succ fuel => rw [readLines, if_pos (by simp [h])]

theorem readLines_line {fuel : Nat} {r : BlockReader} {line : List Char} (hm : m.column = indent)
    (hline : ∀ c ∈ line, isBreak c = false) (hb : isBreak b = true) (hr : b ≠ '\r')
    (has : breakAs b = b) :
    ∃ blank, readLines false indent (fuel + 1) r ⟨line ++ b :: rest, m⟩ =
      readEmptyLines (some indent) 0 [] ((m.skip line).nextLine b.utf8Size) rest >>=
        fun (empty, _, c) =>
          readLines false indent fuel ⟨line.reverse ++ r.whole, some b, empty, blank⟩ c := by
  obtain ⟨first, more, hfirst⟩ : ∃ first more, line ++ b :: rest = first :: more :=
    List.exists_cons_of_ne_nil (by simp)
  refine ⟨isGap first, ?_⟩
  let c : Cursor := ⟨line ++ b :: rest, m⟩
  have hpeek : c.peek = some first := by
    simp [c, Cursor.peek, hfirst]
  have hwhile : c.while_ (fun ch => !isBreak ch) = line := by
    simp only [c, Cursor.while_]
    rw [List.takeWhile_append_of_pos (by simpa using hline)]
    simp [hb]
  have hskip : c.skip line.length = ⟨b :: rest, m.skip line⟩ := by
    simp [c, Cursor.skip]
  have hbreak : (⟨b :: rest, m.skip line⟩ : Cursor).break? =
      some (b, ⟨rest, (m.skip line).nextLine b.utf8Size⟩) := by
    rw [Cursor.break?.eq_def]
    split
    · next h => exact absurd (List.cons.inj h).1 hr
    · next h =>
      obtain ⟨rfl, rfl⟩ := List.cons.inj h
      rw [if_pos hb, has]
    · next h => cases h
  change readLines false indent (fuel + 1) r c = _
  rw [readLines, if_neg (by simp [c, hm])]
  simp only [hpeek, hwhile, hskip, hbreak, BlockReader.joined_false]

/-- What the lines of a text leave behind: the text with all its line breaks, those at its end apart
from it. -/
structure BlockReader.Holds (r : BlockReader) (text : List Char) : Prop where
  whole_eq : r.whole = text
  last : ∃ b, r.last = some b ∧ isBreak b = true
  empty : ∀ c ∈ r.empty, isBreak c = true
  text : ∃ c more, r.text = c :: more ∧ isBreak c = false

theorem exists_line (h : text.getLast?.any isBreak = true) : ∃ line b rest,
    text = line ++ b :: rest ∧ (∀ c ∈ line, isBreak c = false) ∧ isBreak b = true := by
  induction text with
  | nil => simp at h
  | cons c text ih =>
    cases hc : isBreak c with
    | true => exact ⟨[], c, text, rfl, by simp, hc⟩
    | false =>
      cases text with
      | nil => simp [hc] at h
      | cons d text =>
        rw [List.getLast?_cons_cons] at h
        obtain ⟨line, b, rest, heq, hline, hb⟩ := ih h
        exact ⟨c :: line, b, rest, by rw [heq]; rfl, by simpa [hc] using hline, hb⟩

/-- The text consists of lines, each with line breaks behind it. -/
inductive Paragraphs : List Char → Prop where
  | last {line rest : List Char} {b : Char} (hne : line ≠ [])
      (hline : ∀ c ∈ line, isBreak c = false) (hb : isBreak b = true)
      (hrest : rest.dropWhile isBreak = []) : Paragraphs (line ++ b :: rest)
  | cons {line rest : List Char} {b : Char} (hne : line ≠ [])
      (hline : ∀ c ∈ line, isBreak c = false) (hb : isBreak b = true)
      (hmore : rest.dropWhile isBreak ≠ []) (h : Paragraphs (rest.dropWhile isBreak)) :
      Paragraphs (line ++ b :: rest)

theorem paragraphs_of_lines (hhead : ∀ c ∈ text.head?, isBreak c = false)
    (hends : text.getLast?.any isBreak = true) : Paragraphs text := by
  induction hlength : text.length using Nat.strongRecOn generalizing text with
  | ind length ih =>
    obtain ⟨line, b, rest, rfl, hline, hb⟩ := exists_line hends
    -- an empty line at the start would put a break at the head
    have hne : line ≠ [] := by
      rintro rfl
      exact absurd hb (by simp [hhead b rfl])
    have hsplit : rest.takeWhile isBreak ++ rest.dropWhile isBreak = rest :=
      List.takeWhile_append_dropWhile
    by_cases hmore : rest.dropWhile isBreak = []
    · exact .last hne hline hb hmore
    · refine .cons hne hline hb hmore (ih _ ?_ ?_ ?_ rfl)
      · have hshorter := (List.dropWhile_sublist isBreak (l := rest)).length_le
        simp only [List.length_append, List.length_cons] at hlength
        omega
      · intro c hc
        obtain ⟨more, hdrop⟩ := List.head?_eq_some_iff.mp hc
        exact isBreak_of_dropWhile hdrop
      · obtain ⟨c, more, hdrop⟩ := List.exists_cons_of_ne_nil hmore
        rw [← hsplit] at hends
        simpa [hdrop, List.getLast?_append, List.getLast?_cons] using hends

/-- What a line and the line breaks behind it leave behind. -/
def BlockReader.behind (r : BlockReader) (line : List Char) (b : Char) (breaks : List Char)
    (blank : Bool) : BlockReader :=
  ⟨line.reverse ++ r.whole, some b, breaks.reverse, blank⟩

theorem BlockReader.whole_behind {r : BlockReader} {line breaks : List Char} {blank : Bool} :
    (r.behind line b breaks blank).whole = (line ++ b :: breaks).reverse ++ r.whole := by
  simp [behind, whole]

theorem BlockReader.holds_behind {r : BlockReader} {line : List Char} {blank : Bool}
    (hne : line ≠ []) (hline : ∀ c ∈ line, isBreak c = false) (hb : isBreak b = true) :
    (r.behind line b (text.takeWhile isBreak) blank).Holds
      ((line ++ b :: text.takeWhile isBreak).reverse ++ r.whole) where
  whole_eq := whole_behind
  last := ⟨b, rfl, hb⟩
  empty := by
    intro c hc
    exact isBreak_of_mem_takeWhile (List.mem_reverse.mp hc)
  text := by
    obtain ⟨c, more, hlast⟩ := List.exists_cons_of_ne_nil (List.reverse_ne_nil_iff.mpr hne)
    refine ⟨c, more ++ r.whole, by simp [behind, hlast], hline c ?_⟩
    rw [← List.mem_reverse, hlast]
    exact List.mem_cons_self

theorem readLines_paragraph {fuel : Nat} {r : BlockReader} {line : List Char}
    (hbreaks : PlainBreaks (b :: rest)) (hline : ∀ c ∈ line, isBreak c = false)
    (hb : isBreak b = true) (hbody : Solid body) (hcolumn : column < indent)
    (hm : m.column = indent) :
    ∃ blank m', m.line < m'.line ∧
      m'.column = (if rest.dropWhile isBreak = [] then column else indent) ∧
      readLines false indent (fuel + 1) r
          ⟨literalBody indent false (line ++ b :: rest) ++ (blanks column ++ body), m⟩ =
        readLines false indent fuel (r.behind line b (rest.takeWhile isBreak) blank)
          ⟨literalBody indent false (rest.dropWhile isBreak) ++
            (if rest.dropWhile isBreak = [] then body else blanks column ++ body), m'⟩ := by
  obtain ⟨hreturn, has⟩ := hbreaks b List.mem_cons_self hb
  have hrest : PlainBreaks rest := fun c hc => hbreaks c (List.mem_cons_of_mem b hc)
  obtain ⟨deepest, m', hm', hcolumn', hempty⟩ :=
    @readEmptyLines_literal rest body [] indent column 0 ((m.skip line).nextLine b.utf8Size) hrest
      hbody hcolumn rfl
  obtain ⟨blank, hstep⟩ := @readLines_line b
    (literalBody indent true rest ++ (blanks column ++ body)) indent m fuel r line hm hline hb
    hreturn has
  have hsame := (m.skip_spec line).2.1
  refine ⟨blank, m', ?_, hcolumn', ?_⟩
  · simp only [Mark.nextLine] at hm'
    omega
  · rw [literalBody_line _ hline hb, List.append_assoc, List.cons_append, hstep, hempty,
      List.append_nil]
    rfl

theorem readLines_literal {fuel : Nat} {r : BlockReader} (h : Paragraphs text)
    (hbreaks : PlainBreaks text) (hbody : Solid body) (hcolumn : column < indent)
    (hm : m.column = indent) (hfuel : text.length ≤ fuel) :
    ∃ r' m', m.line < m'.line ∧ m'.column = column ∧ r'.Holds (text.reverse ++ r.whole) ∧
      readLines false indent fuel r ⟨literalBody indent false text ++ (blanks column ++ body), m⟩ =
        .ok (r', ⟨body, m'⟩) := by
  induction h generalizing fuel r m with
  | @last line rest b hne hline hb hrest =>
    rw [List.length_append, List.length_cons] at hfuel
    obtain ⟨fuel, rfl⟩ : ∃ f, fuel = f + 1 := ⟨fuel - 1, by omega⟩
    obtain ⟨blank, m₁, hm₁, hcolumn₁, hread⟩ :=
      @readLines_paragraph b rest body indent column m fuel r line
        (hbreaks.subset (List.subset_append_right _ _)) hline hb hbody hcolumn hm
    rw [if_pos hrest] at hcolumn₁
    rw [hread, hrest]
    -- only empty lines are left, and the block ends in front of its surroundings
    refine ⟨_, m₁, hm₁, hcolumn₁, ?_, readLines_stop (by simp only; omega)⟩
    have hholds := @BlockReader.holds_behind b rest r line blank hne hline hb
    have hall : rest.takeWhile isBreak = rest := by
      simpa [hrest] using @List.takeWhile_append_dropWhile _ isBreak rest
    rwa [hall] at hholds ⊢
  | @cons line rest b hne hline hb hmore h ih =>
    simp only [List.length_append, List.length_cons] at hfuel
    obtain ⟨fuel, rfl⟩ : ∃ f, fuel = f + 1 := ⟨fuel - 1, by omega⟩
    have hrest : PlainBreaks (b :: rest) := hbreaks.subset (List.subset_append_right _ _)
    obtain ⟨blank, m₁, hm₁, hcolumn₁, hread⟩ :=
      @readLines_paragraph b rest body indent column m fuel r line hrest hline hb hbody hcolumn hm
    rw [if_neg hmore] at hcolumn₁
    have hpart : (rest.dropWhile isBreak).Sublist rest := List.dropWhile_sublist isBreak
    have hplain : PlainBreaks (rest.dropWhile isBreak) :=
      hrest.subset fun d hd => List.mem_cons_of_mem b (hpart.subset hd)
    have hshorter := hpart.length_le
    obtain ⟨r', m', hm', hcolumn', hholds, hread'⟩ :=
      @ih m₁ fuel (r.behind line b (rest.takeWhile isBreak) blank) hplain hcolumn₁ (by omega)
    refine ⟨r', m', Nat.lt_trans hm₁ hm', hcolumn', ?_, ?_⟩
    · have hwhole : (rest.dropWhile isBreak).reverse ++
          (r.behind line b (rest.takeWhile isBreak) blank).whole =
            (line ++ b :: rest).reverse ++ r.whole := by
        rw [BlockReader.whole_behind, ← List.append_assoc, ← List.reverse_append,
          List.append_assoc, List.cons_append, List.takeWhile_append_dropWhile]
      rwa [hwhole] at hholds
    · rw [hread, if_neg hmore]
      exact hread'

-- ═══════════════════════════════════════════════════════════════════════════
-- Headers and ends
-- ═══════════════════════════════════════════════════════════════════════════

def hintFor (text : List Char) : Option Nat :=
  if text.head?.any fun c => isSpace c || isBreak c then some 2 else none

/-- What the header of a text says about its end. -/
def chompingFor (text : List Char) : Chomping :=
  match text.reverse with
  | [] => .strip
  | last :: before =>
    if !isBreak last then .strip else if before.head?.all isBreak then .keep else .clip

def Chomping.indicator : Chomping → List Char
  | .strip => ['-']
  | .clip => []
  | .keep => ['+']

def indicatorsFor (text : List Char) : List Char :=
  (if (hintFor text).isSome then ['2'] else []) ++ (chompingFor text).indicator

theorem literalHeader_eq (text : List Char) : literalHeader text = '|' :: indicatorsFor text := by
  have hhint : (if text.head?.any fun c => isSpace c || isBreak c then ['2'] else []) =
      if (hintFor text).isSome then ['2'] else [] := by
    unfold hintFor
    split <;> rfl
  simp only [literalHeader, indicatorsFor, chompingFor, hhint]
  cases text.reverse with
  | nil => rfl
  | cons last before =>
    dsimp only
    cases isBreak last with
    | false => rfl
    | true => cases before.head?.all isBreak <;> rfl

theorem readHeader_indicatorsFor (text rest : List Char) (m : Mark) :
    readHeader ⟨indicatorsFor text ++ '\n' :: rest, m⟩ =
      .ok (chompingFor text, hintFor text, ⟨'\n' :: rest, m.skip (indicatorsFor text)⟩) := by
  have hhint : hintFor text = none ∨ hintFor text = some 2 := by
    unfold hintFor
    split <;> simp
  unfold indicatorsFor
  rcases hhint with hhint | hhint <;> rw [hhint] <;> cases chompingFor text <;> rfl

def BlockReader.chomped (r : BlockReader) : Chomping → List Char
  | .strip => r.text
  | .clip => r.last.toList ++ r.text
  | .keep => r.empty ++ r.last.toList ++ r.text

/-- If there is text right in front of the last line break, then there are no empty lines. -/
theorem BlockReader.Holds.empty_eq_nil {r : BlockReader} (h : r.Holds (b :: c :: text))
    (hc : isBreak c = false) : r.empty = [] ∧ r.last = some b ∧ r.text = c :: text := by
  obtain ⟨hwhole, ⟨l, hlast, hl⟩, hempty, _⟩ := h
  simp only [whole, hlast, Option.toList_some, List.append_assoc, List.cons_append,
    List.nil_append] at hwhole
  cases hr : r.empty with
  | nil =>
    rw [hr, List.nil_append] at hwhole
    obtain ⟨rfl, htext⟩ := List.cons.inj hwhole
    exact ⟨rfl, hlast, htext⟩
  | cons e more =>
    rw [hr, List.cons_append] at hwhole
    obtain ⟨rfl, hmore⟩ := List.cons.inj hwhole
    cases more with
    | nil =>
      obtain ⟨rfl, _⟩ := List.cons.inj hmore
      exact absurd hl (by simp [hc])
    | cons d more =>
      obtain ⟨rfl, _⟩ := List.cons.inj hmore
      exact absurd (hempty d (by simp [hr])) (by simp [hc])

theorem BlockReader.Holds.chomped_eq {r : BlockReader} (h : r.Holds (text ++ ending text).reverse)
    (hne : text ≠ []) : r.chomped (chompingFor text) = text.reverse := by
  obtain ⟨last, before, hlast⟩ := List.exists_cons_of_ne_nil (List.reverse_ne_nil_iff.mpr hne)
  have hgetLast : text.getLast? = some last := by
    rw [List.getLast?_eq_head?_reverse, hlast]
    rfl
  unfold chompingFor
  cases hbreak : isBreak last with
  | false =>
    have hfeed : ending text = ['\n'] := by simp [ending, hgetLast, hbreak]
    rw [hfeed, List.reverse_append, hlast] at h
    obtain ⟨_, _, htext⟩ := h.empty_eq_nil hbreak
    simp [hlast, hbreak, chomped, htext]
  | true =>
    have hfeed : ending text = [] := by simp [ending, hgetLast, hbreak]
    rw [hfeed, List.append_nil, hlast] at h
    cases hkeep : before.head?.all isBreak with
    | true =>
      simp only [hlast, hbreak, hkeep]
      exact h.whole_eq
    | false =>
      cases before with
      | nil => simp at hkeep
      | cons c before =>
        obtain ⟨_, hr, htext⟩ := h.empty_eq_nil (by simpa using hkeep)
        have hc : isBreak c = false := by simpa using hkeep
        simp [hlast, hbreak, hc, chomped, hr, htext]

-- ═══════════════════════════════════════════════════════════════════════════
-- Whole blocks
-- ═══════════════════════════════════════════════════════════════════════════

theorem getLast?_append_ending (text : List Char) :
    (text ++ ending text).getLast?.any isBreak = true := by
  unfold ending
  split
  · simpa
  · simp [show isBreak '\n' = true by decide]

theorem plainBreaks_append_ending (h : PlainBreaks text) : PlainBreaks (text ++ ending text) := by
  intro c hc hbreak
  rcases List.mem_append.mp hc with hc | hc
  · exact h c hc hbreak
  · obtain rfl : c = '\n' := by
      unfold ending at hc
      split at hc <;> simp_all
    exact ⟨by decide, by decide⟩

theorem chompingFor_of_breaks (hne : text ≠ []) (h : ∀ c ∈ text, isBreak c = true) :
    ending text = [] ∧ chompingFor text = .keep := by
  obtain ⟨last, before, hlast⟩ := List.exists_cons_of_ne_nil (List.reverse_ne_nil_iff.mpr hne)
  have hmem : ∀ c ∈ last :: before, isBreak c = true := by
    intro c hc
    rw [← hlast, List.mem_reverse] at hc
    exact h c hc
  have hlastBreak : isBreak last = true := hmem last List.mem_cons_self
  have hbefore : before.head?.all isBreak = true := by
    cases before with
    | nil => rfl
    | cons c before => exact hmem c (by simp)
  constructor
  · rw [ending, List.getLast?_eq_head?_reverse, hlast]
    simp [hlastBreak]
  · simp [chompingFor, hlast, hlastBreak, hbefore]

/-- The column of the lines as the header gives it. -/
def givenFor (level : Nat) (text : List Char) : Option Nat :=
  (hintFor text).map fun n => level - 1 + n

/-- Behind empty lines the lines of a block are read, and leave the whole text behind. -/
theorem readLines_leave {fuel : Nat} {before lines : List Char} (hne : text ≠ [])
    (hbreaks : PlainBreaks text) (hlines : before ++ lines = text ++ ending text)
    (hhead : ∃ c more, lines = c :: more ∧ isBreak c = false) (hbody : Solid body)
    (hcolumn : column < indent) (hm : m.column = indent) (hfuel : lines.length ≤ fuel) :
    ∃ r' m', m.line < m'.line ∧ m'.column = column ∧
      readLines false indent fuel { empty := before.reverse }
          ⟨literalBody indent false lines ++ (blanks column ++ body), m⟩ =
        .ok (r', ⟨body, m'⟩) ∧ r'.chomped (chompingFor text) = text.reverse := by
  have hplain := plainBreaks_append_ending hbreaks
  have hends := getLast?_append_ending text
  rw [← hlines] at hplain hends
  obtain ⟨c, more, rfl, hc⟩ := hhead
  obtain ⟨r', m', hm', hcolumn', hholds, hread⟩ :=
    @readLines_literal (c :: more) body indent column m fuel { empty := before.reverse }
      (paragraphs_of_lines (by simpa using hc)
        (by simpa [List.getLast?_append, List.getLast?_cons] using hends))
      (hplain.subset (List.subset_append_right _ _)) hbody hcolumn hm hfuel
  refine ⟨r', m', hm', hcolumn', hread, ?_⟩
  have hwhole : (c :: more).reverse ++ ({ empty := before.reverse } : BlockReader).whole =
      (text ++ ending text).reverse := by
    rw [← hlines, List.reverse_append]
    simp [BlockReader.whole]
  rw [hwhole] at hholds
  exact hholds.chomped_eq hne

theorem length_le_rest (lines : List Char) : lines.length ≤
    (literalBody indent false lines ++ (blanks column ++ body)).length + 1 := by
  have hlines := @length_le_literalBody lines indent false
  rw [List.length_append]
  omega

/-- The empty lines at the start of a block and its lines are read, and leave the whole text
behind. -/
def ReadsLines (level indent column : Nat) (text body : List Char) (m : Mark) : Prop :=
  ∃ empty deepest c r' m', m.line ≤ m'.line ∧ m'.column = column ∧
    readEmptyLines (givenFor level text) 0 [] m
        (literalBody indent true (text ++ ending text) ++ (blanks column ++ body)) =
      .ok (empty, deepest, c) ∧
    (givenFor level text).getD (max (max deepest level) 1) = indent ∧
    readLines false indent (c.rest.length + 1) { empty } c = .ok (r', ⟨body, m'⟩) ∧
    r'.chomped (chompingFor text) = text.reverse

/-- If the header gives the column, then the text may begin with empty lines. -/
theorem readsLines_given {level : Nat} (hne : text ≠ []) (hbreaks : PlainBreaks text)
    (hgiven : givenFor level text = some indent) (hbody : Solid body) (hcolumn : column < indent)
    (hm : m.column = 0) : ReadsLines level indent column text body m := by
  let lines := text ++ ending text
  obtain ⟨deepest, m₁, hm₁, hcolumn₁, hempty⟩ :=
    @readEmptyLines_literal lines body [] indent column 0 m (plainBreaks_append_ending hbreaks)
      hbody hcolumn hm
  have hsplit : lines.takeWhile isBreak ++ lines.dropWhile isBreak = lines :=
    List.takeWhile_append_dropWhile
  rw [List.append_nil] at hempty
  rw [ReadsLines, hgiven]
  cases hmore : lines.dropWhile isBreak with
  | nil =>
    rw [hmore, List.append_nil] at hsplit
    have hall : ∀ c ∈ text, isBreak c = true := by
      intro c hc
      apply @isBreak_of_mem_takeWhile c lines
      rw [hsplit]
      exact List.mem_append_left _ hc
    obtain ⟨hending, hkeep⟩ := chompingFor_of_breaks hne hall
    rw [if_pos hmore] at hcolumn₁
    rw [hsplit, hmore, if_pos rfl] at hempty
    refine ⟨_, deepest, _, _, m₁, hm₁, hcolumn₁, hempty, rfl,
      readLines_stop (by simp only; omega), ?_⟩
    simp [hkeep, BlockReader.chomped, lines, hending]
  | cons c more =>
    rw [hmore, if_neg (by simp)] at hempty hcolumn₁
    rw [hmore] at hsplit
    obtain ⟨r', m', hm', hcolumn', hread, hchomped⟩ :=
      readLines_leave hne hbreaks hsplit ⟨c, more, rfl, isBreak_of_dropWhile hmore⟩ hbody hcolumn
        hcolumn₁ (length_le_rest (c :: more))
    exact ⟨_, deepest, _, r', m', by omega, hcolumn', hempty, rfl, hread, hchomped⟩

theorem readsLines_shown {level : Nat} (hgiven : givenFor level (c :: text) = none)
    (hbreaks : PlainBreaks (c :: text)) (hc : isGap c = false ∧ isBreak c = false)
    (hbody : Solid body) (hcolumn : column < indent) (hlevel : 0 < level ∧ level + 1 = indent)
    (hm : m.column = 0) : ReadsLines level indent column (c :: text) body m := by
  obtain ⟨hgap, hbreak⟩ := hc
  obtain ⟨_, hline, hskip⟩ := m.skip_spec (blanks indent)
  rw [length_blanks] at hskip
  obtain ⟨r', m', hm', hcolumn', hread, hchomped⟩ :=
    @readLines_leave (c :: text) body indent column (m.skip (blanks indent)) _ []
      (c :: text ++ ending (c :: text)) (List.cons_ne_nil c text) hbreaks rfl ⟨c, _, rfl, hbreak⟩
      hbody hcolumn (by omega) (length_le_rest (c :: text ++ ending (c :: text)))
  rw [ReadsLines, hgiven, literalBody_true (by simpa using hbreak) (by simp), List.append_assoc,
    readEmptyLines_blanks indent (by simp) (by simp [literalBody, hbreak])
      (.inl (by simpa [literalBody, hbreak] using hgap))]
  refine ⟨_, _, _, r', m', by omega, hcolumn', rfl, ?_, hread, hchomped⟩
  simp only [hm, Option.getD_none]
  omega

theorem readsLines {level : Nat} (hne : text ≠ []) (hbreaks : PlainBreaks text)
    (htab : ∀ c ∈ text.head?, c ≠ '\t') (hbody : Solid body) (hcolumn : column < indent)
    (hlevel : 0 < level ∧ level + 1 = indent) (hm : m.column = 0) :
    ReadsLines level indent column text body m := by
  cases hhint : text.head?.any fun c => isSpace c || isBreak c with
  | true =>
    have hgiven : givenFor level text = some indent := by
      simp only [givenFor, hintFor, hhint, if_true, Option.map_some, Option.some.injEq]
      omega
    exact readsLines_given hne hbreaks hgiven hbody hcolumn hm
  | false =>
    have hgiven : givenFor level text = none := by simp [givenFor, hintFor, hhint]
    obtain ⟨c, more, rfl⟩ := List.exists_cons_of_ne_nil hne
    simp only [List.head?_cons, Option.any_some, Bool.or_eq_false_iff, isSpace,
      decide_eq_false_iff_not] at hhint
    have hgap : isGap c = false := isGap_eq_false ⟨hhint.1, htab c rfl⟩
    exact readsLines_shown hgiven hbreaks ⟨hgap, hhint.2⟩ hbody hcolumn hlevel hm

theorem readBlock_literal {level : Nat} (hne : text ≠ []) (hbreaks : PlainBreaks text)
    (htab : ∀ c ∈ text.head?, c ≠ '\t') (hbody : Solid body) (hcolumn : column < indent)
    (hlevel : 0 < level ∧ level + 1 = indent) :
    ∃ m', m.line < m'.line ∧ m'.column = column ∧
      readBlock false level ⟨indicatorsFor text ++ '\n' ::
          (literalBody indent true (text ++ ending text) ++ (blanks column ++ body)), m⟩ =
        .ok (text, ⟨body, m'⟩) := by
  let m₁ := m.skip (indicatorsFor text)
  let lines := literalBody indent true (text ++ ending text) ++ (blanks column ++ body)
  have hm₁ : m₁.line = m.line := (m.skip_spec (indicatorsFor text)).2.1
  obtain ⟨empty, deepest, c, r', m', hm', hcolumn', hempty, hindent, hread, hchomped⟩ :=
    @readsLines text body indent column (m₁.nextLine 1) level hne hbreaks htab hbody hcolumn
      hlevel rfl
  refine ⟨m', by simp only [Mark.nextLine] at hm'; omega, hcolumn', ?_⟩
  rw [readBlock, readHeader_indicatorsFor]
  -- no comment follows the header, and the lines begin behind its line feed
  change (readEmptyLines (givenFor level text) 0 [] (m₁.nextLine 1) lines >>=
    fun (empty, deepest, c) =>
      readLines false ((givenFor level text).getD (max (max deepest level) 1)) (c.rest.length + 1)
        { empty } c >>= fun read => pure ((read.1.chomped (chompingFor text)).reverse, read.2)) = _
  rw [hempty]
  change (readLines false ((givenFor level text).getD (max (max deepest level) 1))
    (c.rest.length + 1) { empty } c >>= fun read =>
      pure ((read.1.chomped (chompingFor text)).reverse, read.2)) = _
  rw [hindent, hread]
  change Except.ok ((r'.chomped (chompingFor text)).reverse, (⟨body, m'⟩ : Cursor)) = _
  rw [hchomped, List.reverse_reverse]

end LegacyAudit.Yaml
