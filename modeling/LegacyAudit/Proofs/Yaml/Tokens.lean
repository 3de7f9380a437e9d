import LegacyAudit.Proofs.Yaml.Lexemes

/-!
# The tokens of what is written

Items and members that stand one below the other are one block, and a block is read piece by piece.
So the tokens of a document follow the tree that it was written from.

## Main definitions

- `Content.Regular` - records have members, and keys are names
- `Content.tokens` - the tokens of a value
- `TokenReader.Block` - a block is read
- `TokenReader.blocks_items`, `TokenReader.blocks_members` - items and members are blocks
-/

namespace LegacyAudit.Yaml

open Text

structure RegularKey (key : String) : Prop where
  nonempty : key.toList ≠ []
  chars : ∀ c ∈ key.toList, isKeyChar c = true
  short : key.toList.length ≤ 256

def isRegularKey (key : String) : Bool :=
  !key.toList.isEmpty && key.toList.all isKeyChar && decide (key.toList.length ≤ 256)

theorem regularKey_of_isRegularKey {key : String} (h : isRegularKey key = true) :
    RegularKey key := by
  simp only [isRegularKey, Bool.and_eq_true, Bool.not_eq_true', List.isEmpty_eq_false_iff,
    List.all_eq_true, decide_eq_true_eq] at h
  exact ⟨h.1.1, h.1.2, h.2⟩

namespace Content

mutual

/-- Records have members, and keys are names. -/
def Regular : Content → Prop
  | .text _ => True
  | .number _ => True
  | .list items => RegularItems items
  | .record members => members ≠ [] ∧ RegularMembers members

def RegularItems : List Content → Prop
  | [] => True
  | item :: rest => item.Regular ∧ RegularItems rest

def RegularMembers : List (String × Content) → Prop
  | [] => True
  | (key, value) :: rest => RegularKey key ∧ value.Regular ∧ RegularMembers rest

end

theorem regular_record {members : List (String × Content)} (hne : members ≠ [])
    (hkeys : (members.map (·.1)).all isRegularKey = true)
    (hvalues : ∀ value ∈ members.map (·.2), value.Regular) : (record members).Regular := by
  refine ⟨hne, ?_⟩
  clear hne
  induction members with
  | nil => trivial
  | cons member rest ih =>
    simp only [List.map_cons, List.forall_mem_cons] at hvalues
    rw [List.map_cons, List.all_cons, Bool.and_eq_true] at hkeys
    exact ⟨regularKey_of_isRegularKey hkeys.1, hvalues.1, ih hkeys.2 hvalues.2⟩

theorem regular_list {α : Type} {content : α → Content} (h : ∀ x, (content x).Regular)
    (values : List α) : (list (values.map content)).Regular := by
  change RegularItems (values.map content)
  induction values with
  | nil => trivial
  | cons x rest ih => exact ⟨h x, ih⟩

mutual

/-- The tokens of a value. Behind a key the items of a list are not indented. -/
def tokens (indented : Bool) : Content → List Token
  | .text value => [.scalar (styleFor value) value.toList]
  | .number value => [.scalar .plain (decimalChars value)]
  | .list items =>
    if items.isEmpty then [.flowSequenceStart, .flowSequenceEnd]
    else if indented then .blockSequenceStart :: itemTokens items ++ [.blockEnd]
    else itemTokens items
  | .record members => .blockMappingStart :: memberTokens members ++ [.blockEnd]

def itemTokens : List Content → List Token
  | [] => []
  | item :: rest => .blockEntry :: item.tokens true ++ itemTokens rest

def memberTokens : List (String × Content) → List Token
  | [] => []
  | (key, value) :: rest =>
    .key :: .scalar .plain key.toList :: .value :: value.tokens false ++ memberTokens rest

end

end Content

open Content

namespace TokenReader

variable {r : TokenReader} {start : Token} {column k level : Nat} {levels : List Nat} {m : Mark}
  {text text' body : List Char} {read read' done : List Token}

/-- Pieces of a block at the column are read, up to a place that is not right of the column. -/
structure Block (start : Token) (column : Nat) (text : List Char) (read : List Token) : Prop where
  nonempty : text ≠ []
  solid : Solid text
  leads : ∀ {r : TokenReader} {body : List Char} {k : Nat} {m : Mark} {done done' : List Token}
    {level : Nat} {levels levels' : List Nat}, Solid body → k ≤ column → m.column = column →
      Opens start column done level levels done' levels' →
      Arrives r ⟨text ++ (blanks k ++ body), m⟩ done level levels true →
      Leads r body k (read.reverse ++ done') (column + 1) levels'

namespace Block

theorem append (h : Block start column text read) (h' : Block start column text' read') :
    Block start column (text ++ (blanks column ++ text')) (read ++ read') where
  nonempty := List.append_ne_nil_of_left_ne_nil h.nonempty _
  solid := h.solid.append h.nonempty _
  leads := by
    intro r body k m done done' level levels levels' hbody hk hm hopens harrives
    have hsolid := h'.solid.append h'.nonempty (blanks k ++ body)
    have htext : text ++ (blanks column ++ text') ++ (blanks k ++ body) =
        text ++ (blanks column ++ (text' ++ (blanks k ++ body))) := by
      simp only [List.append_assoc]
    rw [htext] at harrives
    obtain ⟨r', m', hreaches, hm', harrives'⟩ :=
      h.leads hsolid (Nat.le_refl column) hm hopens harrives
    have hleads := h'.leads hbody hk hm' (.inside levels') harrives'
    rw [List.reverse_append, List.append_assoc]
    exact hleads.of_reaches hreaches

theorem whole (h : Block start column text read) (hbody : Solid body) (hk : k < column)
    (hm : m.column = column) (hlevel : level ≤ column)
    (harrives : Arrives r ⟨text ++ (blanks k ++ body), m⟩ done level levels true) :
    Leads r body k ((start :: read ++ [Token.blockEnd]).reverse ++ done) level levels := by
  obtain ⟨r', m', hreaches, hm', harrives'⟩ :=
    h.leads hbody (Nat.le_of_lt hk) hm (.outside levels hlevel) harrives
  have hclosed := harrives'.pop (by simp only; omega)
  refine ⟨r', m', hreaches, hm', ?_⟩
  simpa using hclosed

end Block

/-- What follows a key at the column is read. -/
def ReadsBehindKey (column : Nat) (text : List Char) (read : List Token) : Prop :=
  ∀ (body : List Char) (k : Nat) (m : Mark) (done : List Token) (levels : List Nat),
    Solid body → k ≤ column → column < m.column →
    Leads (bare ⟨text ++ (blanks k ++ body), m⟩ done (column + 1) levels false) body k
      (read.reverse ++ done) (column + 1) levels

/-- What follows a hyphen at the column is read. -/
def ReadsBehindDash (column : Nat) (text : List Char) (read : List Token) : Prop :=
  ∀ (body : List Char) (k : Nat) (m : Mark) (done : List Token) (levels : List Nat),
    Solid body → k ≤ column → m.column = column + 1 →
    Leads (bare ⟨text ++ (blanks k ++ body), m⟩ done (column + 1) levels true) body k
      (read.reverse ++ done) (column + 1) levels

theorem block_member {key : String} (hkey : RegularKey key)
    (htext : ∃ c rest, text = c :: rest ∧ endsWord (some c) = true)
    (hvalue : ReadsBehindKey column text read) :
    Block .blockMappingStart column (key.toList ++ ':' :: text)
      (.key :: .scalar .plain key.toList :: .value :: read) where
  nonempty := List.append_ne_nil_of_left_ne_nil hkey.nonempty _
  solid := by
    apply Solid.append _ hkey.nonempty
    intro c hc
    have hmem := hkey.chars c (List.mem_of_mem_head? hc)
    obtain ⟨hgap, hbreak⟩ := word_of_isKeyChar hmem
    exact ⟨hgap, hbreak, ne_of_isKeyChar hmem (by decide), ne_of_isKeyChar hmem (by decide)⟩
  leads := by
    intro r body k m done done' level levels levels' hbody hk hm hopens harrives
    rw [List.append_assoc] at harrives
    subst hm
    have hnext : endsWord (text ++ (blanks k ++ body)).head? = true := by
      obtain ⟨c, rest, rfl, hc⟩ := htext
      exact hc
    have hreaches := reaches_key hkey.nonempty hkey.chars hkey.short hnext hopens harrives
    have hcolumn : m.column < ((m.skip key.toList).next ':').column := by
      simp only [Mark.next_column, (m.skip_spec key.toList).2.2]
      omega
    have hleads := hvalue body k _ (.value :: .scalar .plain key.toList :: .key :: done') levels'
      hbody hk hcolumn
    simpa using hleads.of_reaches hreaches

theorem block_item (hvalue : ReadsBehindDash column (' ' :: text) read) :
    Block .blockSequenceStart column ('-' :: ' ' :: text) (.blockEntry :: read) where
  nonempty := List.cons_ne_nil _ _
  solid := by simp [Solid, isGap, isBreak]
  leads := by
    intro r body k m done done' level levels levels' hbody hk hm hopens harrives
    subst hm
    have hreaches := reaches_hyphen hopens harrives
    have hleads := hvalue body k (m.next '-') (.blockEntry :: done') levels' hbody hk rfl
    simpa using hleads.of_reaches hreaches

theorem Block.readsBehindDash (h : Block start (column + 2) text read) :
    ReadsBehindDash column (' ' :: text) (start :: read ++ [.blockEnd]) := by
  intro body k m done levels hbody hk hm
  have hsolid := h.solid.append h.nonempty (blanks k ++ body)
  have hcolumn : (m.next ' ').column = column + 2 := by
    rw [Mark.next_column, hm]
  exact h.whole hbody (by omega) hcolumn (by omega) (arrives_blanks hsolid 1 fades_none)

theorem Block.readsBehindKey (h : Block start (column + 2) text read) :
    ReadsBehindKey column ('\n' :: (blanks (column + 2) ++ text))
      (start :: read ++ [.blockEnd]) := by
  intro body k m done levels hbody hk hm
  have hsolid := h.solid.append h.nonempty (blanks k ++ body)
  rw [List.cons_append, List.append_assoc]
  exact h.whole hbody (by omega) (m.indented_column _) (by omega)
    (arrives_line_end hsolid (column + 2) fades_none)

/-- A sequence whose hyphens stand at the column of the key in front of it. -/
theorem Block.readsBehindKey_level (h : Block start column text read) :
    ReadsBehindKey column ('\n' :: (blanks column ++ text)) read := by
  intro body k m done levels hbody hk hm
  have hsolid := h.solid.append h.nonempty (blanks k ++ body)
  rw [List.cons_append, List.append_assoc]
  exact h.leads hbody hk (m.indented_column _) (.inside levels)
    (arrives_line_end hsolid column fades_none)

theorem afterKey_head (column : Nat) (value : Content) :
    ∃ c rest, value.afterKey column = c :: rest ∧ endsWord (some c) = true := by
  cases value with
  | text value => exact ⟨' ', _, rfl, rfl⟩
  | number value => exact ⟨' ', _, rfl, rfl⟩
  | list items =>
    rw [afterKey]
    split
    · exact ⟨' ', _, rfl, rfl⟩
    · exact ⟨'\n', _, rfl, rfl⟩
  | record members => exact ⟨'\n', _, rfl, rfl⟩

theorem afterDash_head (column : Nat) (value : Content) :
    ∃ rest, value.afterDash column = ' ' :: rest := by
  cases value with
  | list items =>
    rw [afterDash]
    split <;> exact ⟨_, rfl⟩
  | _ => exact ⟨_, rfl⟩

/-- The lines of items or members are one block. -/
def Blocks (start : Token) (column : Nat) (lines : List Char) (read : List Token) : Prop :=
  ∃ text, lines = blanks column ++ text ∧ Block start column text read

theorem Block.above {lines : List Char} (h : Block start column text read)
    (hbelow : lines = [] ∧ read' = [] ∨ Blocks start column lines read') :
    Blocks start column (blanks column ++ text ++ lines) (read ++ read') := by
  rcases hbelow with ⟨rfl, rfl⟩ | ⟨text', rfl, hblock⟩
  · rw [List.append_nil, List.append_nil]
    exact ⟨text, rfl, h⟩
  · exact ⟨_, List.append_assoc _ _ _, h.append hblock⟩

mutual

theorem readsBehindKey (column : Nat) : ∀ value : Content, value.Regular →
    ReadsBehindKey column (value.afterKey column) (value.tokens false)
  | .text value, _ => fun _ _ _ _ _ hbody hk hm => leads_scalar value hbody hk hm
  | .number value, _ => by
    intro body k m done levels hbody hk hm
    have hleads := @leads_number done k levels false m body column value hbody hk hm
    simpa [afterKey, Content.tokens] using hleads
  | .list [], _ => fun _ _ _ _ _ hbody _ hm => leads_brackets hbody hm
  | .list (item :: rest), hregular => by
    have hne : item :: rest ≠ [] := List.cons_ne_nil _ _
    obtain ⟨text, hlines, hblock⟩ := blocks_items column (item :: rest) hregular hne
    have htext : (Content.list (item :: rest)).afterKey column =
        '\n' :: (blanks column ++ text) := by
      rw [← hlines, afterKey]
      rfl
    rw [htext]
    exact hblock.readsBehindKey_level
  | .record members, hregular => by
    obtain ⟨text, hlines, hblock⟩ := blocks_members (column + 2) members hregular.2 hregular.1
    rw [afterKey, hlines]
    exact hblock.readsBehindKey

theorem readsBehindDash (column : Nat) : ∀ value : Content, value.Regular →
    ReadsBehindDash column (value.afterDash column) (value.tokens true)
  | .text value, _ => fun _ _ _ _ _ hbody hk hm => leads_scalar value hbody hk (by omega)
  | .number value, _ => by
    intro body k m done levels hbody hk hm
    have hleads := @leads_number done k levels true m body column value hbody hk (by omega)
    simpa [afterDash, Content.tokens] using hleads
  | .list [], _ => fun _ _ _ _ _ hbody _ hm => leads_brackets hbody (by omega)
  | .list (item :: rest), hregular => by
    have hne : item :: rest ≠ [] := List.cons_ne_nil _ _
    obtain ⟨text, hlines, hblock⟩ := blocks_items (column + 2) (item :: rest) hregular hne
    have htext : (Content.list (item :: rest)).afterDash column = ' ' :: text := by
      have hdrop : (blanks (column + 2) ++ text).drop (column + 2) = text :=
        List.drop_left' List.length_replicate
      rw [← hlines] at hdrop
      rw [← hdrop, afterDash]
      rfl
    rw [htext]
    exact hblock.readsBehindDash
  | .record members, hregular => by
    obtain ⟨text, hlines, hblock⟩ := blocks_members (column + 2) members hregular.2 hregular.1
    have hdrop : (blanks (column + 2) ++ text).drop (column + 2) = text :=
      List.drop_left' List.length_replicate
    rw [afterDash, hlines, hdrop]
    exact hblock.readsBehindDash

theorem blocks_items (column : Nat) : ∀ items : List Content, RegularItems items → items ≠ [] →
    Blocks .blockSequenceStart column (itemsText column items) (itemTokens items)
  | [], _, hne => absurd rfl hne
  | item :: rest, hregular, _ => by
    obtain ⟨text, htext⟩ := afterDash_head column item
    have hvalue := readsBehindDash column item hregular.1
    rw [htext] at hvalue
    have hitem := block_item hvalue
    rw [itemsText, itemTokens, htext]
    apply hitem.above
    cases rest with
    | nil => exact .inl ⟨rfl, rfl⟩
    | cons next rest =>
      exact .inr (blocks_items column (next :: rest) hregular.2 (List.cons_ne_nil _ _))

theorem blocks_members (column : Nat) : ∀ members : List (String × Content),
    RegularMembers members → members ≠ [] →
    Blocks .blockMappingStart column (membersText column members) (memberTokens members)
  | [], _, hne => absurd rfl hne
  | (key, value) :: rest, hregular, _ => by
    have hvalue := readsBehindKey column value hregular.2.1
    have hmember := block_member hregular.1 (afterKey_head column value) hvalue
    rw [membersText, memberTokens, List.append_assoc (blanks column)]
    apply hmember.above
    cases rest with
    | nil => exact .inl ⟨rfl, rfl⟩
    | cons next rest =>
      exact .inr (blocks_members column (next :: rest) hregular.2.2 (List.cons_ne_nil _ _))

end

end TokenReader

end LegacyAudit.Yaml
