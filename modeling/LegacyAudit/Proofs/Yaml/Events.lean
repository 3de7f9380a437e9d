import LegacyAudit.Proofs.Yaml.Documents
import LegacyAudit.Yaml.Event

/-!
# The events of a document

The machine reads the tokens of a value in front of whatever follows, makes the events of the value,
and returns to what it was to expect later.

## Main definitions

- `Content.events` - the events of a value
- `EventReader.Move`, `EventReader.Reaches` - moves that make the state lighter
- `EventReader.ReadsNode` - a node is read
- `Event.ofTokens_tokens` - the events of a document
-/

namespace LegacyAudit.Yaml

open Text

namespace Content

mutual

def events : Content → List Event
  | .text value => [.scalar none none (styleFor value) value.toList]
  | .number value => [.scalar none none .plain (decimalChars value)]
  | .list items => .sequenceStart none none :: itemEvents items ++ [.sequenceEnd]
  | .record members => .mappingStart none none :: memberEvents members ++ [.mappingEnd]

def itemEvents : List Content → List Event
  | [] => []
  | item :: rest => item.events ++ itemEvents rest

def memberEvents : List (String × Content) → List Event
  | [] => []
  | (key, value) :: rest =>
    .scalar none none .plain key.toList :: value.events ++ memberEvents rest

end

end Content

open Content

namespace EventReader

/-- Tokens weigh twice as much as expectations, since a token may be put off by an expectation. -/
def weight (r : EventReader) : Nat :=
  2 * r.tokens.length + r.later.length

structure Move (r r' : EventReader) : Prop where
  unfinished : r.expected ≠ .nothing
  step : r.step = .ok r'
  lighter : r'.weight < r.weight

abbrev Reaches : EventReader → EventReader → Prop :=
  Relation.ReflTransGen Move

theorem run_succ {r r' : EventReader} {fuel : Nat} (hunfinished : r.expected ≠ .nothing)
    (hstep : r.step = .ok r') : run (fuel + 1) r = run fuel r' := by
  rw [run, if_neg hunfinished, hstep]
  rfl

theorem run_of_reaches {r r' : EventReader} (h : Reaches r r') {fuel : Nat}
    (hfuel : r.weight < fuel) : ∃ fuel', r'.weight < fuel' ∧ run fuel r = run fuel' r' :=
  @exists_fuel_of_reaches _ _ _ weight _
    (fun hmove => ⟨hmove.lighter, fun _ => run_succ hmove.unfinished hmove.step⟩) _ _ h _ hfuel

/-- A state inside of a document without directives. -/
def inside (tokens : List Token) (expected : Expected) (later : List Expected)
    (events : List Event) : EventReader :=
  { tokens, expected, later, handles := defaultHandles, events }

@[simp] theorem weight_inside (tokens : List Token) (expected : Expected) (later : List Expected)
    (events : List Event) :
    (inside tokens expected later events).weight = 2 * tokens.length + later.length := rfl

variable {block level : Bool} {read rest : List Token} {made events : List Event}
  {expected : Expected} {later : List Expected}

/-- The tokens of a node are read in front of `rest`, and what was to be expected later comes
next. -/
def ReadsNode (block level : Bool) (read : List Token) (made : List Event) (rest : List Token) :
    Prop :=
  ∀ (now expected : Expected) (later : List Expected) (events : List Event), ∃ r,
    (inside (read ++ rest) now (expected :: later) events).readNode block level = .ok r ∧
      r.weight ≤ 2 * (read ++ rest).length + (expected :: later).length ∧
      Reaches r (inside rest expected later (made.reverse ++ events))

theorem readsNode_scalar (style : ScalarStyle) (text : List Char) :
    ReadsNode block level [.scalar style text] [.scalar none none style text] rest := by
  intro now expected later events
  refine ⟨inside rest expected later (.scalar none none style text :: events), rfl, ?_, .refl⟩
  simp only [weight_inside, List.length_append, List.length_cons]
  omega

theorem readsNode_brackets : ReadsNode block level [.flowSequenceStart, .flowSequenceEnd]
    [.sequenceStart none none, .sequenceEnd] rest := by
  intro now expected later events
  refine ⟨inside (.flowSequenceStart :: .flowSequenceEnd :: rest) .flowSequenceFirst
    (expected :: later) (.sequenceStart none none :: events), rfl, Nat.le_refl _, ?_⟩
  refine .single ⟨Expected.noConfusion, rfl, ?_⟩
  simp only [weight_inside, List.length_cons]
  omega

/-- The tokens of an entry are read in front of `rest`, and more entries are expected. -/
def ReadsEntry (reader : EventReader → Except Fault EventReader) (expected : Expected)
    (read : List Token) (made : List Event) (rest : List Token) : Prop :=
  ∀ (now : Expected) (later : List Expected) (events : List Event), ∃ r,
    reader (inside (read ++ rest) now later events) = .ok r ∧
      r.weight < 2 * (read ++ rest).length + later.length ∧
      Reaches r (inside rest expected later (made.reverse ++ events))

variable {reader : EventReader → Except Fault EventReader}

theorem ReadsEntry.reaches (h : ReadsEntry reader expected read made rest)
    (hexpected : expected ≠ .nothing)
    (hstep : ∀ r : EventReader, r.expected = expected → r.step = reader r) :
    Reaches (inside (read ++ rest) expected later events)
      (inside rest expected later (made.reverse ++ events)) := by
  obtain ⟨r, hread, hweight, hreaches⟩ := h expected later events
  exact .head ⟨hexpected, (hstep _ rfl).trans hread, hweight⟩ hreaches

theorem ReadsEntry.reaches_first (first : Expected) (token : Token) (later : List Expected)
    (events : List Event) (h : ReadsEntry reader expected read made rest)
    (hfirst : first ≠ .nothing)
    (hstep : ∀ r : EventReader, r.expected = first → r.step = reader r.advance) :
    Reaches (inside (token :: (read ++ rest)) first later events)
      (inside rest expected later (made.reverse ++ events)) := by
  obtain ⟨r, hread, hweight, hreaches⟩ := h first later events
  refine .head ⟨hfirst, (hstep _ rfl).trans hread, ?_⟩ hreaches
  simp only [weight_inside, List.length_cons]
  omega

theorem ReadsEntry.append {read' : List Token} {made' : List Event}
    (hexpected : expected ≠ .nothing)
    (hstep : ∀ r : EventReader, r.expected = expected → r.step = reader r)
    (h : ReadsEntry reader expected read made (read' ++ rest))
    (h' : ReadsEntry reader expected read' made' rest) :
    ReadsEntry reader expected (read ++ read') (made ++ made') rest := by
  intro now later events
  obtain ⟨r, hread, hweight, hreaches⟩ := h now later events
  rw [List.append_assoc, List.reverse_append, List.append_assoc]
  exact ⟨r, hread, hweight, hreaches.trans (h'.reaches hexpected hstep)⟩

/-- A value begins with a token that ends none, and only an item that is not indented begins with a
hyphen. -/
def Starts (indented : Bool) (read : List Token) : Prop :=
  ∃ token more, read = token :: more ∧ endsBlockValue token = false ∧
    (indented = true → token ≠ .blockEntry)

theorem starts_tokens (indented : Bool) (value : Content) :
    Starts indented (value.tokens indented) := by
  cases value with
  | list items =>
    cases items with
    | nil => exact ⟨.flowSequenceStart, _, rfl, rfl, by simp⟩
    | cons item rest =>
      cases indented
      · exact ⟨.blockEntry, _, rfl, rfl, by simp⟩
      · exact ⟨.blockSequenceStart, _, rfl, rfl, by simp⟩
  | _ => exact ⟨_, _, rfl, rfl, by simp⟩

/-- An item is read as a node behind its hyphen. -/
def ReadsItems (reader : EventReader → Except Fault EventReader) (entry : Expected) : Prop :=
  ∀ (token : Token) (more : List Token) (now : Expected) (later : List Expected)
    (events : List Event), endsBlockValue token = false → token ≠ .blockEntry →
    reader (inside (.blockEntry :: token :: more) now later events) =
      (inside (token :: more) now (entry :: later) events).readNode true false

theorem readsItems_block : ReadsItems readBlockSequenceEntry .blockSequenceEntry := by
  intro token more now later events hends hhyphen
  simp only [endsBlockValue, Bool.or_eq_false_iff, decide_eq_false_iff_not] at hends
  refine if_neg ?_
  simpa [inside, peek, advance, hends.2] using hhyphen

theorem readsItems_level : ReadsItems readLevelSequenceEntry .levelSequenceEntry := by
  intro token more now later events hends hhyphen
  refine if_neg ?_
  simpa [inside, peek, advance, hends] using hhyphen

theorem readsEntry_item (hreader : ReadsItems reader expected)
    (hnode : ReadsNode true false read made rest) (hstarts : Starts true read) :
    ReadsEntry reader expected (.blockEntry :: read) made rest := by
  intro now later events
  obtain ⟨r, hread, hweight, hreaches⟩ := hnode now expected later events
  refine ⟨r, ?_, ?_, hreaches⟩
  · obtain ⟨token, more, rfl, hends, hhyphen⟩ := hstarts
    exact (hreader token _ now later events hends (hhyphen rfl)).trans hread
  · simp only [List.cons_append, List.length_cons] at hweight ⊢
    omega

theorem readsEntry_member (key : List Char) (hnode : ReadsNode true true read made rest)
    (hstarts : Starts false read) :
    ReadsEntry readBlockMappingKey .blockMappingKey (.key :: .scalar .plain key :: .value :: read)
      (.scalar none none .plain key :: made) rest := by
  intro now later events
  obtain ⟨r, hread, hweight, hreaches⟩ :=
    hnode .blockMappingValue .blockMappingKey later (.scalar none none .plain key :: events)
  refine ⟨inside (.value :: (read ++ rest)) .blockMappingValue later
    (.scalar none none .plain key :: events), rfl, ?_, ?_⟩
  · simp only [weight_inside, List.cons_append, List.length_cons]
    omega
  · rw [List.reverse_cons, List.append_assoc]
    refine .head ⟨Expected.noConfusion, ?_, ?_⟩ hreaches
    · rw [← hread]
      obtain ⟨token, more, rfl, hends, _⟩ := hstarts
      exact if_neg (by simp [inside, peek, advance, hends])
    · simp only [weight_inside, List.length_cons] at hweight ⊢
      omega

theorem readsEntry_items (hreader : ReadsItems reader expected) (hexpected : expected ≠ .nothing)
    (hstep : ∀ r : EventReader, r.expected = expected → r.step = reader r) :
    ∀ items : List Content, items ≠ [] →
      (∀ item ∈ items, ∀ rest, ReadsNode true false (item.tokens true) item.events rest) →
      ReadsEntry reader expected (itemTokens items) (itemEvents items) rest
  | [], hne, _ => absurd rfl hne
  | [item], _, hitems => by
    have hnode := hitems item List.mem_cons_self rest
    have hitem := readsEntry_item hreader hnode (starts_tokens true item)
    simpa [itemTokens, itemEvents] using hitem
  | item :: next :: more, _, hitems => by
    have hnode := hitems item List.mem_cons_self (itemTokens (next :: more) ++ rest)
    have hitem := readsEntry_item hreader hnode (starts_tokens true item)
    have hmore := readsEntry_items hreader hexpected hstep (next :: more) (List.cons_ne_nil _ _)
      fun item hmem => hitems item (List.mem_cons_of_mem _ hmem)
    exact hitem.append hexpected hstep hmore

theorem readsNode_indented {items : List Content} (hne : items ≠ [])
    (hitems : ∀ item ∈ items, ∀ rest, ReadsNode true false (item.tokens true) item.events rest) :
    ReadsNode true false (.blockSequenceStart :: itemTokens items ++ [.blockEnd])
      (.sequenceStart none none :: itemEvents items ++ [.sequenceEnd]) rest := by
  intro now expected later events
  have hentries : ReadsEntry readBlockSequenceEntry .blockSequenceEntry (itemTokens items)
      (itemEvents items) (.blockEnd :: rest) :=
    readsEntry_items readsItems_block Expected.noConfusion (fun r hr => by rw [step, hr]) items hne
      hitems
  have hreaches := hentries.reaches_first .blockSequenceFirst .blockSequenceStart
    (expected :: later) (.sequenceStart none none :: events) Expected.noConfusion
    fun r hr => by rw [step, hr]
  have hend {events : List Event} : Move
      (inside (.blockEnd :: rest) .blockSequenceEntry (expected :: later) events)
      (inside rest expected later (.sequenceEnd :: events)) := by
    refine ⟨Expected.noConfusion, rfl, ?_⟩
    simp only [weight_inside, List.length_cons]
    omega
  simp only [List.cons_append, List.append_assoc, List.reverse_cons, List.reverse_append]
  exact ⟨_, rfl, Nat.le_refl _, hreaches.trans (.single hend)⟩

/-- The items of a sequence that is not indented, in front of anything but a hyphen. -/
theorem readsNode_level {items : List Content} (hne : items ≠ [])
    (hrest : rest.head? ≠ some .blockEntry)
    (hitems : ∀ item ∈ items, ∀ rest, ReadsNode true false (item.tokens true) item.events rest) :
    ReadsNode true true (itemTokens items)
      (.sequenceStart none none :: itemEvents items ++ [.sequenceEnd]) rest := by
  intro now expected later events
  have hentries : ReadsEntry readLevelSequenceEntry .levelSequenceEntry (itemTokens items)
      (itemEvents items) rest :=
    readsEntry_items readsItems_level Expected.noConfusion (fun r hr => by rw [step, hr]) items hne
      hitems
  have hreaches := @ReadsEntry.reaches _ _ _ (.sequenceStart none none :: events) _
    (expected :: later) _ hentries Expected.noConfusion fun r hr => by rw [step, hr]
  have hend {events : List Event} : Move
      (inside rest .levelSequenceEntry (expected :: later) events)
      (inside rest expected later (.sequenceEnd :: events)) := by
    refine ⟨Expected.noConfusion, ?_, ?_⟩
    · cases rest with
      | nil => rfl
      | cons token more =>
        cases token with
        | blockEntry => exact absurd rfl hrest
        | _ => rfl
    · simp only [weight_inside, List.length_cons]
      omega
  obtain ⟨item, more, rfl⟩ := List.exists_cons_of_ne_nil hne
  refine ⟨_, rfl, Nat.le_refl _, ?_⟩
  simp only [List.cons_append, List.append_assoc, List.reverse_cons, List.reverse_append]
    at hreaches ⊢
  exact hreaches.trans (.single hend)

theorem head_memberTokens (members : List (String × Content))
    (hrest : rest.head? ≠ some .blockEntry) :
    (memberTokens members ++ rest).head? ≠ some .blockEntry := by
  cases members with
  | nil => exact hrest
  | cons member more =>
    rw [memberTokens]
    simp

/-- The value of each member is read in front of anything but a hyphen. -/
def ReadsValues (members : List (String × Content)) : Prop :=
  ∀ member ∈ members, ∀ rest, rest.head? ≠ some Token.blockEntry →
    ReadsNode true true (member.2.tokens false) member.2.events rest

theorem readsEntry_members (hrest : rest.head? ≠ some .blockEntry) :
    ∀ members : List (String × Content), members ≠ [] → ReadsValues members →
      ReadsEntry readBlockMappingKey .blockMappingKey (memberTokens members)
        (memberEvents members) rest
  | [], hne, _ => absurd rfl hne
  | [(key, value)], _, hmembers => by
    have hvalue := hmembers (key, value) List.mem_cons_self rest hrest
    have hmember := readsEntry_member key.toList hvalue (starts_tokens false value)
    simpa [memberTokens, memberEvents] using hmember
  | (key, value) :: next :: more, _, hmembers => by
    have hvalue := hmembers (key, value) List.mem_cons_self _
      (head_memberTokens (next :: more) hrest)
    have hmember := readsEntry_member key.toList hvalue (starts_tokens false value)
    have hmore := readsEntry_members hrest (next :: more) (List.cons_ne_nil _ _)
      fun member hmem => hmembers member (List.mem_cons_of_mem _ hmem)
    exact hmember.append Expected.noConfusion (fun r hr => by rw [step, hr]) hmore

theorem readsNode_mapping {members : List (String × Content)} (hne : members ≠ [])
    (hmembers : ReadsValues members) :
    ReadsNode true level (.blockMappingStart :: memberTokens members ++ [.blockEnd])
      (.mappingStart none none :: memberEvents members ++ [.mappingEnd]) rest := by
  intro now expected later events
  have hentries : ReadsEntry readBlockMappingKey .blockMappingKey (memberTokens members)
      (memberEvents members) (.blockEnd :: rest) :=
    readsEntry_members (by simp) members hne hmembers
  have hreaches := hentries.reaches_first .blockMappingFirst .blockMappingStart
    (expected :: later) (.mappingStart none none :: events) Expected.noConfusion
    fun r hr => by rw [step, hr]
  have hend {events : List Event} : Move
      (inside (.blockEnd :: rest) .blockMappingKey (expected :: later) events)
      (inside rest expected later (.mappingEnd :: events)) := by
    refine ⟨Expected.noConfusion, rfl, ?_⟩
    simp only [weight_inside, List.length_cons]
    omega
  simp only [List.cons_append, List.append_assoc, List.reverse_cons, List.reverse_append]
  refine ⟨_, ?_, Nat.le_refl _, hreaches.trans (.single hend)⟩
  cases level <;> rfl

mutual

/-- Behind a key the tokens of a value are a node, in front of anything but a hyphen. -/
theorem readsNode_value : ∀ value : Content, value.Regular → ∀ rest,
    rest.head? ≠ some Token.blockEntry →
    ReadsNode true true (value.tokens false) value.events rest
  | .text value, _, _, _ => readsNode_scalar (styleFor value) value.toList
  | .number value, _, _, _ => readsNode_scalar .plain (decimalChars value)
  | .list [], _, _, _ => readsNode_brackets
  | .list (item :: more), hregular, _, hrest =>
    readsNode_level (List.cons_ne_nil item more) hrest
      (readsNode_items (item :: more) hregular)
  | .record members, hregular, _, _ =>
    readsNode_mapping hregular.1 (readsNode_members members hregular.2)

theorem readsNode_item : ∀ value : Content, value.Regular → ∀ rest,
    ReadsNode true false (value.tokens true) value.events rest
  | .text value, _, _ => readsNode_scalar (styleFor value) value.toList
  | .number value, _, _ => readsNode_scalar .plain (decimalChars value)
  | .list [], _, _ => readsNode_brackets
  | .list (item :: more), hregular, _ =>
    readsNode_indented (List.cons_ne_nil item more) (readsNode_items (item :: more) hregular)
  | .record members, hregular, _ =>
    readsNode_mapping hregular.1 (readsNode_members members hregular.2)

theorem readsNode_items : ∀ items : List Content, RegularItems items → ∀ item ∈ items, ∀ rest,
    ReadsNode true false (item.tokens true) item.events rest
  | [], _, _, hmem, _ => absurd hmem List.not_mem_nil
  | first :: more, hregular, item, hmem, rest => by
    rcases List.mem_cons.mp hmem with heq | hmem
    · rw [heq]
      exact readsNode_item first hregular.1 rest
    · exact readsNode_items more hregular.2 item hmem rest

theorem readsNode_members : ∀ members : List (String × Content), RegularMembers members →
    ReadsValues members
  | [], _, _, hmem, _, _ => absurd hmem List.not_mem_nil
  | (key, value) :: more, hregular, member, hmem, rest, hrest => by
    rcases List.mem_cons.mp hmem with heq | hmem
    · rw [heq]
      exact readsNode_value value hregular.2.1 rest hrest
    · exact readsNode_members more hregular.2.2 member hmem rest hrest

end

end EventReader

open EventReader

theorem Event.ofTokens_tokens {members : List (String × Content)}
    (hregular : (Content.record members).Regular) :
    Event.ofTokens ((Content.record members).tokens false ++ [.streamEnd]) =
      .ok (.documentStart :: (Content.record members).events ++ [.documentEnd]) := by
  let read := (Content.record members).tokens false
  let made := (Content.record members).events
  have hnode : ReadsNode true false read made [.streamEnd] :=
    readsNode_mapping hregular.1 (readsNode_members members hregular.2)
  obtain ⟨r, hread, hweight, hreaches⟩ := hnode .blockNode .documentEnd [] [.documentStart]
  let tokens := read ++ [Token.streamEnd]
  -- the document and its first node are expected before any token is taken
  have hstart (fuel : Nat) : run (fuel + 2) { tokens } = run fuel r := by
    have hdocument : ({ tokens } : EventReader).step =
        .ok (inside tokens .blockNode [.documentEnd] [.documentStart]) := rfl
    exact (run_succ Expected.noConfusion hdocument).trans (run_succ Expected.noConfusion hread)
  change r.weight ≤ 2 * tokens.length + 1 at hweight
  obtain ⟨fuel, hfuel, hrun⟩ := @run_of_reaches _ _ hreaches (8 * tokens.length + 14) (by omega)
  rw [weight_inside, List.length_singleton, List.length_nil] at hfuel
  obtain ⟨fuel, rfl⟩ : ∃ f, fuel = f + 3 := ⟨fuel - 3, by omega⟩
  have hend (events : List Event) : run (fuel + 3) (inside [.streamEnd] .documentEnd [] events) =
      .ok (inside [] .nothing [] (.documentEnd :: events)) := rfl
  rw [hend] at hrun
  change (run (8 * tokens.length + 14 + 2) { tokens } >>= _) = _
  rw [hstart, hrun]
  simp [inside, made, pure, Except.pure, bind, Except.bind]

end LegacyAudit.Yaml
