import LegacyAudit.Analyzer.Basic
import LegacyAudit.Proofs.Json.Words

/-!
# Keywords in the text of a record

Keywords are looked for in the lower-case JSON text of a whole record, but they are about the names,
parameters and imports in it. A keyword that one of these texts contains is always seen. One that is
seen need not be there: a control character in front of the rest of the keyword looks like it once
it has been escaped. Keys, tags and numbers look like no keyword that has nothing of them in it.

## Main definitions

- `FeatureRecord.texts`, `FeatureRecord.Mentions` - the texts of a record and what they contain
- `Searchable` - a keyword that no escape can break up
- `Searchable.contains_signalText` - every such keyword that is mentioned is seen
- `Foreign` - a word that occurs in no key, tag or number of a record
- `contains_signalText_iff_forms` - what is behind such a keyword when it is seen
-/

namespace LegacyAudit

open LegacyAudit.Text LegacyAudit.Json

namespace FeatureRecord

/-- The texts of a record that are taken from the source. -/
def texts (record : FeatureRecord) : List String :=
  record.functions.flatMap (fun f => f.name :: f.parameters) ++ record.classes.map (·.name) ++
    record.imports

/-- Some text of the record contains the keyword, whatever the case. -/
def Mentions (record : FeatureRecord) (keyword : String) : Prop :=
  ∃ text ∈ record.texts, mentions keyword text = true

/-- Some text of the record contains one of the keywords. -/
def MentionsOneOf (record : FeatureRecord) (keywords : List String) : Prop :=
  ∃ keyword ∈ keywords, record.Mentions keyword

instance (record : FeatureRecord) (keyword : String) : Decidable (record.Mentions keyword) :=
  inferInstanceAs (Decidable (∃ text ∈ record.texts, _))

instance (record : FeatureRecord) (keywords : List String) :
    Decidable (record.MentionsOneOf keywords) :=
  inferInstanceAs (Decidable (∃ keyword ∈ keywords, _))

/-- A function or class of the record mentions the keyword. -/
def Declares (record : FeatureRecord) (keyword : String) : Prop :=
  (∃ f ∈ record.functions, f.mentions keyword = true) ∨
    ∃ c ∈ record.classes, c.mentions keyword = true

end FeatureRecord

/-- The keyword is not empty and consists of printable ASCII characters that are never escaped. -/
def Searchable (keyword : String) : Prop :=
  keyword ≠ "" ∧ ∀ c ∈ keyword.toList, IsPlain c

instance (keyword : String) : Decidable (Searchable keyword) :=
  letI := List.decidableBAll IsPlain keyword.toList
  inferInstanceAs (Decidable (_ ∧ _))

/-- The keys and tags in the text of a record. -/
def frameWords : List String :=
  ["language", "functions", "classes", "imports", "complexity", "lines_of_code", "name", "type",
    "parameters", "start_line", "end_line"] ++
    Language.byName.map (·.1) ++ DeclarationKind.byName.map (·.1)

/-- The text of a record can show the word in its texts only. -/
structure Foreign (w : List Char) : Prop where
  plain : ∀ c ∈ w, IsPlain c
  small : ∀ c ∈ w, c.toLower = c
  unmarked : ∀ c ∈ w, ¬IsPunctuation c
  not_number : ∃ c ∈ w, c.isDigit = false
  not_frame : ∀ word ∈ frameWords, ¬Shows w (escaped word)

-- The characters of a word are looked at one by one, not among all characters.
instance (w : List Char) : Decidable (Foreign w) :=
  letI := List.decidableBAll IsPlain w
  letI : Decidable (∀ c ∈ w, c.toLower = c) := List.decidableBAll _ w
  letI : Decidable (∀ c ∈ w, ¬IsPunctuation c) := List.decidableBAll _ w
  letI : Decidable (∃ c ∈ w, c.isDigit = false) := List.decidableBEx _ w
  decidable_of_iff ((∀ c ∈ w, IsPlain c) ∧ (∀ c ∈ w, c.toLower = c) ∧ (∀ c ∈ w, ¬IsPunctuation c) ∧
      (∃ c ∈ w, c.isDigit = false) ∧ ∀ word ∈ frameWords, ¬Shows w (escaped word))
    ⟨fun ⟨h₁, h₂, h₃, h₄, h₅⟩ => ⟨h₁, h₂, h₃, h₄, h₅⟩,
      fun ⟨h₁, h₂, h₃, h₄, h₅⟩ => ⟨h₁, h₂, h₃, h₄, h₅⟩⟩

/-- What a text can hold for the keyword to be seen: the keyword, or one of its disguises. -/
def forms (keyword : String) : List String :=
  keyword :: (disguises keyword.toList).map String.ofList

/-- A token that is a key, a tag or a number. -/
def IsFrame (t : List Char) : Prop :=
  (∃ word ∈ frameWords, t = escaped word) ∨ ∃ n, t = decimalChars n

/-- Apart from keys, tags and numbers the value holds none but the given texts. -/
def Covers (texts : List String) (v : Json) : Prop :=
  ∀ t ∈ v.tokens, IsFrame t ∨ ∃ text ∈ texts, t = escaped text

namespace Covers

variable {texts : List String}

theorem nat (n : Nat) : Covers texts (.nat n) := by
  intro t ht
  exact Or.inl (Or.inr ⟨n, mem_tokens_nat.mp ht⟩)

theorem tag {word : String} (h : word ∈ frameWords) : Covers texts (.string word) := by
  intro t ht
  exact Or.inl (Or.inl ⟨word, h, mem_tokens_string.mp ht⟩)

theorem string {text : String} (h : text ∈ texts) : Covers texts (.string text) := by
  intro t ht
  exact Or.inr ⟨text, h, mem_tokens_string.mp ht⟩

theorem strings {items : List String} (h : items ⊆ texts) : Covers texts (.strings items) := by
  intro t ht
  obtain ⟨text, htext, rfl⟩ := mem_tokens_strings.mp ht
  exact Or.inr ⟨text, h htext, rfl⟩

theorem array {items : List Json} (h : ∀ v ∈ items, Covers texts v) :
    Covers texts (.array items) := by
  intro t ht
  obtain ⟨v, hv, htv⟩ := mem_tokens_array.mp ht
  exact h v hv t htv

theorem object {members : List (String × Json)} (hkeys : members.map (·.1) ⊆ frameWords)
    (hvalues : ∀ m ∈ members, Covers texts m.2) : Covers texts (.object members) := by
  intro t ht
  obtain ⟨m, hm, rfl | htv⟩ := mem_tokens_object.mp ht
  · exact Or.inl (Or.inl ⟨m.1, hkeys (List.mem_map_of_mem hm), rfl⟩)
  · exact hvalues m hm t htv

theorem mono {texts' : List String} {v : Json} (h : Covers texts v) (hsub : texts ⊆ texts') :
    Covers texts' v := by
  intro t ht
  rcases h t ht with hframe | ⟨text, htext, rfl⟩
  · exact Or.inl hframe
  · exact Or.inr ⟨text, hsub htext, rfl⟩

end Covers

theorem DeclarationKind.name_mem_frameWords (kind : DeclarationKind) : kind.name ∈ frameWords := by
  cases kind <;> decide

theorem Language.name_mem_frameWords (language : Language) : language.name ∈ frameWords := by
  cases language <;> decide

theorem FunctionFacts.covers_toJson (f : FunctionFacts) :
    Covers (f.name :: f.parameters) f.toJson := by
  refine .object (by change ["name", "type", "parameters", "start_line", "end_line"] ⊆ _; decide) ?_
  simp only [List.forall_mem_cons]
  exact ⟨.string List.mem_cons_self, .tag f.kind.name_mem_frameWords,
    .strings (List.subset_cons_self _ _), .nat _, .nat _, by simp⟩

theorem ClassFacts.covers_toJson (c : ClassFacts) : Covers [c.name] c.toJson := by
  refine .object (by change ["name", "type", "start_line", "end_line"] ⊆ _; decide) ?_
  simp only [List.forall_mem_cons]
  exact ⟨.string List.mem_cons_self, .tag c.kind.name_mem_frameWords, .nat _, .nat _, by simp⟩

theorem FunctionFacts.escaped_mem_tokens {f : FunctionFacts} {text : String}
    (h : text ∈ f.name :: f.parameters) : escaped text ∈ f.toJson.tokens := by
  rcases List.mem_cons.mp h with rfl | hparameter
  · exact mem_tokens_object.mpr ⟨("name", _), by simp, Or.inr (mem_tokens_string.mpr rfl)⟩
  · refine mem_tokens_object.mpr ⟨("parameters", .strings f.parameters), by simp, Or.inr ?_⟩
    exact mem_tokens_strings.mpr ⟨text, hparameter, rfl⟩

theorem ClassFacts.escaped_mem_tokens (c : ClassFacts) : escaped c.name ∈ c.toJson.tokens :=
  mem_tokens_object.mpr ⟨("name", _), by simp, Or.inr (mem_tokens_string.mpr rfl)⟩

namespace FeatureRecord

variable {record : FeatureRecord}

theorem mentionsOneOf_cons {keyword : String} {keywords : List String} :
    record.MentionsOneOf (keyword :: keywords) ↔
      record.Mentions keyword ∨ record.MentionsOneOf keywords :=
  List.exists_mem_cons_iff _ _ _

theorem mentionsOneOf_singleton {keyword : String} :
    record.MentionsOneOf [keyword] ↔ record.Mentions keyword := by
  simp [MentionsOneOf]

theorem mem_texts_of_function {f : FunctionFacts} (hf : f ∈ record.functions) {text : String}
    (h : text ∈ f.name :: f.parameters) : text ∈ record.texts :=
  List.mem_append_left _ (List.mem_append_left _ (List.mem_flatMap.mpr ⟨f, hf, h⟩))

theorem mem_texts_of_class {c : ClassFacts} (hc : c ∈ record.classes) : c.name ∈ record.texts :=
  List.mem_append_left _ (List.mem_append_right _ (List.mem_map_of_mem hc))

theorem covers_toJson (h : record.parseError = none) : Covers record.texts record.toJson := by
  rw [toJson, h, Json.optional, List.append_nil]
  refine .object ?_ ?_
  · change ["language", "functions", "classes", "imports", "complexity", "lines_of_code"] ⊆ _
    decide
  simp only [List.forall_mem_cons]
  refine ⟨.tag record.language.name_mem_frameWords, .array ?_, .array ?_, .strings ?_, .nat _,
    .nat _, by simp⟩
  · simp only [List.forall_mem_map]
    intro f hf
    exact f.covers_toJson.mono fun text htext => mem_texts_of_function hf htext
  · simp only [List.forall_mem_map]
    intro c hc
    exact c.covers_toJson.mono (by simpa using mem_texts_of_class hc)
  · exact List.subset_append_right _ _

theorem escaped_mem_tokens {text : String} (h : text ∈ record.texts) :
    escaped text ∈ record.toJson.tokens := by
  have hmember : ∀ key value, (key, value) ∈ [("functions",
      Json.array (record.functions.map FunctionFacts.toJson)), ("classes",
      .array (record.classes.map ClassFacts.toJson)), ("imports", .strings record.imports)] →
      escaped text ∈ tokens value → escaped text ∈ record.toJson.tokens := by
    intro key value hmem hvalue
    refine mem_tokens_object.mpr ⟨(key, value), List.mem_append_left _ ?_, Or.inr hvalue⟩
    simp only [List.mem_cons, List.not_mem_nil, or_false] at hmem ⊢
    tauto
  rcases List.mem_append.mp h with h | himport
  · rcases List.mem_append.mp h with hfunction | hclass
    · obtain ⟨f, hf, htext⟩ := List.mem_flatMap.mp hfunction
      refine hmember "functions" (.array (record.functions.map FunctionFacts.toJson)) (by simp) ?_
      exact mem_tokens_array.mpr
        ⟨f.toJson, List.mem_map_of_mem hf, FunctionFacts.escaped_mem_tokens htext⟩
    · obtain ⟨c, hc, rfl⟩ := List.mem_map.mp hclass
      refine hmember "classes" (.array (record.classes.map ClassFacts.toJson)) (by simp) ?_
      exact mem_tokens_array.mpr ⟨c.toJson, List.mem_map_of_mem hc, c.escaped_mem_tokens⟩
  · exact hmember "imports" _ (by simp) (mem_tokens_strings.mpr ⟨text, himport, rfl⟩)

theorem Declares.mentions {keyword : String} (h : record.Declares keyword) :
    record.Mentions keyword := by
  rcases h with ⟨f, hf, hmention⟩ | ⟨c, hc, hmention⟩
  · have htext : ∃ text ∈ f.name :: f.parameters, LegacyAudit.mentions keyword text = true := by
      simpa [FunctionFacts.mentions] using hmention
    obtain ⟨text, htext, hmention⟩ := htext
    exact ⟨text, mem_texts_of_function hf htext, hmention⟩
  · exact ⟨c.name, mem_texts_of_class hc, hmention⟩

/-- Findings stand elsewhere than on the first line only if a declaration mentions the keyword. -/
theorem declares_of_locate_ne {keyword : String} (h : locate record keyword ≠ .line 1) :
    record.Declares keyword := by
  unfold locate at h
  split at h
  · next f hf => exact Or.inl ⟨f, List.mem_of_find?_eq_some hf, List.find?_some hf⟩
  · split at h
    · next c hc => exact Or.inr ⟨c, List.mem_of_find?_eq_some hc, List.find?_some hc⟩
    · exact absurd rfl h

end FeatureRecord

section Keywords

variable {w : List Char} {keyword : String} {record : FeatureRecord}

theorem Foreign.ne_nil (hw : Foreign w) : w ≠ [] := by
  obtain ⟨c, hc, _⟩ := hw.not_number
  exact List.ne_nil_of_mem hc

theorem lowerChar_of_isDigit {c : Char} (h : c.isDigit = true) : lowerChar c = [c] := by
  have hlt : c.toNat < 0x80 := by
    simp only [Char.isDigit, Bool.and_eq_true, decide_eq_true_eq, UInt32.le_iff_toNat_le] at h
    exact Nat.lt_of_le_of_lt h.2 (by decide)
  exact of_forall_ascii (P := fun c => c.isDigit = true → lowerChar c = [c]) (by decide +kernel)
    hlt h

theorem Foreign.not_shows (hw : Foreign w) {t : List Char} (ht : IsFrame t) : ¬Shows w t := by
  rcases ht with ⟨word, hword, rfl⟩ | ⟨n, rfl⟩
  · exact hw.not_frame word hword
  · intro h
    obtain ⟨c, hc, hdigit⟩ := hw.not_number
    obtain ⟨d, hd, hcd⟩ := List.mem_flatMap.mp (h.subset hc)
    have hd := isDigit_of_mem_decimalChars d hd
    rw [lowerChar_of_isDigit hd, List.mem_singleton] at hcd
    rw [hcd, hd] at hdigit
    cases hdigit

/-- Words that belong to no frame are shown by the texts of a record, as they are or in disguise. -/
theorem shows_toJson_iff (hw : Foreign w) (h : record.parseError = none) :
    Shows w (compactChars record.toJson) ↔
      ∃ text ∈ record.texts, Shows w text.toList ∨ ∃ d ∈ disguises w, Shows d text.toList := by
  rw [(punctuated_compactChars _).shows_iff hw.unmarked hw.ne_nil]
  constructor
  · rintro ⟨t, ht, hshows⟩
    rcases record.covers_toJson h t ht with hframe | ⟨text, htext, rfl⟩
    · exact absurd hshows (hw.not_shows hframe)
    · exact ⟨text, htext, (shows_escaped_iff hw.plain hw.ne_nil).mp hshows⟩
  · rintro ⟨text, htext, hshows⟩
    exact ⟨_, record.escaped_mem_tokens htext,
      (shows_escaped_iff hw.plain hw.ne_nil).mpr hshows⟩

/-- Plain words that a text shows are shown by the record, whatever they are. -/
theorem shows_toJson_of_mem (hw : ∀ c ∈ w, IsPlain c) (hne : w ≠ []) {text : String}
    (htext : text ∈ record.texts) (h : Shows w text.toList) :
    Shows w (compactChars record.toJson) := by
  have hescaped : Shows w (escaped text) := (shows_escaped_iff hw hne).mpr (Or.inl h)
  exact hescaped.of_infix
    ((punctuated_compactChars _).infix_of_mem _ (record.escaped_mem_tokens htext))

theorem contains_signalText_iff (h : ∀ c ∈ keyword.toList, c.toNat < 0x80) :
    contains record.signalText keyword = true ↔
      Shows keyword.toList (compactChars record.toJson) := by
  rw [FeatureRecord.signalText, contains_lower_iff h, compact, String.toList_ofList]

theorem toList_lower_of_ascii (h : ∀ c ∈ keyword.toList, c.toNat < 0x80) :
    (lower keyword).toList = keyword.toList.map Char.toLower := by
  rw [lower, String.toList_ofList, lowerChars_of_ascii h]

theorem Searchable.lower (h : Searchable keyword) : Searchable (lower keyword) := by
  have hlower := toList_lower_of_ascii fun c hc => (h.2 c hc).ascii
  constructor
  · rw [ne_eq, ← String.toList_eq_nil_iff, hlower, List.map_eq_nil_iff, String.toList_eq_nil_iff]
    exact h.1
  · rw [hlower, List.forall_mem_map]
    exact fun c hc => (h.2 c hc).toLower

/-- A keyword that is mentioned stands in the searchable text of the record. -/
theorem Searchable.contains_signalText (h : Searchable keyword)
    (hmentions : record.Mentions keyword) :
    contains record.signalText (Text.lower keyword) = true := by
  obtain ⟨hne, hplain⟩ := h.lower
  have hascii : ∀ c ∈ (Text.lower keyword).toList, c.toNat < 0x80 := fun c hc => (hplain c hc).ascii
  obtain ⟨text, htext, hmention⟩ := hmentions
  rw [contains_signalText_iff hascii]
  refine shows_toJson_of_mem hplain ?_ htext ((contains_lower_iff hascii).mp hmention)
  rwa [ne_eq, String.toList_eq_nil_iff]

theorem lower_of_small (hascii : ∀ c ∈ keyword.toList, c.toNat < 0x80)
    (hsmall : ∀ c ∈ keyword.toList, c.toLower = c) : lower keyword = keyword := by
  rw [← String.toList_inj, toList_lower_of_ascii hascii, List.map_congr_left hsmall, List.map_id']

theorem mentions_iff_of_small {text : String} (hascii : ∀ c ∈ keyword.toList, c.toNat < 0x80)
    (hsmall : ∀ c ∈ keyword.toList, c.toLower = c) :
    mentions keyword text = true ↔ Shows keyword.toList text.toList := by
  rw [mentions, lower_of_small hascii hsmall, contains_lower_iff hascii]

theorem Foreign.mentions_disguise_iff (hw : Foreign w) {d : List Char} (hd : d ∈ disguises w)
    {text : String} : mentions (String.ofList d) text = true ↔ Shows d text.toList := by
  have hchars : ∀ c ∈ (String.ofList d).toList, c.toNat < 0x80 ∧ c.toLower = c := by
    intro c hc
    rw [String.toList_ofList] at hc
    rcases of_mem_disguise hd hc with hcontrol | hword
    · exact of_forall_ascii (P := fun c => c.toNat < 0x20 → c.toNat < 0x80 ∧ c.toLower = c)
        (by decide +kernel) (by omega) hcontrol
    · exact ⟨(hw.plain c hword).ascii, hw.small c hword⟩
  rw [mentions_iff_of_small (fun c hc => (hchars c hc).1) (fun c hc => (hchars c hc).2),
    String.toList_ofList]

/-- A keyword that belongs to no frame is seen iff some text holds one of its forms. -/
theorem contains_signalText_iff_forms (hw : Foreign keyword.toList) (h : record.parseError = none) :
    contains record.signalText (lower keyword) = true ↔ record.MentionsOneOf (forms keyword) := by
  have hascii : ∀ c ∈ keyword.toList, c.toNat < 0x80 := fun c hc => (hw.plain c hc).ascii
  rw [lower_of_small hascii hw.small, contains_signalText_iff hascii, shows_toJson_iff hw h]
  constructor
  · rintro ⟨text, htext, hshows | ⟨d, hd, hshows⟩⟩
    · exact ⟨keyword, List.mem_cons_self, text, htext,
        (mentions_iff_of_small hascii hw.small).mpr hshows⟩
    · exact ⟨_, List.mem_cons_of_mem _ (List.mem_map_of_mem hd), text, htext,
        (hw.mentions_disguise_iff hd).mpr hshows⟩
  · rintro ⟨form, hmem, text, htext, hmention⟩
    refine ⟨text, htext, ?_⟩
    rcases List.mem_cons.mp hmem with rfl | hdisguise
    · exact Or.inl ((mentions_iff_of_small hascii hw.small).mp hmention)
    · obtain ⟨d, hd, rfl⟩ := List.mem_map.mp hdisguise
      exact Or.inr ⟨d, hd, (hw.mentions_disguise_iff hd).mp hmention⟩

end Keywords

end LegacyAudit
