import LegacyAudit.Json.Writer
import LegacyAudit.Proofs.Text.Decimal
import LegacyAudit.Proofs.Text.Search
import LegacyAudit.Proofs.Text.Utf8
import Mathlib.Tactic.SplitIfs

/-!
# Words in JSON texts

A word that is searched for in the compact text of a value can only stand inside one of its
strings, numbers or literals, unless it has punctuation itself. Inside a string it may be split by
no escape, but an escape in front of it can take the place of its first characters.

## Main definitions

- `Json.disguises` - what looks like a word once it has been escaped
- `Json.shows_escaped_iff` - which words an escaped text shows
- `Json.tokens` - the strings, numbers and literals of a value
- `Json.Punctuated.shows_iff` - words without punctuation stand inside of tokens
-/

namespace LegacyAudit.Json

open LegacyAudit.Text

/-- A printable ASCII character that strings hold as it is. -/
def IsPlain (c : Char) : Prop :=
  0x20 ≤ c.toNat ∧ c.toNat < 0x7F ∧ c ≠ '"' ∧ c ≠ '\\'

/-- A character that strings hold as an escape. -/
def Escapes (c : Char) : Prop :=
  c = '"' ∨ c = '\\' ∨ c.toNat < 0x20

instance (c : Char) : Decidable (IsPlain c) :=
  inferInstanceAs (Decidable (_ ∧ _))

instance (c : Char) : Decidable (Escapes c) :=
  inferInstanceAs (Decidable (_ ∨ _))

/-- What looks like the word once it has been escaped: a control character whose escape ends with
the beginning of the word, in front of the rest of the word. -/
def disguises (w : List Char) : List (List Char) :=
  (List.range 0x20).flatMap fun n =>
    ((escapeChar (Char.ofNat n)).tails.filter fun t => t ≠ [] ∧ (t <+: w ∨ w <+: t)).map fun t =>
      Char.ofNat n :: w.drop t.length

variable {w : List Char}

theorem mem_disguises {d : List Char} :
    d ∈ disguises w ↔ ∃ n < 0x20, ∃ t, t <:+ escapeChar (Char.ofNat n) ∧ t ≠ [] ∧
      (t <+: w ∨ w <+: t) ∧ d = Char.ofNat n :: w.drop t.length := by
  simp only [disguises, List.mem_flatMap, List.mem_range, List.mem_map, List.mem_filter,
    List.mem_tails, decide_eq_true_eq, and_assoc, @eq_comm _ d]

theorem of_mem_disguise {d : List Char} {c : Char} (hd : d ∈ disguises w) (hc : c ∈ d) :
    c.toNat < 0x20 ∨ c ∈ w := by
  obtain ⟨n, hn, _, _, _, _, rfl⟩ := mem_disguises.mp hd
  rcases List.mem_cons.mp hc with rfl | hc
  · have hall : ∀ n < 0x20, (Char.ofNat n).toNat < 0x20 := by decide
    exact Or.inl (hall n hn)
  · exact Or.inr (List.mem_of_mem_drop hc)

theorem IsPlain.ascii {c : Char} (h : IsPlain c) : c.toNat < 0x80 :=
  Nat.lt_trans h.2.1 (by decide)

theorem IsPlain.toLower {c : Char} (h : IsPlain c) : IsPlain c.toLower :=
  of_forall_ascii (P := fun c => IsPlain c → IsPlain c.toLower) (by decide +kernel) h.ascii h

theorem IsPlain.not_escapes {c : Char} (h : IsPlain c) : ¬Escapes c := by
  rintro (rfl | rfl | hlt)
  · exact h.2.2.1 rfl
  · exact h.2.2.2 rfl
  · exact absurd h.1 (by omega)

theorem escapeChar_of_not_escapes {c : Char} (h : ¬Escapes c) : escapeChar c = [c] := by
  simp only [Escapes, not_or] at h
  obtain ⟨hquote, hbackslash, hcontrol⟩ := h
  have hne : ∀ d : Char, d.toNat < 0x20 → c ≠ d := by
    rintro d hd rfl
    exact hcontrol hd
  rw [escapeChar, if_neg hquote, if_neg hbackslash, if_neg (hne _ (by decide)),
    if_neg (hne _ (by decide)), if_neg (hne _ (by decide)), if_neg (hne _ (by decide)),
    if_neg (hne _ (by decide)), if_neg hcontrol]

theorem escapeChar_of_escapes {c : Char} (h : Escapes c) :
    (escapeChar c).flatMap lowerChar = escapeChar c ∧ lowerChar c = [c] ∧
      (escapeChar c).head? = some '\\' := by
  have hlt : c.toNat < 0x80 := by
    rcases h with rfl | rfl | hlt
    · decide
    · decide
    · omega
  exact of_forall_ascii (P := fun c => Escapes c → (escapeChar c).flatMap lowerChar = escapeChar c ∧
    lowerChar c = [c] ∧ (escapeChar c).head? = some '\\') (by decide +kernel) hlt h

theorem lowerRuns_regular : ∀ run ∈ lowerRuns, 0x20 ≤ run.first + run.offset ∧
    (run.last + run.offset < 0xD800 ∨
      0xDFFF < run.first + run.offset ∧ run.last + run.offset < 0x110000) := by
  decide +kernel

theorem not_control_of_mem_lowerChar {c d : Char} (hc : ¬Escapes c) (hd : d ∈ lowerChar c) :
    ¬d.toNat < 0x20 := by
  have hcontrol : ¬c.toNat < 0x20 := fun h => hc (Or.inr (Or.inr h))
  unfold lowerChar at hd
  split_ifs at hd with hascii hdotted
  · obtain rfl := List.mem_singleton.mp hd
    exact of_forall_ascii (P := fun c => ¬c.toNat < 0x20 → ¬c.toLower.toNat < 0x20)
      (by decide +kernel) hascii hcontrol
  · rcases List.mem_pair.mp hd with rfl | rfl <;> decide
  · split at hd
    · next n hn =>
      obtain rfl := List.mem_singleton.mp hd
      obtain ⟨run, hrun, hlower⟩ := List.exists_of_findSome?_eq_some hn
      -- no run of the table leads below the space
      obtain ⟨hlow, hvalid⟩ := lowerRuns_regular run hrun
      unfold LowerRun.lower? at hlower
      split at hlower
      · obtain rfl := Option.some.inj hlower
        rw [toNat_ofNat (by omega)]
        omega
      · cases hlower
    · obtain rfl := List.mem_singleton.mp hd
      exact hcontrol

theorem exists_mem_of_prefix_append {t b : List Char} (ht : t ≠ []) (hw : w ≠ [])
    (h : w <+: t ++ b) : ∃ x ∈ t, x ∈ w := by
  obtain ⟨x, t, rfl⟩ := List.exists_cons_of_ne_nil ht
  obtain ⟨y, w, rfl⟩ := List.exists_cons_of_ne_nil hw
  obtain ⟨rfl, _⟩ := List.cons_prefix_cons.mp h
  exact ⟨y, List.mem_cons_self, List.mem_cons_self⟩

theorem eq_nil_of_plain {c : Char} {b : List Char} (hw : ∀ x ∈ w, IsPlain x) (hc : ¬IsPlain c)
    (h : w <+: c :: b) : w = [] := by
  rcases List.prefix_cons_iff.mp h with hnil | ⟨v, rfl, _⟩
  · exact hnil
  · exact absurd (hw c List.mem_cons_self) hc

theorem prefix_escaped_iff {s : List Char} (hw : ∀ x ∈ w, IsPlain x) :
    w <+: (s.flatMap escapeChar).flatMap lowerChar ↔ w <+: s.flatMap lowerChar := by
  induction s generalizing w with
  | nil => rfl
  | cons c s ih =>
    rw [List.flatMap_cons, List.flatMap_append, List.flatMap_cons]
    by_cases hc : Escapes c
    · -- neither the character nor its escape begins a plain word
      obtain ⟨hkept, hlower, hhead⟩ := escapeChar_of_escapes hc
      obtain ⟨t, ht⟩ := List.head?_eq_some_iff.mp hhead
      rw [hkept, hlower, ht]
      constructor
      · intro h
        rw [eq_nil_of_plain hw (by decide) h]
        exact List.nil_prefix
      · intro h
        rw [eq_nil_of_plain hw (fun hplain => hplain.not_escapes hc) h]
        exact List.nil_prefix
    · rw [escapeChar_of_not_escapes hc, List.flatMap_singleton, prefix_append_iff,
        prefix_append_iff]
      refine or_congr Iff.rfl (exists_congr fun v => and_congr_right fun hv => ih ?_)
      intro x hx
      exact hw x (hv ▸ List.mem_append_right _ hx)

theorem exists_disguise_of_prefix_escape {c : Char} {s t : List Char} (hw : ∀ x ∈ w, IsPlain x)
    (hne : w ≠ []) (hc : Escapes c) (ht : t <:+ escapeChar c) (htne : t ≠ [])
    (h : w <+: t ++ (s.flatMap escapeChar).flatMap lowerChar) :
    ∃ d ∈ disguises w, d <+: c :: s.flatMap lowerChar := by
  -- of the escapes only those of control characters have plain characters
  have hcontrol : c.toNat < 0x20 := by
    obtain ⟨x, hx, hxw⟩ := exists_mem_of_prefix_append htne hne h
    have hplain := hw x hxw
    have hmem := ht.subset hx
    rcases hc with rfl | rfl | hlt
    · rcases List.mem_pair.mp hmem with rfl | rfl <;> exact absurd hplain (by decide)
    · rcases List.mem_pair.mp hmem with rfl | rfl <;> exact absurd hplain (by decide)
    · exact hlt
  have hdisguise : ∀ v, (t <+: w ∨ w <+: t) → v = w.drop t.length → c :: v ∈ disguises w := by
    rintro v hcompatible rfl
    refine mem_disguises.mpr ⟨c.toNat, hcontrol, t, ?_, htne, hcompatible, ?_⟩
    · rwa [Char.ofNat_toNat]
    · rw [Char.ofNat_toNat]
  rcases prefix_append_iff.mp h with hinside | ⟨v, rfl, hv⟩
  · refine ⟨[c], hdisguise [] (Or.inr hinside) ?_, ?_⟩
    · exact (List.drop_eq_nil_of_le hinside.length_le).symm
    · exact List.cons_prefix_cons.mpr ⟨rfl, List.nil_prefix⟩
  · refine ⟨c :: v, hdisguise v (Or.inl (List.prefix_append t v)) ?_, ?_⟩
    · rw [List.drop_left]
    · refine List.cons_prefix_cons.mpr ⟨rfl, (prefix_escaped_iff ?_).mp hv⟩
      exact fun x hx => hw x (List.mem_append_right t hx)

theorem exists_prefix_escape_of_disguise {c : Char} {s d : List Char} (hw : ∀ x ∈ w, IsPlain x)
    (hd : d ∈ disguises w) (h : d <+: c :: s.flatMap lowerChar) :
    ∃ t, t <:+ escapeChar c ∧ t ≠ [] ∧ w <+: t ++ (s.flatMap escapeChar).flatMap lowerChar := by
  obtain ⟨n, _, t, ht, htne, hcompatible, rfl⟩ := mem_disguises.mp hd
  obtain ⟨rfl, hrest⟩ := List.cons_prefix_cons.mp h
  refine ⟨t, ht, htne, ?_⟩
  rcases hcompatible with ⟨v, rfl⟩ | hinside
  · rw [List.drop_left] at hrest
    rw [List.prefix_append_right_inj]
    exact (prefix_escaped_iff fun x hx => hw x (List.mem_append_right t hx)).mpr hrest
  · exact hinside.trans (List.prefix_append t _)

/-- A word that begins in an escape is the disguised word at the escaped character. -/
theorem prefix_escape_iff {c : Char} {s : List Char} (hw : ∀ x ∈ w, IsPlain x) (hne : w ≠ [])
    (hc : Escapes c) :
    (∃ t, t <:+ escapeChar c ∧ t ≠ [] ∧
        w <+: t ++ (s.flatMap escapeChar).flatMap lowerChar) ↔
      ∃ d ∈ disguises w, d <+: c :: s.flatMap lowerChar := by
  constructor
  · rintro ⟨t, ht, htne, h⟩
    exact exists_disguise_of_prefix_escape hw hne hc ht htne h
  · rintro ⟨d, hd, h⟩
    exact exists_prefix_escape_of_disguise hw hd h

theorem shows_cons_of_disguise {c : Char} {s d : List Char} (hc : ¬Escapes c)
    (hd : d ∈ disguises w) : Shows d (c :: s) ↔ Shows d s := by
  rw [Shows, List.flatMap_cons, infix_append_iff]
  constructor
  · rintro (⟨t, ht, htne, hbegins⟩ | h)
    · obtain ⟨n, hn, _, _, _, _, rfl⟩ := mem_disguises.mp hd
      obtain ⟨x, t, rfl⟩ := List.exists_cons_of_ne_nil htne
      obtain ⟨rfl, _⟩ := List.cons_prefix_cons.mp hbegins
      refine absurd ?_ (not_control_of_mem_lowerChar hc (ht.subset List.mem_cons_self))
      have hall : ∀ n < 0x20, (Char.ofNat n).toNat < 0x20 := by decide
      exact hall n hn
    · exact h
  · exact Or.inr

/-- An escaped text shows a plain word iff the text shows the word or one of its disguises. -/
theorem shows_flatMap_escapeChar_iff {s : List Char} (hw : ∀ x ∈ w, IsPlain x) (hne : w ≠ []) :
    Shows w (s.flatMap escapeChar) ↔ Shows w s ∨ ∃ d ∈ disguises w, Shows d s := by
  induction s with
  | nil =>
    simp only [List.flatMap_nil, not_shows_nil hne, false_or, false_iff, not_exists, not_and]
    intro d hd
    obtain ⟨n, _, t, _, _, _, rfl⟩ := mem_disguises.mp hd
    exact not_shows_nil (List.cons_ne_nil _ _)
  | cons c s ih =>
    rw [Shows, List.flatMap_cons, List.flatMap_append, infix_append_iff]
    change _ ∨ Shows w (s.flatMap escapeChar) ↔ _
    rw [ih]
    by_cases hc : Escapes c
    · -- No plain word begins at the character itself, but a disguise may.
      obtain ⟨hkept, hlower, _⟩ := escapeChar_of_escapes hc
      have hword : Shows w (c :: s) ↔ Shows w s := by
        rw [Shows, List.flatMap_cons, hlower, List.singleton_append, List.infix_cons_iff]
        refine or_iff_right fun h => hne ?_
        exact eq_nil_of_plain hw (fun hplain => hplain.not_escapes hc) h
      have hdisguise : (∃ d ∈ disguises w, Shows d (c :: s)) ↔
          (∃ d ∈ disguises w, d <+: c :: s.flatMap lowerChar) ∨ ∃ d ∈ disguises w, Shows d s := by
        simp only [Shows, List.flatMap_cons, hlower, List.singleton_append, List.infix_cons_iff,
          and_or_left, exists_or]
      rw [hkept, prefix_escape_iff hw hne hc, hword, hdisguise, or_left_comm]
    · have hword : Shows w (c :: s) ↔
          (∃ t, t <:+ lowerChar c ∧ t ≠ [] ∧ w <+: t ++ s.flatMap lowerChar) ∨ Shows w s := by
        rw [Shows, List.flatMap_cons, infix_append_iff, Shows]
      have hdisguise : (∃ d ∈ disguises w, Shows d (c :: s)) ↔ ∃ d ∈ disguises w, Shows d s :=
        exists_congr fun d => and_congr_right fun hd => shows_cons_of_disguise hc hd
      have hbegins : ∀ t, w <+: t ++ (s.flatMap escapeChar).flatMap lowerChar ↔
          w <+: t ++ s.flatMap lowerChar := by
        intro t
        rw [prefix_append_iff, prefix_append_iff]
        refine or_congr Iff.rfl (exists_congr fun v => and_congr_right fun hv => ?_)
        exact prefix_escaped_iff fun x hx => hw x (hv ▸ List.mem_append_right t hx)
      rw [hword, hdisguise, escapeChar_of_not_escapes hc, List.flatMap_singleton, or_assoc]
      simp only [hbegins]

/-- The characters of a string between its quotes. -/
def escaped (s : String) : List Char :=
  s.toList.flatMap escapeChar

theorem shows_escaped_iff {s : String} (hw : ∀ x ∈ w, IsPlain x) (hne : w ≠ []) :
    Shows w (escaped s) ↔ Shows w s.toList ∨ ∃ d ∈ disguises w, Shows d s.toList :=
  shows_flatMap_escapeChar_iff hw hne

/-- A character that stands between the tokens of a text. -/
def IsPunctuation (c : Char) : Prop :=
  c ∈ ['"', '[', ']', '{', '}', ',', ':']

instance (c : Char) : Decidable (IsPunctuation c) :=
  inferInstanceAs (Decidable (_ ∈ _))

mutual

/-- The strings, keys, numbers and literals of a value in the order of its text, as they are
written there. -/
def tokens : Json → List (List Char)
  | .string s => [escaped s]
  | .array items => itemTokens items
  | .object members => memberTokens members
  | other => [compactChars other]

def itemTokens : List Json → List (List Char)
  | [] => []
  | v :: rest => tokens v ++ itemTokens rest

def memberTokens : List (String × Json) → List (List Char)
  | [] => []
  | (k, v) :: rest => escaped k :: tokens v ++ memberTokens rest

end

/-- The text consists of the tokens, in this order, with punctuation between them. -/
inductive Punctuated : List (List Char) → List Char → Prop
  | nil : Punctuated [] []
  | single (t : List Char) : Punctuated [t] t
  | mark {p : Char} {ts : List (List Char)} {text : List Char} :
    IsPunctuation p → Punctuated ts text → Punctuated ts (p :: text)
  | token (t : List Char) {p : Char} {ts : List (List Char)} {text : List Char} :
    IsPunctuation p → Punctuated ts text → Punctuated (t :: ts) (t ++ p :: text)

namespace Punctuated

variable {ts us : List (List Char)} {a b text : List Char} {p : Char}

theorem append (ha : Punctuated ts a) (hp : IsPunctuation p) (hb : Punctuated us b) :
    Punctuated (ts ++ us) (a ++ p :: b) := by
  induction ha with
  | nil => exact .mark hp hb
  | single t => exact .token t hp hb
  | mark hq _ ih => exact .mark hq ih
  | token t hq _ ih =>
    rw [List.cons_append, List.append_assoc]
    exact .token t hq ih

theorem close (ha : Punctuated ts a) (hp : IsPunctuation p) : Punctuated ts (a ++ [p]) := by
  simpa using ha.append hp .nil

theorem quote (s : String) : Punctuated [escaped s] (quote s) :=
  .mark (by decide) (.token _ (by decide) .nil)

theorem infix_of_mem (h : Punctuated ts text) : ∀ t ∈ ts, t <:+: text := by
  induction h with
  | nil => simp
  | single t => simp
  | mark _ _ ih =>
    intro t ht
    exact List.infix_cons (ih t ht)
  | token t _ _ ih =>
    rw [List.forall_mem_cons]
    refine ⟨(List.prefix_append _ _).isInfix, fun u hu => ?_⟩
    exact (ih u hu).trans ((List.suffix_cons _ _).trans (List.suffix_append _ _)).isInfix

theorem shows_iff (h : Punctuated ts text) (hw : ∀ c ∈ w, ¬IsPunctuation c) (hne : w ≠ []) :
    Shows w text ↔ ∃ t ∈ ts, Shows w t := by
  have hlower : ∀ p, IsPunctuation p → lowerChar p = [p] := by
    intro p hp
    simp only [IsPunctuation, List.mem_cons, List.not_mem_nil, or_false] at hp
    rcases hp with rfl | rfl | rfl | rfl | rfl | rfl | rfl <;> decide
  have hsplit : ∀ (a b : List Char) (p : Char), IsPunctuation p →
      (Shows w (a ++ p :: b) ↔ Shows w a ∨ Shows w b) := by
    intro a b p hp
    exact shows_append_cons (hlower p hp) fun hmem => hw p hmem hp
  induction h with
  | nil => simp [not_shows_nil hne]
  | single t => simp
  | @mark p ts text hp _ ih =>
    rw [← List.nil_append (p :: text), hsplit _ _ _ hp, or_iff_right (not_shows_nil hne)]
    exact ih
  | token t hp _ ih =>
    rw [hsplit _ _ _ hp, List.exists_mem_cons_iff]
    exact or_congr Iff.rfl ih

end Punctuated

mutual

theorem punctuated_compactChars : (v : Json) → Punctuated v.tokens (compactChars v)
  | .null => .single _
  | .bool true => .single _
  | .bool false => .single _
  | .whole _ => .single _
  | .real _ => .single _
  | .string s => .quote s
  | .array items => .mark (by decide) (punctuated_compactItems items)
  | .object members => .mark (by decide) (punctuated_compactMembers members)

theorem punctuated_compactItems : (items : List Json) →
    Punctuated (itemTokens items) (compactItems items)
  | [] => .mark (by decide) .nil
  | [v] => by
    rw [itemTokens, itemTokens, List.append_nil, compactItems]
    exact (punctuated_compactChars v).close (by decide)
  | v :: next :: rest => by
    rw [itemTokens, compactItems]
    · exact (punctuated_compactChars v).append (by decide) (punctuated_compactItems (next :: rest))
    · exact List.cons_ne_nil _ _

theorem punctuated_compactMembers : (members : List (String × Json)) →
    Punctuated (memberTokens members) (compactMembers members)
  | [] => .mark (by decide) .nil
  | [(k, v)] => by
    rw [memberTokens, memberTokens, List.append_nil, compactMembers]
    exact ((Punctuated.quote k).append (by decide) (punctuated_compactChars v)).close (by decide)
  | (k, v) :: next :: rest => by
    rw [memberTokens, compactMembers]
    · exact ((Punctuated.quote k).append (by decide) (punctuated_compactChars v)).append (by decide)
        (punctuated_compactMembers (next :: rest))
    · exact List.cons_ne_nil _ _

end

theorem itemTokens_eq (items : List Json) : itemTokens items = items.flatMap tokens := by
  induction items with
  | nil => rfl
  | cons v rest ih => rw [itemTokens, ih, List.flatMap_cons]

theorem memberTokens_eq (members : List (String × Json)) :
    memberTokens members = members.flatMap fun m => escaped m.1 :: tokens m.2 := by
  induction members with
  | nil => rfl
  | cons m rest ih => rw [memberTokens, ih, List.flatMap_cons]

section

variable {t : List Char}

theorem mem_tokens_object {members : List (String × Json)} :
    t ∈ tokens (.object members) ↔ ∃ m ∈ members, t = escaped m.1 ∨ t ∈ tokens m.2 := by
  rw [tokens, memberTokens_eq]
  simp only [List.mem_flatMap, List.mem_cons]

theorem mem_tokens_array {items : List Json} :
    t ∈ tokens (.array items) ↔ ∃ v ∈ items, t ∈ tokens v := by
  rw [tokens, itemTokens_eq, List.mem_flatMap]

theorem mem_tokens_string {s : String} : t ∈ tokens (.string s) ↔ t = escaped s :=
  List.mem_singleton

theorem mem_tokens_strings {items : List String} :
    t ∈ tokens (.strings items) ↔ ∃ s ∈ items, t = escaped s := by
  rw [Json.strings, mem_tokens_array]
  simp only [List.mem_map, exists_exists_and_eq_and, mem_tokens_string]

theorem mem_tokens_nat {n : Nat} : t ∈ tokens (.nat n) ↔ t = decimalChars n := by
  have hwhole : wholeChars (n : Int) = decimalChars n := if_neg (by omega)
  change t ∈ [wholeChars (n : Int)] ↔ _
  rw [hwhole, List.mem_singleton]

end

end LegacyAudit.Json
