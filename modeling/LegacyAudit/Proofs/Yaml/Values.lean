import LegacyAudit.Proofs.Yaml.Nodes
import LegacyAudit.Yaml.Decode
import Mathlib.Data.List.Nodup

/-!
# Typed values there and back

A value that is written as a text, a number, a list or a record is read from its node as that value,
wherever it stands in a document.

## Main definitions

- `NodeReader.Recovers` - a reader gets back what was written
- `recovers_text`, `recovers_number`, `recovers_choice`, `recovers_list` - parts of records
- `readMembers_record`, `readMember_named` - records and their members
-/

namespace LegacyAudit.Yaml

open Text Content

variable {α : Type} {document : Document}

/-- A reader gets back the value that was written as some content. -/
def NodeReader.Recovers (read : NodeReader α) (content : Content) (value : α) : Prop :=
  ∀ document, read document content.node = pure value

open NodeReader

theorem recovers_text (value : String) : Recovers readText (.text value) value :=
  fun _ => rfl

theorem naturalValue?_decimalChars (n : Nat) : naturalValue? (decimalChars n) = some n := by
  have hsign : withoutPrefix? ['+'] (decimalChars n) = none := by
    obtain ⟨c, more, hdigits⟩ := List.exists_cons_of_ne_nil (decimalChars_ne_nil n)
    have hmem : c ∈ decimalChars n := by simp [hdigits]
    have hdigit := isDigit_of_mem_decimalChars c hmem
    have hc : c ≠ '+' := by
      rintro rfl
      exact absurd hdigit (by decide)
    have hplus : ['+'].isPrefixOf (c :: more) = false := by
      simp [List.isPrefixOf, hc.symm]
    rw [hdigits, withoutPrefix?, if_neg (by simp [hplus])]
  rw [naturalValue?, hsign, Option.getD_none]
  by_cases hn : n = 0
  · subst hn
    rw [decimalChars, digitsOnto, dif_pos (by decide)]
    rfl
  · obtain ⟨c, more, hdigits, hc⟩ := head_digitsOnto_ne_zero [] hn
    have hvalue := numeral?_decimalChars n
    rw [decimalChars, hdigits] at hvalue ⊢
    unfold unsignedValue?
    split
    · next heq => exact absurd (List.cons.inj heq).1 hc
    · next heq => exact absurd (List.cons.inj heq).1 hc
    · exact hvalue

theorem recovers_number {bound n : Nat} (h : n < bound) :
    Recovers (readNumber bound) (.number n) n := by
  intro document
  have hvalue : naturalValue? (decimal n).toList = some n := by
    rw [decimal, String.toList_ofList, naturalValue?_decimalChars]
  simp [readNumber, behindAlias, node, mayBeNumber, hvalue, h]

theorem recovers_byte (n : UInt8) : Recovers readByte (.number n.toNat) n := by
  intro document
  have hbound : n.toNat < UInt8.size := n.toNat_lt
  simp only [readByte]
  rw [recovers_number hbound document, map_pure, UInt8.ofNat_toNat]

theorem recovers_word64 (n : UInt64) : Recovers readWord64 (.number n.toNat) n := by
  intro document
  have hbound : n.toNat < UInt64.size := n.toNat_lt
  simp only [readWord64]
  rw [recovers_number hbound document, map_pure, UInt64.ofNat_toNat]

theorem recovers_choice {choices : List (String × α)} {name : String} {value : α}
    (h : choices.lookup name = some value) : Recovers (readChoice choices) (.text name) value := by
  intro document
  simp [readChoice, behindAlias, node, tagName?, h]

theorem recovers_list {read : NodeReader α} {content : α → Content}
    (h : ∀ value, Recovers read (content value) value) (values : List α) :
    Recovers (readList read) (.list (values.map content)) values := by
  intro document
  change readEach read document (itemNodes (values.map content)) = pure values
  induction values with
  | nil => rfl
  | cons value rest ih =>
    rw [List.map_cons, itemNodes, readEach, h value document, ih]
    rfl

def Content.named (members : List (String × Content)) : Members :=
  members.map fun (key, value) => (key, value.node)

theorem readKeys_memberNodes (members : List (String × Content)) :
    readKeys document (memberNodes members) = pure (named members) := by
  induction members with
  | nil => rfl
  | cons member rest ih =>
    rw [memberNodes, readKeys, ih]
    rfl

theorem readMembers_record (known : List String) {members : List (String × Content)}
    (h : (members.map (·.1)).Nodup) (document : Document) :
    readMembers known document (Content.record members).node = pure (named members) := by
  have hrepeated : hasRepeated known (named members) = false := by
    rw [hasRepeated, List.any_eq_false]
    intro name _
    have hcount := List.nodup_iff_count_le_one.mp h name
    have hkeys : (named members).map (·.1) = members.map (·.1) := by
      simp [named]
    rw [hkeys]
    simpa using hcount
  simp [readMembers, behindAlias, node, readKeys_memberNodes, hrepeated]

theorem lookup_named (members : List (String × Content)) (name : String) :
    (named members).lookup name = (members.lookup name).map node := by
  induction members with
  | nil => rfl
  | cons member rest ih =>
    obtain ⟨key, value⟩ := member
    have hnamed : named ((key, value) :: rest) = (key, value.node) :: named rest := rfl
    rw [hnamed, List.lookup_cons, List.lookup_cons, ih]
    cases name == key <;> rfl

section Members

variable {read : NodeReader α} {content : Content} {value : α}
  {members : List (String × Content)}

theorem readMember_named (name : String) (default : α) (h : Recovers read content value)
    (hname : members.lookup name = some content) :
    readMember document (named members) name read default = pure value := by
  rw [readMember, lookup_named, hname]
  exact h document

theorem requireMember_named (name : String) (h : Recovers read content value)
    (hname : members.lookup name = some content) :
    requireMember document (named members) name read = pure value := by
  rw [requireMember, lookup_named, hname]
  exact h document

end Members

end LegacyAudit.Yaml
