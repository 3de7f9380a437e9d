import LegacyAudit.FeatureRecord.Json
import LegacyAudit.Proofs.Json.Decoding

/-!
# Feature records there and back

A record is read from the value that is written for it, and from other values, which may have keys
that nobody knows, a parse error that is null, or tags in place of keys. Of all these values the one
that is written is canonical.

## Main definitions

- `FunctionFacts.IsCanonical`, `ClassFacts.IsCanonical`, `FeatureRecord.IsCanonical` - how values
  are written
- `FeatureRecord.normalize` - a value as it would have been written
- `FeatureRecord.normalize_canonical` - what is read can be read again
-/

namespace LegacyAudit

open Json (IsString Each WrittenAs)

theorem Language.undoes_decode : Undoes decode fun l => .string l.name :=
  undoes_choice fun l => by cases l <;> rfl

theorem Language.exactOn_decode : ExactOn IsString decode fun l => .string l.name :=
  exactOn_choice (by simp [byName])

theorem DeclarationKind.undoes_decode : Undoes decode fun k => .string k.name :=
  undoes_choice fun k => by cases k <;> rfl

theorem DeclarationKind.exactOn_decode : ExactOn IsString decode fun k => .string k.name :=
  exactOn_choice (by simp [byName])

namespace FunctionFacts

/-- The declared keys in their order, and the sort of declaration as a string. -/
structure IsCanonical (v : Json) : Prop where
  keys : v.keys = ["name", "type", "parameters", "start_line", "end_line"]
  kind : ∀ w, v.member? "type" = some w → w.IsString

def entries (f : FunctionFacts) : List (String × Option Json) :=
  [("name", some (.string f.name)), ("type", some (.string f.kind.name)),
    ("parameters", some (.strings f.parameters)), ("start_line", some (.nat f.startLine.toNat)),
    ("end_line", some (.nat f.endLine.toNat))]

theorem writtenAs : WrittenAs toJson entries where
  written _ := rfl
  keyed := ⟨["name", "type", "parameters", "start_line", "end_line"], by decide, fun _ => rfl⟩

theorem decode_object_iff {members : List (String × Json)} {f : FunctionFacts} :
    decode (.object members) = .ok f ↔
      nameField.get (Json.object members).member? = .ok f.name ∧
      kindField.get (Json.object members).member? = .ok f.kind ∧
      parametersField.get (Json.object members).member? = .ok f.parameters ∧
      startLineField.get (Json.object members).member? = .ok f.startLine ∧
      endLineField.get (Json.object members).member? = .ok f.endLine := by
  constructor
  · intro h
    have hbuild := build_of_decodeRecord_object h
    obtain ⟨_, hname, hbuild⟩ := exists_of_bind_eq_ok hbuild
    obtain ⟨_, hkind, hbuild⟩ := exists_of_bind_eq_ok hbuild
    obtain ⟨_, hparameters, hbuild⟩ := exists_of_bind_eq_ok hbuild
    obtain ⟨_, hstart, hbuild⟩ := exists_of_bind_eq_ok hbuild
    obtain ⟨_, hend, hbuild⟩ := exists_of_bind_eq_ok hbuild
    obtain rfl := Except.ok.inj hbuild
    exact ⟨hname, hkind, hparameters, hstart, hend⟩
  · rintro ⟨hname, hkind, hparameters, hstart, hend⟩
    rw [decode, decodeRecord_object]
    · simp only [hname, hkind, hparameters, hstart, hend]
      rfl
    · simp [Field.passes_of_get hname, Field.passes_of_get hkind,
        Field.passes_of_get hparameters, Field.passes_of_get hstart, Field.passes_of_get hend]

theorem undoes_decode : Undoes decode toJson := by
  intro f
  have hfound := (writtenAs.holds f).found
  simp only [entries, List.forall_mem_cons] at hfound
  obtain ⟨hname, hkind, hparameters, hstart, hend, -⟩ := hfound
  rw [toJson, decode_object_iff]
  exact ⟨Field.get_written exact_string.undoes hname,
    Field.get_written DeclarationKind.undoes_decode hkind,
    Field.get_written exact_strings.undoes hparameters,
    Field.get_written exact_size.undoes hstart, Field.get_written exact_size.undoes hend⟩

theorem isCanonical_toJson (f : FunctionFacts) : IsCanonical f.toJson where
  keys := rfl
  kind w hw := by
    have hfound := (writtenAs.holds f).found ("type", _) (.tail _ (.head _))
    exact ⟨_, Option.some.inj (hw.symm.trans hfound)⟩

theorem exactOn_decode : ExactOn IsCanonical decode toJson := by
  intro v f hv h
  cases v with
  | object members =>
    obtain ⟨hname, hkind, hparameters, hstart, hend⟩ := decode_object_iff.mp h
    have hname := Field.found_of_get_exact hname exact_string
    have hkind := Field.found_of_get hkind DeclarationKind.exactOn_decode hv.kind
    have hparameters := Field.found_of_get_exact hparameters exact_strings
    have hstart := Field.found_of_get_exact hstart exact_size
    have hend := Field.found_of_get_exact hend exact_size
    have hholds : (Json.object members).Holds f.entries := by
      constructor
      · rw [hv.keys]
        decide
      · simp only [entries, List.forall_mem_cons]
        exact ⟨hname, hkind, hparameters, hstart, hend, List.forall_mem_nil _⟩
    rw [writtenAs.written]
    exact hholds.eq_record hv.keys
  | _ => cases hv.keys

end FunctionFacts

namespace ClassFacts

open FunctionFacts (nameField kindField startLineField endLineField)

/-- The declared keys in their order, and the sort of declaration as a string. -/
structure IsCanonical (v : Json) : Prop where
  keys : v.keys = ["name", "type", "start_line", "end_line"]
  kind : ∀ w, v.member? "type" = some w → w.IsString

def entries (c : ClassFacts) : List (String × Option Json) :=
  [("name", some (.string c.name)), ("type", some (.string c.kind.name)),
    ("start_line", some (.nat c.startLine.toNat)), ("end_line", some (.nat c.endLine.toNat))]

theorem writtenAs : WrittenAs toJson entries where
  written _ := rfl
  keyed := ⟨["name", "type", "start_line", "end_line"], by decide, fun _ => rfl⟩

theorem decode_object_iff {members : List (String × Json)} {c : ClassFacts} :
    decode (.object members) = .ok c ↔
      nameField.get (Json.object members).member? = .ok c.name ∧
      kindField.get (Json.object members).member? = .ok c.kind ∧
      startLineField.get (Json.object members).member? = .ok c.startLine ∧
      endLineField.get (Json.object members).member? = .ok c.endLine := by
  constructor
  · intro h
    have hbuild := build_of_decodeRecord_object h
    obtain ⟨_, hname, hbuild⟩ := exists_of_bind_eq_ok hbuild
    obtain ⟨_, hkind, hbuild⟩ := exists_of_bind_eq_ok hbuild
    obtain ⟨_, hstart, hbuild⟩ := exists_of_bind_eq_ok hbuild
    obtain ⟨_, hend, hbuild⟩ := exists_of_bind_eq_ok hbuild
    obtain rfl := Except.ok.inj hbuild
    exact ⟨hname, hkind, hstart, hend⟩
  · rintro ⟨hname, hkind, hstart, hend⟩
    rw [decode, decodeRecord_object]
    · simp only [hname, hkind, hstart, hend]
      rfl
    · simp [Field.passes_of_get hname, Field.passes_of_get hkind, Field.passes_of_get hstart,
        Field.passes_of_get hend]

theorem undoes_decode : Undoes decode toJson := by
  intro c
  have hfound := (writtenAs.holds c).found
  simp only [entries, List.forall_mem_cons] at hfound
  obtain ⟨hname, hkind, hstart, hend, -⟩ := hfound
  rw [toJson, decode_object_iff]
  exact ⟨Field.get_written exact_string.undoes hname,
    Field.get_written DeclarationKind.undoes_decode hkind,
    Field.get_written exact_size.undoes hstart, Field.get_written exact_size.undoes hend⟩

theorem isCanonical_toJson (c : ClassFacts) : IsCanonical c.toJson where
  keys := rfl
  kind w hw := by
    have hfound := (writtenAs.holds c).found ("type", _) (.tail _ (.head _))
    exact ⟨_, Option.some.inj (hw.symm.trans hfound)⟩

theorem exactOn_decode : ExactOn IsCanonical decode toJson := by
  intro v c hv h
  cases v with
  | object members =>
    obtain ⟨hname, hkind, hstart, hend⟩ := decode_object_iff.mp h
    have hname := Field.found_of_get_exact hname exact_string
    have hkind := Field.found_of_get hkind DeclarationKind.exactOn_decode hv.kind
    have hstart := Field.found_of_get_exact hstart exact_size
    have hend := Field.found_of_get_exact hend exact_size
    have hholds : (Json.object members).Holds c.entries := by
      constructor
      · rw [hv.keys]
        decide
      · simp only [entries, List.forall_mem_cons]
        exact ⟨hname, hkind, hstart, hend, List.forall_mem_nil _⟩
    rw [writtenAs.written]
    exact hholds.eq_record hv.keys
  | _ => cases hv.keys

end ClassFacts

namespace FeatureRecord

def requiredKeys : List String :=
  ["language", "functions", "classes", "imports", "complexity", "lines_of_code"]

/-- The declared keys in their order, the language as a string, canonical functions and classes, and
a parse error that is not null. -/
structure IsCanonical (v : Json) : Prop where
  keys : v.keys = requiredKeys ∨ v.keys = requiredKeys ++ ["parse_error"]
  language : ∀ w, v.member? "language" = some w → w.IsString
  functions : ∀ w, v.member? "functions" = some w → w.Each FunctionFacts.IsCanonical
  classes : ∀ w, v.member? "classes" = some w → w.Each ClassFacts.IsCanonical
  parseError : v.member? "parse_error" ≠ some .null

def entries (r : FeatureRecord) : List (String × Option Json) :=
  [("language", some (.string r.language.name)),
    ("functions", some (.array (r.functions.map FunctionFacts.toJson))),
    ("classes", some (.array (r.classes.map ClassFacts.toJson))),
    ("imports", some (.strings r.imports)), ("complexity", some (.nat r.complexity.toNat)),
    ("lines_of_code", some (.nat r.linesOfCode.toNat)),
    ("parse_error", r.parseError.map .string)]

theorem writtenAs : WrittenAs toJson entries where
  written r := by
    rw [toJson]
    cases h : r.parseError <;> simp [Json.record, entries, Json.optional, h]
  keyed := ⟨requiredKeys ++ ["parse_error"], by decide, fun _ => rfl⟩

theorem decode_object_iff {members : List (String × Json)} {r : FeatureRecord} :
    decode (.object members) = .ok r ↔
      languageField.get (Json.object members).member? = .ok r.language ∧
      functionsField.get (Json.object members).member? = .ok r.functions ∧
      classesField.get (Json.object members).member? = .ok r.classes ∧
      importsField.get (Json.object members).member? = .ok r.imports ∧
      complexityField.get (Json.object members).member? = .ok r.complexity ∧
      linesField.get (Json.object members).member? = .ok r.linesOfCode ∧
      parseErrorField.get (Json.object members).member? = .ok r.parseError := by
  constructor
  · intro h
    have hbuild := build_of_decodeRecord_object h
    obtain ⟨_, hlanguage, hbuild⟩ := exists_of_bind_eq_ok hbuild
    obtain ⟨_, hfunctions, hbuild⟩ := exists_of_bind_eq_ok hbuild
    obtain ⟨_, hclasses, hbuild⟩ := exists_of_bind_eq_ok hbuild
    obtain ⟨_, himports, hbuild⟩ := exists_of_bind_eq_ok hbuild
    obtain ⟨_, hcomplexity, hbuild⟩ := exists_of_bind_eq_ok hbuild
    obtain ⟨_, hlines, hbuild⟩ := exists_of_bind_eq_ok hbuild
    obtain ⟨_, herror, hbuild⟩ := exists_of_bind_eq_ok hbuild
    obtain rfl := Except.ok.inj hbuild
    exact ⟨hlanguage, hfunctions, hclasses, himports, hcomplexity, hlines, herror⟩
  · rintro ⟨hlanguage, hfunctions, hclasses, himports, hcomplexity, hlines, herror⟩
    rw [decode, decodeRecord_object]
    · simp only [hlanguage, hfunctions, hclasses, himports, hcomplexity, hlines, herror]
      rfl
    · simp [Field.passes_of_get hlanguage, Field.passes_of_get hfunctions,
        Field.passes_of_get hclasses, Field.passes_of_get himports,
        Field.passes_of_get hcomplexity, Field.passes_of_get hlines, Field.passes_of_get herror]

theorem undoes_decode : Undoes decode toJson := by
  intro r
  have hfound := (writtenAs.holds r).found
  simp only [entries, List.forall_mem_cons] at hfound
  obtain ⟨hlanguage, hfunctions, hclasses, himports, hcomplexity, hlines, herror, -⟩ := hfound
  rw [toJson, decode_object_iff]
  exact ⟨Field.get_written Language.undoes_decode hlanguage,
    Field.get_written FunctionFacts.undoes_decode.list hfunctions,
    Field.get_written ClassFacts.undoes_decode.list hclasses,
    Field.get_written exact_strings.undoes himports,
    Field.get_written exact_word32.undoes hcomplexity,
    Field.get_written exact_size.undoes hlines,
    Field.get_written_nullable exact_string.undoes (fun _ h => by cases h) herror⟩

theorem keys_toJson (r : FeatureRecord) :
    r.toJson.keys = requiredKeys ++ if r.parseError.isSome then ["parse_error"] else [] := by
  rw [toJson]
  cases r.parseError <;> rfl

theorem isCanonical_toJson (r : FeatureRecord) : IsCanonical r.toJson := by
  have hfound := (writtenAs.holds r).found
  simp only [entries, List.forall_mem_cons] at hfound
  obtain ⟨hlanguage, hfunctions, hclasses, -, -, -, herror, -⟩ := hfound
  constructor
  · rw [keys_toJson]
    cases r.parseError with
    | none => exact .inl rfl
    | some message => exact .inr rfl
  · intro w hw
    exact ⟨_, Option.some.inj (hw.symm.trans hlanguage)⟩
  · intro w hw
    obtain rfl := Option.some.inj (hw.symm.trans hfunctions)
    exact Json.each_map FunctionFacts.isCanonical_toJson _
  · intro w hw
    obtain rfl := Option.some.inj (hw.symm.trans hclasses)
    exact Json.each_map ClassFacts.isCanonical_toJson _
  · rw [herror]
    cases r.parseError with
    | none => simp
    | some message => simp

theorem exactOn_decode : ExactOn IsCanonical decode toJson := by
  intro v r hv h
  cases v with
  | object members =>
    obtain ⟨hlanguage, hfunctions, hclasses, himports, hcomplexity, hlines, herror⟩ :=
      decode_object_iff.mp h
    have hlanguage := Field.found_of_get hlanguage Language.exactOn_decode hv.language
    have hfunctions := Field.found_of_get hfunctions FunctionFacts.exactOn_decode.list hv.functions
    have hclasses := Field.found_of_get hclasses ClassFacts.exactOn_decode.list hv.classes
    have himports := Field.found_of_get_exact himports exact_strings
    have hcomplexity := Field.found_of_get_exact hcomplexity exact_word32
    have hlines := Field.found_of_get_exact hlines exact_size
    have herror := Field.found_of_get_nullable herror exact_string hv.parseError
    have hholds : (Json.object members).Holds r.entries := by
      constructor
      · rcases hv.keys with hkeys | hkeys
        · rw [hkeys]
          decide
        · rw [hkeys]
          decide
      · simp only [entries, List.forall_mem_cons]
        exact ⟨hlanguage, hfunctions, hclasses, himports, hcomplexity, hlines, herror,
          List.forall_mem_nil _⟩
    have hpresent : r.parseError.isSome ↔ "parse_error" ∈ (Json.object members).keys := by
      rw [← Json.isSome_member?_iff, herror, Option.isSome_map]
    rw [writtenAs.written]
    apply hholds.eq_record
    rw [← writtenAs.written, keys_toJson]
    rcases hv.keys with hkeys | hkeys
    · rw [hkeys] at hpresent
      rw [if_neg (hpresent.not.mpr (by decide)), List.append_nil]
      exact hkeys
    · rw [hkeys] at hpresent
      rw [if_pos (hpresent.mpr (by decide))]
      exact hkeys
  | _ => rcases hv.keys with hkeys | hkeys <;> cases hkeys

def normalize (v : Json) : Except DecodeError Json :=
  (decode v).map toJson

theorem normalize_eq_ok_iff {v w : Json} :
    normalize v = .ok w ↔ ∃ r, decode v = .ok r ∧ r.toJson = w := by
  rw [normalize]
  cases decode v with
  | error e => simp [Except.map]
  | ok r => simp [Except.map]

/-- Every record is read from what is written for it. Whatever a record is read from, what is
written for that record is canonical, is no other value if the first one was canonical, and stays as
it is from then on. -/
theorem normalize_canonical :
    (∀ r, decode (toJson r) = .ok r) ∧
    (∀ v r, decode v = .ok r →
      IsCanonical r.toJson ∧ decode r.toJson = .ok r ∧ (IsCanonical v ↔ v = r.toJson)) ∧
    ∀ v w, normalize v = .ok w → normalize w = .ok w := by
  refine ⟨undoes_decode, fun v r hread => ⟨isCanonical_toJson r, undoes_decode r, ?_⟩, ?_⟩
  · constructor
    · intro hv
      exact exactOn_decode v r hv hread
    · rintro rfl
      exact isCanonical_toJson r
  · intro v w h
    obtain ⟨r, _, rfl⟩ := normalize_eq_ok_iff.mp h
    exact normalize_eq_ok_iff.mpr ⟨r, undoes_decode r, rfl⟩

def sample : FeatureRecord where
  language := .java
  functions := [⟨"close", .method, ["force"], 0, 18446744073709551615⟩]
  classes := []
  imports := ["java.io"]
  complexity := 4294967295
  linesOfCode := 18446744073709551615
  parseError := none

def sampleLoose : Json :=
  .object [("parse_error", .null), ("language", .object [("java", .null)]),
    ("functions", .array [.object [("type", .string "method"), ("note", .null),
      ("name", .string "close"), ("parameters", .strings ["force"]), ("start_line", .nat 0),
      ("end_line", .nat 18446744073709551615)]]),
    ("classes", .array []), ("imports", .strings ["java.io"]), ("complexity", .nat 4294967295),
    ("lines_of_code", .nat 18446744073709551615)]

theorem decode_sampleLoose : decode sampleLoose = .ok sample := by
  rw [sampleLoose, decode_object_iff]
  refine ⟨rfl, ?_, rfl, rfl, rfl, rfl, rfl⟩
  rw [Field.get_of_some rfl]
  apply decodeItems_eq_ok_iff.mpr
  refine .cons ?_ .nil
  rw [FunctionFacts.decode_object_iff]
  exact ⟨rfl, rfl, rfl, rfl, rfl⟩

theorem normalize_canonical_sample :
    normalize sampleLoose = .ok sample.toJson ∧ normalize sample.toJson = .ok sample.toJson ∧
      IsCanonical sample.toJson ∧ ¬IsCanonical sampleLoose := by
  obtain ⟨_, hread, hstable⟩ := normalize_canonical
  obtain ⟨hcanonical, _, hloose⟩ := hread _ _ decode_sampleLoose
  have hnormal := normalize_eq_ok_iff.mpr ⟨_, decode_sampleLoose, rfl⟩
  refine ⟨hnormal, hstable _ _ hnormal, hcanonical, fun h => ?_⟩
  rw [hloose, sampleLoose, toJson, Json.object.injEq] at h
  simp at h

end FeatureRecord

end LegacyAudit
