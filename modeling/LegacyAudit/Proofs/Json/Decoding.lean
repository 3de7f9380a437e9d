import LegacyAudit.Json.Decode
import LegacyAudit.Proofs.Json.Objects
import Mathlib.Data.List.Forall2

/-!
# Reading typed values

A decoder undoes a way of writing values if it reads what is written, and it is exact if it reads
nothing else. A record is read from an object if each of its fields is, in whatever order they are
checked.

## Main definitions

- `Undoes`, `Exact`, `ExactOn` - decoders against the way values are written
- `exact_word`, `undoes_choice`, `Exact.list`, `Undoes.list` - the parts of records
- `FieldCheck.Passes` - nothing that is found under the key of a field stands in the way
- `decodeRecord_object`, `decodeRecord_object_error` - records read from objects
-/

namespace LegacyAudit

theorem exists_of_bind_eq_ok {α β ε : Type} {x : Except ε α} {f : α → Except ε β} {b : β}
    (h : x >>= f = .ok b) : ∃ a, x = .ok a ∧ f a = .ok b := by
  cases x with
  | error e => simp [bind, Except.bind] at h
  | ok a => exact ⟨a, rfl, h⟩

def Undoes {α : Type} (decode : Decoder α) (encode : α → Json) : Prop :=
  ∀ a, decode (encode a) = .ok a

/-- What is written is read as itself, and nothing else is read. -/
def Exact {α : Type} (decode : Decoder α) (encode : α → Json) : Prop :=
  ∀ v a, decode v = .ok a ↔ v = encode a

/-- Of the values with a property, nothing but what is written is read. -/
def ExactOn {α : Type} (p : Json → Prop) (decode : Decoder α) (encode : α → Json) : Prop :=
  ∀ v a, p v → decode v = .ok a → v = encode a

variable {α : Type} {decode : Decoder α} {encode : α → Json} {p : Json → Prop}

theorem Exact.on (h : Exact decode encode) (p : Json → Prop) : ExactOn p decode encode :=
  fun _ _ _ hread => (h _ _).mp hread

theorem Exact.undoes (h : Exact decode encode) : Undoes decode encode :=
  fun a => (h _ a).mpr rfl

theorem Undoes.reads (h : Undoes decode encode) (a : α) : ∀ v, encode a = v → decode v = .ok a := by
  rintro _ rfl
  exact h a

theorem exact_string : Exact decodeString .string := by
  intro v s
  constructor
  · intro h
    cases v with
    | string t =>
      obtain rfl := Except.ok.inj h
      rfl
    | _ => cases h
  · rintro rfl
    rfl

theorem decodeWord_eq_ok_iff {type : String} {bound n : Nat} {v : Json} :
    decodeWord type bound v = .ok n ↔ v = .nat n ∧ n < bound := by
  constructor
  · intro h
    cases v with
    | whole m =>
      rw [decodeWord] at h
      split at h
      · next hm =>
        obtain rfl := Except.ok.inj h
        exact ⟨by rw [Json.nat, Int.toNat_of_nonneg hm.1], hm.2⟩
      · cases h
    | _ => cases h
  · rintro ⟨rfl, hn⟩
    rw [Json.nat, decodeWord, if_pos ⟨Int.natCast_nonneg n, by rwa [Int.toNat_natCast]⟩,
      Int.toNat_natCast]

theorem exact_word {type : String} {bound : Nat} {ofNat : Nat → α} {toNat : α → Nat}
    (hlt : ∀ a, toNat a < bound) (hof : ∀ a, ofNat (toNat a) = a)
    (hto : ∀ n < bound, toNat (ofNat n) = n) :
    Exact (fun v => (decodeWord type bound v).map ofNat) fun a => .nat (toNat a) := by
  intro v a
  constructor
  · intro h
    cases hword : decodeWord type bound v with
    | error e => simp [hword, Except.map] at h
    | ok n =>
      obtain ⟨rfl, hn⟩ := decodeWord_eq_ok_iff.mp hword
      simp only [hword, Except.map, Except.ok.injEq] at h
      simp only [← h, hto n hn]
  · rintro rfl
    simp only [decodeWord_eq_ok_iff.mpr ⟨rfl, hlt a⟩, Except.map, hof]

theorem exact_byte : Exact decodeByte fun n => .nat n.toNat :=
  exact_word UInt8.toNat_lt (fun _ => UInt8.ofNat_toNat) fun _ => UInt8.toNat_ofNat_of_lt

theorem exact_word32 : Exact decodeWord32 fun n => .nat n.toNat :=
  exact_word UInt32.toNat_lt (fun _ => UInt32.ofNat_toNat) fun _ => UInt32.toNat_ofNat_of_lt

theorem exact_word64 : Exact decodeWord64 fun n => .nat n.toNat :=
  exact_word UInt64.toNat_lt (fun _ => UInt64.ofNat_toNat) fun _ => UInt64.toNat_ofNat_of_lt

theorem exact_size : Exact decodeSize fun n => .nat n.toNat :=
  exact_word UInt64.toNat_lt (fun _ => UInt64.ofNat_toNat) fun _ => UInt64.toNat_ofNat_of_lt

theorem decodeNullable_of_ne_null {v : Json} (hv : v ≠ .null) :
    decodeNullable decode v = (decode v).map some := by
  cases v with
  | null => exact absurd rfl hv
  | _ => rfl

theorem decode_of_decodeNullable {v : Json} {a : α} (h : decodeNullable decode v = .ok (some a)) :
    decode v = .ok a := by
  by_cases hv : v = .null
  · subst hv
    cases h
  · rw [decodeNullable_of_ne_null hv] at h
    cases hread : decode v with
    | error e => simp [hread, Except.map] at h
    | ok b => simpa [hread, Except.map] using h

/-- A list of names reads the tags of all values that it finds by their tags. -/
theorem undoes_choice {choices : List (String × α)} {name : α → String}
    (h : ∀ a, choices.find? (·.1 == name a) = some (name a, a)) :
    Undoes (decodeChoice choices) fun a => .string (name a) := by
  intro a
  simp only [decodeChoice, choose, h a]

/-- A string, not an object with a tag for its key. -/
def Json.IsString (v : Json) : Prop :=
  ∃ s, v = .string s

theorem exactOn_choice {choices : List (String × α)} {name : α → String}
    (hnames : ∀ entry ∈ choices, entry.1 = name entry.2) :
    ExactOn Json.IsString (decodeChoice choices) fun a => .string (name a) := by
  rintro _ a ⟨tag, rfl⟩ h
  rw [decodeChoice, choose] at h
  split at h
  · next key x hfound =>
    obtain rfl := Except.ok.inj h
    have hkey : key = tag := by simpa using List.find?_some hfound
    rw [← hkey]
    exact congrArg Json.string (hnames _ (List.mem_of_find?_eq_some hfound))
  · cases h

def Json.Each (p : Json → Prop) (v : Json) : Prop :=
  ∀ items, v = .array items → ∀ w ∈ items, p w

theorem Json.each_map (h : ∀ a, p (encode a)) (xs : List α) :
    Each p (.array (xs.map encode)) := by
  rintro _ ⟨⟩ w hw
  obtain ⟨a, _, rfl⟩ := List.mem_map.mp hw
  exact h a

theorem decodeItems_eq_ok_iff {items : List Json} {xs : List α} :
    decodeItems decode items = .ok xs ↔ List.Forall₂ (fun v x => decode v = .ok x) items xs := by
  induction items generalizing xs with
  | nil =>
    rw [decodeItems, List.forall₂_nil_left_iff]
    exact ⟨fun h => (Except.ok.inj h).symm, fun h => h ▸ rfl⟩
  | cons v items ih =>
    constructor
    · intro h
      obtain ⟨x, hx, h⟩ := exists_of_bind_eq_ok h
      obtain ⟨xs, hxs, h⟩ := exists_of_bind_eq_ok h
      obtain rfl := Except.ok.inj h
      exact .cons hx (ih.mp hxs)
    · rintro (_ | ⟨hx, hxs⟩)
      rw [decodeItems, hx, ih.mpr hxs]
      rfl

theorem Undoes.list (h : Undoes decode encode) :
    Undoes (decodeList decode) fun xs => .array (xs.map encode) := by
  intro xs
  rw [decodeList, decodeItems_eq_ok_iff, List.forall₂_map_left_iff, List.forall₂_same]
  exact fun a _ => h a

theorem ExactOn.list (h : ExactOn p decode encode) :
    ExactOn (Json.Each p) (decodeList decode) fun xs => .array (xs.map encode) := by
  intro v xs hp hread
  cases v with
  | array items =>
    have hitems : ∀ w ∈ items, p w := hp items rfl
    rw [decodeList, decodeItems_eq_ok_iff] at hread
    rw [Json.array.injEq]
    induction hread with
    | nil => rfl
    | @cons w x items xs hx _ ih =>
      obtain ⟨hw, hitems⟩ := List.forall_mem_cons.mp hitems
      rw [List.map_cons, h w x hw hx, ih (fun _ => by rintro ⟨⟩; exact hitems) hitems]
  | _ => cases hread

theorem Exact.list (h : Exact decode encode) :
    Exact (decodeList decode) fun xs => .array (xs.map encode) := by
  intro v xs
  constructor
  · exact (h.on fun _ => True).list v xs fun _ _ _ _ => trivial
  · rintro rfl
    exact h.undoes.list xs

theorem exact_strings : Exact (decodeList decodeString) Json.strings :=
  exact_string.list

section

variable {lookup : String → Option Json} {field : Field α} {x : α} {v : Json}

theorem Field.get_of_some (h : lookup field.name = some v) :
    field.get lookup = field.decode v := by
  rw [Field.get, h]

theorem Field.get_of_none (h : lookup field.name = none) (habsent : field.absent = some x) :
    field.get lookup = .ok x := by
  rw [Field.get, h, habsent]

theorem Field.get_missing (h : lookup field.name = none) (habsent : field.absent = none) :
    field.get lookup = .error (.missingField field.name) := by
  rw [Field.get, h, habsent]

/-- What is read of a field is its value when it is absent or the value of something. -/
theorem Field.get_eq_ok (h : field.get lookup = .ok x) :
    (∃ v, field.decode v = .ok x) ∨ field.absent = some x := by
  unfold get at h
  split at h
  · next v _ => exact .inl ⟨_, h⟩
  · next habsent =>
    obtain rfl := Except.ok.inj h
    exact .inr habsent
  · cases h

theorem Field.get_written (hundoes : Undoes field.decode encode)
    (h : lookup field.name = some (encode x)) : field.get lookup = .ok x :=
  (get_of_some h).trans (hundoes x)

theorem Field.found_of_get {key : String} (h : (Field.required key decode).get lookup = .ok x)
    (hexact : ExactOn p decode encode) (hp : ∀ w, lookup key = some w → p w) :
    lookup key = some (encode x) := by
  cases hfound : lookup key with
  | none =>
    rw [get_missing hfound rfl] at h
    cases h
  | some w =>
    rw [get_of_some hfound] at h
    rw [hexact w x (hp w hfound) h]

theorem Field.found_of_get_exact {key : String}
    (h : (Field.required key decode).get lookup = .ok x) (hexact : Exact decode encode) :
    lookup key = some (encode x) :=
  found_of_get h (hexact.on fun _ => True) fun _ _ => trivial

/-- What is found for a field that may be absent or null is what is written, unless it is null. -/
theorem Field.found_of_get_nullable {key : String} {x : Option α}
    (h : (Field.nullable key decode).get lookup = .ok x) (hexact : Exact decode encode)
    (hnull : lookup key ≠ some .null) : lookup key = x.map encode := by
  cases hfound : lookup key with
  | none =>
    rw [get_of_none hfound rfl] at h
    obtain rfl := Except.ok.inj h
    rfl
  | some w =>
    rw [get_of_some hfound] at h
    have hw : w ≠ .null := fun hw => hnull (hw ▸ hfound)
    change decodeNullable decode w = .ok x at h
    rw [decodeNullable_of_ne_null hw] at h
    cases hread : decode w with
    | error e => simp [hread, Except.map] at h
    | ok a =>
      simp only [hread, Except.map, Except.ok.injEq] at h
      rw [← h, Option.map_some, (hexact w a).mp hread]

theorem Field.get_written_nullable {key : String} {x : Option α} (hundoes : Undoes decode encode)
    (hnull : ∀ a, encode a ≠ .null) (h : lookup key = x.map encode) :
    (Field.nullable key decode).get lookup = .ok x := by
  cases x with
  | none => exact get_of_none h rfl
  | some a =>
    rw [get_of_some h]
    change decodeNullable decode (encode a) = _
    rw [decodeNullable_of_ne_null (hnull a), hundoes a]
    rfl

/-- Whatever is found under the key of the field is accepted. -/
def FieldCheck.Passes (lookup : String → Option Json) (c : FieldCheck) : Prop :=
  ∀ v, lookup c.name = some v → c.check v = .ok ()

theorem Field.passes_of_get (h : field.get lookup = .ok x) : field.toCheck.Passes lookup := by
  intro v hv
  rw [Field.get_of_some hv] at h
  simp only [toCheck, h, Except.map]

theorem Field.passes_of_none (h : lookup field.name = none) : field.toCheck.Passes lookup := by
  intro v hv
  rw [show lookup field.name = some v from hv] at h
  cases h

theorem checkPresent_eq_ok {checks : List FieldCheck} (h : ∀ c ∈ checks, c.Passes lookup) :
    checkPresent lookup checks = .ok () := by
  induction checks with
  | nil => rfl
  | cons c checks ih =>
    obtain ⟨hc, hchecks⟩ := List.forall_mem_cons.mp h
    rw [checkPresent]
    split
    · next v hv =>
      rw [hc v hv, ih hchecks]
      rfl
    · exact ih hchecks

/-- Where one field only is in the way, it does not matter when it is checked. -/
theorem checkPresent_eq_error {checks : List FieldCheck} {c : FieldCheck} {e : DecodeError}
    (hc : c ∈ checks) (hv : lookup c.name = some v) (he : c.check v = .error e)
    (hothers : ∀ d ∈ checks, d = c ∨ d.Passes lookup) :
    checkPresent lookup checks = .error e := by
  induction checks with
  | nil => simp at hc
  | cons d checks ih =>
    obtain ⟨hd, hchecks⟩ := List.forall_mem_cons.mp hothers
    rw [checkPresent]
    by_cases hdc : d = c
    · subst hdc
      simp only [hv, he]
      rfl
    · have hrest := ih ((List.mem_cons.mp hc).resolve_left (Ne.symm hdc)) hchecks
      split
      · next w hw =>
        rw [hd.resolve_left hdc w hw, hrest]
        rfl
      · exact hrest

end

section

variable {name : String} {fields : List FieldCheck} {members : List (String × Json)} {x : α}
  {build : (String → Option Json) → Except DecodeError α}

/-- A record none of whose fields is in the way is built from the members of the object. -/
theorem decodeRecord_object (h : ∀ c ∈ fields, c.Passes (Json.object members).member?) :
    decodeRecord name fields build (.object members) = build (Json.object members).member? := by
  have hchecks : checkPresent (Json.object members).member?
      (fields.mergeSort fun a b => decide (a.name ≤ b.name)) = .ok () :=
    checkPresent_eq_ok fun c hc => h c (List.mem_mergeSort.mp hc)
  simp only [decodeRecord, hchecks]
  rfl

theorem decodeRecord_object_error {c : FieldCheck} {v : Json} {e : DecodeError} (hc : c ∈ fields)
    (hv : (Json.object members).member? c.name = some v) (he : c.check v = .error e)
    (hothers : ∀ d ∈ fields, d = c ∨ d.Passes (Json.object members).member?) :
    decodeRecord name fields build (.object members) = .error e := by
  have hchecks : checkPresent (Json.object members).member?
      (fields.mergeSort fun a b => decide (a.name ≤ b.name)) = .error e :=
    checkPresent_eq_error (List.mem_mergeSort.mpr hc) hv he
      fun d hd => hothers d (List.mem_mergeSort.mp hd)
  simp only [decodeRecord, hchecks]
  rfl

theorem build_of_decodeRecord_object
    (h : decodeRecord name fields build (.object members) = .ok x) :
    build (Json.object members).member? = .ok x := by
  rw [decodeRecord] at h
  obtain ⟨_, _, hbuild⟩ := exists_of_bind_eq_ok h
  exact hbuild

theorem build_of_decodeRecord {v : Json} (h : decodeRecord name fields build v = .ok x) :
    ∃ lookup, build lookup = .ok x := by
  cases v with
  | object members => exact ⟨_, build_of_decodeRecord_object h⟩
  | array items =>
    rw [decodeRecord] at h
    obtain ⟨_, _, h⟩ := exists_of_bind_eq_ok h
    obtain ⟨y, hbuild, h⟩ := exists_of_bind_eq_ok h
    split at h
    · obtain rfl := Except.ok.inj h
      exact ⟨_, hbuild⟩
    · cases h
  | _ => cases h

end

end LegacyAudit
