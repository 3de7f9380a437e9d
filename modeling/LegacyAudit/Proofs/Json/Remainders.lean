import LegacyAudit.Proofs.Json.Decoding

/-!
# What is left of objects

An object that has lost some of its members, and that has got others under keys of their own, is
read like the object, but for the fields that it has lost.

## Main definitions

- `Json.Leaves` - an object and what may be left of it
- `unlessMissing` - a value, or the key that is missing
- `Field.Left` - the fields of what is left
-/

namespace LegacyAudit

def unlessMissing {α : Type} (missing : Option String) (x : α) : Except DecodeError α :=
  match missing with
  | some key => .error (.missingField key)
  | none => .ok x

/-- Of an object there may be left the members whose keys are not `gone`, each of them as `part`
allows for its key. Members with other keys may have come in, and the order may have changed. -/
inductive Json.Leaves (gone : List String) (part : String → Json → Json → Prop) : Json → Json → Prop
  | intro {members added rest : List (String × Json)} (left : String → Json)
      (kept : ∀ m ∈ members, m.1 ∉ gone → part m.1 m.2 (left m.1))
      (fresh : ∀ m ∈ added, m.1 ∉ members.map Prod.fst)
      (order : rest.Perm
        ((members.filter (·.1 ∉ gone)).map (fun m => (m.1, left m.1)) ++ added)) :
      Leaves gone part (.object members) (.object rest)

namespace Json.Leaves

variable {gone : List String} {part : String → Json → Json → Prop}
  {members : List (String × Json)} {rest : Json}

theorem of_perm {rest : List (String × Json)} (added : List (String × Json))
    (hkeys : (members.map Prod.fst).Nodup) (hpart : ∀ m ∈ members, part m.1 m.2 m.2)
    (fresh : ∀ m ∈ added, m.1 ∉ members.map Prod.fst)
    (order : rest.Perm (members.filter (·.1 ∉ gone) ++ added)) :
    Leaves gone part (.object members) (.object rest) := by
  have hleft : ∀ m ∈ members, ((object members).member? m.1).getD .null = m.2 := by
    intro m hm
    rw [member?_of_mem hkeys hm, Option.getD_some]
  have hsame : (members.filter (·.1 ∉ gone)).map
      (fun m => (m.1, ((object members).member? m.1).getD .null)) =
        members.filter (·.1 ∉ gone) := by
    rw [List.map_congr_left fun m hm => by rw [hleft m (List.mem_of_mem_filter hm)], List.map_id']
  apply Leaves.intro (fun key => ((object members).member? key).getD .null) _ fresh
  · rwa [hsame]
  · intro m hm _
    rw [hleft m hm]
    exact hpart m hm

theorem refl (hkeys : (members.map Prod.fst).Nodup) (hpart : ∀ m ∈ members, part m.1 m.2 m.2) :
    Leaves [] part (.object members) (.object members) :=
  of_perm [] hkeys hpart (List.forall_mem_nil _) (by simp)

theorem exists_object (h : Leaves gone part (.object members) rest) :
    ∃ left, rest = .object left := by
  cases h
  exact ⟨_, rfl⟩

theorem member? (h : Leaves gone part (.object members) rest) {key : String} {v : Json}
    (hmem : (key, v) ∈ members) :
    (key ∈ gone ∧ rest.member? key = none) ∨
      (key ∉ gone ∧ ∃ w, part key v w ∧ rest.member? key = some w) := by
  obtain @⟨_, added, rest, left, kept, fresh, order⟩ := h
  have hfresh : ∀ w, (key, w) ∉ added := by
    intro w hw
    exact fresh _ hw (List.mem_map.mpr ⟨_, hmem, rfl⟩)
  by_cases hgone : key ∈ gone
  · refine .inl ⟨hgone, member?_eq_none fun w hw => ?_⟩
    rcases List.mem_append.mp (order.mem_iff.mp hw) with hw | hw
    · obtain ⟨m, hm, hkey⟩ := List.mem_map.mp hw
      obtain rfl : m.1 = key := congrArg Prod.fst hkey
      simp [hgone] at hm
    · exact hfresh w hw
  · refine .inr ⟨hgone, left key, kept _ hmem hgone, member?_eq_some ?_ fun w hw => ?_⟩
    · apply order.mem_iff.mpr
      apply List.mem_append_left
      exact List.mem_map.mpr ⟨(key, v), by simp [hmem, hgone], rfl⟩
    · rcases List.mem_append.mp (order.mem_iff.mp hw) with hw | hw
      · obtain ⟨m, _, hkey⟩ := List.mem_map.mp hw
        obtain ⟨rfl, rfl⟩ := Prod.mk.inj hkey
        rfl
      · exact absurd hw (hfresh w)

end Json.Leaves

theorem decodeItems_eq_unlessMissing {ι α : Type} {decode : Decoder α} {l : List ι}
    {missing : ι → Option String} {value : ι → α} {items : List Json}
    (h : List.Forall₂ (fun i w => decode w = unlessMissing (missing i) (value i)) l items) :
    decodeItems decode items = unlessMissing (l.findSome? missing) (l.map value) := by
  induction h with
  | nil => rfl
  | @cons i w l items hw _ ih =>
    rw [decodeItems, hw, ih, List.findSome?_cons, List.map_cons]
    cases missing i with
    | some key => rfl
    | none => cases l.findSome? missing <;> rfl

section

variable {α β : Type} {gone : List String} {lookup : String → Option Json} {x : α}

/-- The field is gone, or there is something left that has the value. -/
def Field.Left (field : Field α) (gone : List String) (lookup : String → Option Json) (x : α) :
    Prop :=
  (field.name ∈ gone ∧ lookup field.name = none) ∨
    (field.name ∉ gone ∧ ∃ w, field.decode w = .ok x ∧ lookup field.name = some w)

theorem Json.Leaves.field {part : String → Json → Json → Prop} {members : List (String × Json)}
    {rest : Json} {field : Field α} (h : Leaves gone part (.object members) rest) {v : Json}
    (hmem : (field.name, v) ∈ members) (hread : ∀ w, part field.name v w → field.decode w = .ok x) :
    field.Left gone rest.member? x := by
  rcases h.member? hmem with hgone | ⟨hleft, w, hpart, hw⟩
  · exact .inl hgone
  · exact .inr ⟨hleft, w, hread w hpart, hw⟩

def Field.Lacks (field : Field α) (lookup : String → Option Json) (key : String) : Prop :=
  ∃ w, field.decode w = .error (.missingField key) ∧ lookup field.name = some w

/-- A key is missing from what is left of a field, unless the field is gone too. -/
theorem Json.Leaves.left_or_lacks {part : String → Json → Json → Prop}
    {members : List (String × Json)} {rest : Json} (h : Leaves gone part (.object members) rest)
    (field : Field α) (v : Json) (hmem : (field.name, v) ∈ members) {missing : Option String}
    (hread : ∀ w, part field.name v w → field.decode w = unlessMissing missing x) :
    ((if field.name ∈ gone then none else missing) = none ∧ field.Left gone rest.member? x) ∨
      ∃ key, (if field.name ∈ gone then none else missing) = some key ∧
        field.Lacks rest.member? key := by
  rcases h.member? hmem with hgone | ⟨hleft, w, hpart, hw⟩
  · exact .inl ⟨if_pos hgone.1, .inl hgone⟩
  · rw [if_neg hleft]
    have hdecode := hread w hpart
    cases missing with
    | none => exact .inl ⟨rfl, .inr ⟨hleft, w, hdecode, hw⟩⟩
    | some key => exact .inr ⟨key, rfl, w, hdecode, hw⟩

/-- A record cannot be read if one field lacks a key and nothing else is in the way. -/
theorem Field.Lacks.decodeRecord {field : Field α} {members : List (String × Json)} {key : String}
    (h : field.Lacks (Json.object members).member? key) {name : String} {fields : List FieldCheck}
    (hmem : field.toCheck ∈ fields)
    (hothers : ∀ c ∈ fields, c = field.toCheck ∨ c.Passes (Json.object members).member?)
    {build : (String → Option Json) → Except DecodeError β} :
    LegacyAudit.decodeRecord name fields build (.object members) = .error (.missingField key) := by
  obtain ⟨w, hdecode, hw⟩ := h
  apply decodeRecord_object_error hmem hw _ hothers
  simp only [toCheck, hdecode, Except.map]

namespace Field.Left

theorem passes {field : Field α} (h : field.Left gone lookup x) : field.toCheck.Passes lookup := by
  rcases h with ⟨_, hnone⟩ | ⟨_, w, hread, hw⟩
  · exact passes_of_none hnone
  · exact passes_of_get ((get_of_some hw).trans hread)

theorem bind_default {key : String} {decode : Decoder α} {builtIn : α}
    (h : (Field.default key decode builtIn).Left gone lookup x) {f : α → Except DecodeError β}
    {result : Except DecodeError β} (hf : f (if key ∈ gone then builtIn else x) = result) :
    (Field.default key decode builtIn).get lookup >>= f = result := by
  rcases h with ⟨hgone, hnone⟩ | ⟨hleft, w, hread, hw⟩
  · have hgone : key ∈ gone := hgone
    rw [if_pos hgone] at hf
    rw [get_of_none hnone rfl]
    exact hf
  · have hleft : key ∉ gone := hleft
    rw [if_neg hleft] at hf
    rw [get_of_some hw, hread]
    exact hf

theorem bind_required {key : String} {decode : Decoder α}
    (h : (Field.required key decode).Left gone lookup x) {f : α → Except DecodeError β}
    {keys : List String} {y : β} (hf : f x = unlessMissing (keys.find? (· ∈ gone)) y) :
    (Field.required key decode).get lookup >>= f =
      unlessMissing ((key :: keys).find? (· ∈ gone)) y := by
  rcases h with ⟨hgone, hnone⟩ | ⟨hleft, w, hread, hw⟩
  · have hgone : key ∈ gone := hgone
    rw [get_missing hnone rfl, List.find?_cons_of_pos (by simpa using hgone)]
    rfl
  · have hleft : key ∉ gone := hleft
    rw [get_of_some hw, hread, List.find?_cons_of_neg (by simpa using hleft)]
    exact hf

end Field.Left

end

end LegacyAudit
