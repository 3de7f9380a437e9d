import LegacyAudit.Json.Basic
import Mathlib.Data.List.Nodup

/-!
# Objects with keys of their own

Every record is written as a list of entries with keys of their own, so that a member is present iff
its entry has a value and can then be looked up.

## Main definitions

- `Json.keys` - the keys of an object
- `Json.record` - an object of the entries that have values
- `Json.Holds` - what lookups find in an object
- `Json.WrittenAs` - a sort of record with its entries
- `Json.WrittenAs.entries_eq` - entries can be told by their object
- `Json.Holds.eq_record` - objects can be told by their entries and the order of their keys
-/

namespace LegacyAudit.Json

def keys : Json → List String
  | .object members => members.map Prod.fst
  | _ => []

section

variable {members : List (String × Json)} {key : String} {v : Json}

theorem mem_of_member? (h : (object members).member? key = some v) : (key, v) ∈ members := by
  obtain ⟨member, hfound, rfl⟩ := Option.map_eq_some_iff.mp h
  obtain rfl : member.1 = key := by simpa using List.find?_some hfound
  exact List.mem_reverse.mp (List.mem_of_find?_eq_some hfound)

theorem member?_eq_none (h : ∀ w, (key, w) ∉ members) : (object members).member? key = none := by
  rw [Option.eq_none_iff_forall_ne_some]
  intro w hw
  exact h w (mem_of_member? hw)

theorem member?_eq_some (hmem : (key, v) ∈ members) (hunique : ∀ w, (key, w) ∈ members → w = v) :
    (object members).member? key = some v := by
  have hfound : (members.reverse.find? (·.1 == key)).isSome := by
    rw [List.find?_isSome]
    exact ⟨(key, v), List.mem_reverse.mpr hmem, beq_self_eq_true key⟩
  obtain ⟨w, hw⟩ := Option.isSome_iff_exists.mp (Option.isSome_map.trans hfound)
  rw [← hunique w (mem_of_member? hw)]
  exact hw

theorem isSome_member?_iff {v : Json} : (v.member? key).isSome ↔ key ∈ v.keys := by
  cases v with
  | object members => simp [member?, keys]
  | _ => simp [member?, keys]

theorem member?_of_mem (hkeys : (members.map Prod.fst).Nodup) {m : String × Json}
    (hm : m ∈ members) : (object members).member? m.1 = some m.2 :=
  member?_eq_some hm fun _ hw => congrArg Prod.snd (List.inj_on_of_nodup_map hkeys hw hm rfl)

end

/-- No key stands twice, and under the key of every entry there is its value, if it has one. -/
structure Holds (v : Json) (entries : List (String × Option Json)) : Prop where
  distinct : v.keys.Nodup
  found : ∀ entry ∈ entries, v.member? entry.1 = entry.2

/-- An object of the entries that have values. -/
def record (entries : List (String × Option Json)) : Json :=
  .object (entries.filterMap fun entry => entry.2.map (entry.1, ·))

theorem mem_record {entries : List (String × Option Json)} {member : String × Json} :
    member ∈ entries.filterMap (fun entry => entry.2.map (entry.1, ·)) ↔
      (member.1, some member.2) ∈ entries := by
  obtain ⟨key, v⟩ := member
  rw [List.mem_filterMap]
  constructor
  · rintro ⟨⟨key', x⟩, hmem, hx⟩
    obtain ⟨v', rfl, hv⟩ := Option.map_eq_some_iff.mp hx
    cases hv
    exact hmem
  · intro hmem
    exact ⟨_, hmem, rfl⟩

theorem map_fst_record_sublist (entries : List (String × Option Json)) :
    ((entries.filterMap fun entry => entry.2.map (entry.1, ·)).map Prod.fst).Sublist
      (entries.map Prod.fst) := by
  induction entries with
  | nil => exact List.Sublist.slnil
  | cons entry entries ih =>
    obtain ⟨key, x⟩ := entry
    cases x with
    | none => exact ih.cons key
    | some v => exact ih.cons_cons key

/-- Keys of their own make every entry readable, and a missing value is seen to be missing. -/
theorem member?_record {entries : List (String × Option Json)}
    (hkeys : (entries.map Prod.fst).Nodup) {key : String} {x : Option Json}
    (hmem : (key, x) ∈ entries) : (record entries).member? key = x := by
  have hunique : ∀ y, (key, y) ∈ entries → y = x := by
    intro y hy
    exact congrArg Prod.snd (List.inj_on_of_nodup_map hkeys hy hmem rfl)
  cases x with
  | none =>
    apply member?_eq_none
    intro v hv
    cases hunique _ (mem_record.mp hv)
  | some v =>
    apply member?_eq_some (mem_record.mpr hmem)
    intro w hw
    exact Option.some.inj (hunique _ (mem_record.mp hw))

theorem members_eq_map {members : List (String × Json)} (hkeys : (members.map Prod.fst).Nodup) :
    members = (members.map Prod.fst).map fun key =>
      (key, ((object members).member? key).getD .null) := by
  have hread : ∀ m ∈ members, (m.1, ((object members).member? m.1).getD .null) = m := by
    intro m hm
    rw [member?_of_mem hkeys hm, Option.getD_some]
  rw [List.map_map]
  exact ((List.map_congr_left hread).trans (List.map_id' members)).symm

theorem Holds.eq_record {members : List (String × Json)} {entries : List (String × Option Json)}
    (h : (object members).Holds entries) (hkeys : members.map Prod.fst = (record entries).keys) :
    object members = record entries := by
  have hdistinct : (members.map Prod.fst).Nodup := h.distinct
  have hleft : (record entries).keys.Nodup := hkeys ▸ hdistinct
  rw [record, object.injEq, members_eq_map hdistinct, members_eq_map hleft]
  refine (congrArg _ hkeys).trans (List.map_congr_left fun key hkey => ?_)
  obtain ⟨⟨key, v⟩, hmem, rfl⟩ := List.mem_map.mp hkey
  rw [h.found _ (mem_record.mp hmem), member?_of_mem hleft hmem]

theorem eq_map_member? {entries : List (String × Option Json)}
    (hkeys : (entries.map Prod.fst).Nodup) :
    entries = (entries.map Prod.fst).map fun key => (key, (record entries).member? key) := by
  have hread : ∀ entry ∈ entries, (entry.1, (record entries).member? entry.1) = entry := by
    rintro ⟨key, x⟩ hmem
    rw [member?_record hkeys hmem]
  rw [List.map_map]
  exact ((List.map_congr_left hread).trans (List.map_id' entries)).symm

/-- A sort of record is written as entries with the same keys for all records of the sort. -/
structure WrittenAs {α : Type} (toJson : α → Json) (entries : α → List (String × Option Json)) :
    Prop where
  written : ∀ a, toJson a = record (entries a)
  keyed : ∃ keys : List String, keys.Nodup ∧ ∀ a, (entries a).map Prod.fst = keys

namespace WrittenAs

variable {α : Type} {toJson : α → Json} {entries : α → List (String × Option Json)}

theorem nodup_keys (h : WrittenAs toJson entries) (a : α) : ((entries a).map Prod.fst).Nodup := by
  obtain ⟨keys, hkeys, hsame⟩ := h.keyed
  rw [hsame a]
  exact hkeys

theorem holds (h : WrittenAs toJson entries) (a : α) : (toJson a).Holds (entries a) := by
  rw [h.written]
  constructor
  · exact (h.nodup_keys a).sublist (map_fst_record_sublist (entries a))
  · rintro ⟨key, x⟩ hmem
    exact member?_record (h.nodup_keys a) hmem

theorem entries_eq (h : WrittenAs toJson entries) {a b : α} (heq : toJson a = toJson b) :
    entries a = entries b := by
  obtain ⟨keys, _, hsame⟩ := h.keyed
  rw [eq_map_member? (h.nodup_keys a), eq_map_member? (h.nodup_keys b), hsame, hsame,
    ← h.written, ← h.written, heq]

end WrittenAs

end LegacyAudit.Json
