import LegacyAudit.FileTree.Walk
import Mathlib.Data.List.Induction
import Mathlib.Data.List.Nodup
import Mathlib.Data.List.Sort
import Mathlib.Data.String.Basic

/-!
# The shape of trees

In a well-formed tree every location has one entry at most, and everything is in a directory. Then
the names in a directory are told by what is at the locations below it, in whatever order the
entries are listed.

## Main definitions

- `FileTree.WellFormed`, `FileTree.LinkFree` - the trees that a walk is about
- `FileTree.IsLink` - where a link is
- `FileTree.mem_names_iff`, `FileTree.WellFormed.pairwise_names` - the names in a directory
- `FileTree.follow_of_notMem`, `FileTree.follow_eq_ok` - where the entries of a directory lead
- `FileTree.WellFormed.isDirectory_of_append` - what has something below it is a directory
- `FileTree.below` - how much is below a location
-/

namespace LegacyAudit.FileTree

/-- Every location has one entry at most, and every entry is in a directory. -/
structure WellFormed (tree : FileTree) : Prop where
  nodup : (tree.entries.map (·.1)).Nodup
  rooted : ∀ entry ∈ tree.entries, entry.1 ≠ [] ∧ tree.isDirectory entry.1.dropLast

def LinkFree (tree : FileTree) : Prop :=
  ∀ entry ∈ tree.entries, ∀ target, entry.2 ≠ .link target

def IsLink (tree : FileTree) (location : Location) : Prop :=
  ∃ target, tree.entry? location = some (.link target)

/-- The number of entries strictly below a location. -/
def below (tree : FileTree) (location : Location) : Nat :=
  (tree.entries.filter fun entry => location <+: entry.1 ∧ location ≠ entry.1).length

variable {tree : FileTree} {location : Location} {name : String} {entry : FileEntry}

theorem entry?_of_ne_nil (h : location ≠ []) :
    tree.entry? location = tree.entries.lookup location :=
  if_neg h

theorem mem_entries (hlocation : location ≠ []) (h : tree.entry? location = some entry) :
    (location, entry) ∈ tree.entries := by
  rw [entry?_of_ne_nil hlocation, List.lookup_eq_some_iff] at h
  obtain ⟨front, back, hentries, _⟩ := h
  rw [hentries]
  exact List.mem_append_right _ List.mem_cons_self

theorem entry?_ne_none_of_mem (h : (location, entry) ∈ tree.entries) :
    tree.entry? location ≠ none := by
  unfold entry?
  split
  · simp
  · rw [Ne, List.lookup_eq_none_iff]
    intro hnone
    simpa using hnone _ h

/-- Where no location has two entries, an entry is what is at its location. -/
theorem entry?_eq_some_iff (h : (tree.entries.map (·.1)).Nodup) (hlocation : location ≠ []) :
    tree.entry? location = some entry ↔ (location, entry) ∈ tree.entries := by
  refine ⟨mem_entries hlocation, fun hmem => ?_⟩
  obtain ⟨found, hfound⟩ := Option.ne_none_iff_exists'.mp (entry?_ne_none_of_mem hmem)
  have heq := List.inj_on_of_nodup_map h hmem (mem_entries hlocation hfound) rfl
  rw [hfound, (Prod.mk.inj heq).2]

theorem WellFormed.isDirectory_of_append (h : tree.WellFormed) {rest : Location}
    (hrest : rest ≠ []) (hentry : tree.entry? (location ++ rest) ≠ none) :
    tree.entry? location = some .directory := by
  induction rest using List.reverseRecOn with
  | nil => exact absurd rfl hrest
  | append_singleton rest last ih =>
    rw [← List.append_assoc] at hentry
    obtain ⟨found, hfound⟩ := Option.ne_none_iff_exists'.mp hentry
    have habove := (h.rooted _ (mem_entries (by simp) hfound)).2
    simp only [List.dropLast_concat, isDirectory, decide_eq_true_eq] at habove
    by_cases hnil : rest = []
    · rwa [hnil, List.append_nil] at habove
    · exact ih hnil (by simp [habove])

theorem WellFormed.isDirectory_of_prefix (h : tree.WellFormed) {place : Location}
    (hentry : tree.entry? location = some .directory) (hplace : place <+: location) :
    tree.isDirectory place := by
  obtain ⟨rest, rfl⟩ := hplace
  refine decide_eq_true ?_
  by_cases hrest : rest = []
  · rwa [hrest, List.append_nil] at hentry
  · exact h.isDirectory_of_append hrest (by simp [hentry])

theorem LinkFree.not_isLink (h : tree.LinkFree) (location : Location) : ¬tree.IsLink location := by
  rintro ⟨target, hlink⟩
  by_cases hlocation : location = []
  · rw [hlocation, entry?, if_pos rfl] at hlink
    cases hlink
  · exact h _ (mem_entries hlocation hlink) target rfl

theorem nameIn?_eq_some_iff {directory : Location} :
    nameIn? directory location = some name ↔ location = directory ++ [name] := by
  rw [nameIn?]
  constructor
  · intro h
    split at h
    · next hdirectory => rw [← hdirectory, List.dropLast_append_getLast? name h]
    · cases h
  · rintro rfl
    simp

theorem mem_names_iff : name ∈ tree.names location ↔ tree.entry? (location ++ [name]) ≠ none := by
  simp only [names, List.mem_mergeSort, List.mem_filterMap, nameIn?_eq_some_iff]
  constructor
  · rintro ⟨⟨_, entry⟩, hmem, rfl⟩
    exact entry?_ne_none_of_mem hmem
  · intro h
    obtain ⟨entry, hentry⟩ := Option.ne_none_iff_exists'.mp h
    exact ⟨_, mem_entries (by simp) hentry, rfl⟩

theorem WellFormed.pairwise_names (h : tree.WellFormed) (location : Location) :
    (tree.names location).Pairwise (· < ·) := by
  have hsorted : (tree.names location).Pairwise (· ≤ ·) := by
    refine (List.pairwise_mergeSort ?_ ?_ _).imp of_decide_eq_true
    · intro a b c hab hbc
      exact decide_eq_true (le_trans (of_decide_eq_true hab) (of_decide_eq_true hbc))
    · intro a b
      simpa using le_total a b
  have hnodup : (tree.names location).Nodup := by
    rw [names, (List.mergeSort_perm _ _).nodup_iff]
    change (tree.entries.filterMap (nameIn? location ∘ Prod.fst)).Nodup
    rw [← List.filterMap_map]
    refine h.nodup.filterMap fun a b name ha hb => ?_
    rw [nameIn?_eq_some_iff.mp ha, nameIn?_eq_some_iff.mp hb]
  exact hsorted.imp₂ (fun _ _ hle hne => lt_of_le_of_ne hle hne) hnodup

theorem WellFormed.names_congr {tree' : FileTree} {location' : Location} (h : tree.WellFormed)
    (h' : tree'.WellFormed)
    (hentry : ∀ name, tree.entry? (location ++ [name]) = tree'.entry? (location' ++ [name])) :
    tree.names location = tree'.names location' := by
  refine (h.pairwise_names location).eq_of_mem_iff (h'.pairwise_names location') fun name => ?_
  rw [mem_names_iff, mem_names_iff, hentry]

section

variable {ancestors : List Ancestor} {directory target : Location} {path : String}

theorem follow_of_not_isLink (h : ¬tree.IsLink (directory ++ [name])) :
    tree.follow ancestors directory name path = .ok (directory ++ [name]) := by
  unfold follow
  split
  · next target hlink => exact absurd ⟨target, hlink⟩ h
  · rfl

theorem follow_of_broken {e : FileError} (h : tree.IsLink (directory ++ [name]))
    (hleads : tree.locate directory name = .error e) :
    tree.follow ancestors directory name path = .error (.unreachable path e) := by
  obtain ⟨text, hlink⟩ := h
  rw [follow, hlink, hleads]

theorem follow_of_notMem (h : tree.IsLink (directory ++ [name]))
    (hleads : tree.locate directory name = .ok target)
    (htarget : target ∉ ancestors.map (·.location)) :
    tree.follow ancestors directory name path = .ok target := by
  obtain ⟨text, hlink⟩ := h
  have hfind : ancestors.find? (·.location = target) = none := by
    rw [List.find?_eq_none]
    intro ancestor hmem heq
    exact htarget (List.mem_map.mpr ⟨ancestor, hmem, of_decide_eq_true heq⟩)
  simp only [follow, hlink, hleads, hfind]

theorem exists_follow_of_mem (h : tree.IsLink (directory ++ [name]))
    (hleads : tree.locate directory name = .ok target)
    (htarget : target ∈ ancestors.map (·.location)) :
    ∃ e, tree.follow ancestors directory name path = .error e := by
  obtain ⟨text, hlink⟩ := h
  obtain ⟨ancestor, hmem, heq⟩ := List.mem_map.mp htarget
  cases hfind : ancestors.find? (·.location = target) with
  | none => exact absurd (decide_eq_true heq) (List.find?_eq_none.mp hfind ancestor hmem)
  | some found => simp [follow, hlink, hleads, hfind]

/-- An entry of a directory leads to its own location, or to a place that is not on the way. -/
theorem follow_eq_ok {directory : Location}
    (h : tree.follow ancestors directory name path = .ok target) :
    target = directory ++ [name] ∨ target ∉ ancestors.map (·.location) := by
  unfold follow at h
  split at h
  · split at h
    · cases h
    · next location _ =>
      split at h
      · cases h
      · next hnone =>
        obtain rfl := Except.ok.inj h
        right
        rw [List.mem_map]
        rintro ⟨ancestor, hmem, heq⟩
        simpa [heq] using List.find?_eq_none.mp hnone ancestor hmem
  · exact Or.inl (Except.ok.inj h).symm

end

section

variable {tree' : FileTree}

theorem entry?_of_perm (hperm : tree'.entries.Perm tree.entries)
    (h : (tree.entries.map (·.1)).Nodup) : tree'.entry? = tree.entry? := by
  have h' : (tree'.entries.map (·.1)).Nodup := (hperm.map _).nodup_iff.mpr h
  funext location
  by_cases hlocation : location = []
  · simp only [hlocation, entry?]
    rfl
  · ext entry
    rw [entry?_eq_some_iff h' hlocation, entry?_eq_some_iff h hlocation, hperm.mem_iff]

theorem WellFormed.of_perm (h : tree.WellFormed) (hperm : tree'.entries.Perm tree.entries) :
    tree'.WellFormed where
  nodup := (hperm.map _).nodup_iff.mpr h.nodup
  rooted entry hentry := by
    obtain ⟨hlocation, habove⟩ := h.rooted entry (hperm.mem_iff.mp hentry)
    rw [isDirectory, entry?_of_perm hperm h.nodup]
    exact ⟨hlocation, habove⟩

theorem LinkFree.of_perm (h : tree.LinkFree) (hperm : tree'.entries.Perm tree.entries) :
    tree'.LinkFree :=
  fun entry hentry => h entry (hperm.mem_iff.mp hentry)

theorem resolveSteps_congr (h : tree'.entry? = tree.entry?) (last : Bool) (links : Nat)
    (here : Location) (steps : List Step) :
    tree'.resolveSteps last links here steps = tree.resolveSteps last links here steps := by
  have hdirectory : tree'.isDirectory = tree.isDirectory := by
    funext location
    rw [isDirectory, h, isDirectory]
  fun_induction tree.resolveSteps last links here steps
  all_goals rw [resolveSteps.eq_def]
  all_goals simp only [*, if_true, if_false, Bool.false_eq_true]

theorem locate_congr (h : tree'.entry? = tree.entry?) (here : Location) (path : String) :
    tree'.locate here path = tree.locate here path := by
  simp only [locate, resolve, resolvePath, resolveSteps_congr h]

end

theorem below_le (tree : FileTree) (location : Location) :
    tree.below location ≤ tree.entries.length :=
  List.length_filter_le _ _

theorem below_append_lt (h : tree.entry? (location ++ [name]) ≠ none) :
    tree.below (location ++ [name]) < tree.below location := by
  obtain ⟨entry, hentry⟩ := Option.ne_none_iff_exists'.mp h
  have hmem := mem_entries (by simp) hentry
  have habove : ∀ other : Location, location ++ [name] <+: other →
      location <+: other ∧ location ≠ other := by
    intro other hprefix
    refine ⟨(List.prefix_append _ _).trans hprefix, ?_⟩
    rintro rfl
    simpa using hprefix.length_le
  have hfilter : (tree.entries.filter fun e =>
        location ++ [name] <+: e.1 ∧ location ++ [name] ≠ e.1) =
      (tree.entries.filter fun e => location <+: e.1 ∧ location ≠ e.1).filter
        fun e => location ++ [name] <+: e.1 ∧ location ++ [name] ≠ e.1 := by
    rw [List.filter_filter]
    refine List.filter_congr fun e _ => ?_
    rw [← Bool.decide_and, decide_eq_decide]
    exact ⟨fun h => ⟨h, habove _ h.1⟩, And.left⟩
  rw [below, below, hfilter, List.length_filter_lt_length_iff_exists]
  exact ⟨(location ++ [name], entry), List.mem_filter.mpr ⟨hmem, by simp⟩, by simp⟩

end LegacyAudit.FileTree
