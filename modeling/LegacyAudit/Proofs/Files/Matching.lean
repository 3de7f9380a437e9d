import LegacyAudit.Proofs.Files.Listing
import Mathlib.Data.List.Forall2

/-!
# Walks through trees that look alike

The places of two trees can be matched so that matched places hold the same, and so that every step
down from them, through a link or not, leads to matched places again or nowhere in both. Then two
walks that start at matched places visit matched places all the way. If they are to go on at the
same places they find the same files, or both of them break off.

## Main definitions

- `FileTree.Matching` - the places of two trees are matched
- `FileTree.Reaches` - a way leads down from a place
- `FileTree.WalkedAlike` - two walks found the same files or broke off
- `FileTree.Matching.walkFrom_alike` - walks from matched places
- `FileTree.SameBelow.matching` - trees that are the same below two places
-/

namespace LegacyAudit.FileTree

/-- The entries of a name in two directories lead to matched places, or nowhere in both trees. -/
inductive StepsAlike (tree tree' : FileTree) (matched : Location → Location → Prop)
    (location location' : Location) (name : String) : Prop
  | plain (h : ¬tree.IsLink (location ++ [name])) (h' : ¬tree'.IsLink (location' ++ [name]))
    (alike : matched (location ++ [name]) (location' ++ [name]))
  | link {target target' : Location} (h : tree.IsLink (location ++ [name]))
    (h' : tree'.IsLink (location' ++ [name])) (leads : tree.locate location name = .ok target)
    (leads' : tree'.locate location' name = .ok target') (alike : matched target target')
  | broken {e e' : FileError} (h : tree.IsLink (location ++ [name]))
    (h' : tree'.IsLink (location' ++ [name])) (leads : tree.locate location name = .error e)
    (leads' : tree'.locate location' name = .error e')

/-- Places of one tree are matched with places of another, one to one, that cannot be told apart by
going down from them. -/
structure Matching (tree tree' : FileTree) (matched : Location → Location → Prop) : Prop where
  unique : ∀ {location location' other other'}, matched location location' → matched other other' →
    (location = other ↔ location' = other')
  same : ∀ {location location'}, matched location location' →
    tree.entry? location = tree'.entry? location'
  names : ∀ {location location'}, matched location location' →
    tree.entry? location = some .directory → tree.names location = tree'.names location'
  steps : ∀ {location location'}, matched location location' →
    tree.entry? location = some .directory → ∀ name ∈ tree.names location,
      StepsAlike tree tree' matched location location' name

/-- The names of a way lead down from a location, through directories and links. -/
inductive Reaches (tree : FileTree) : (location way : Location) → Prop
  | start (location : Location) : Reaches tree location []
  | plain {location way : Location} {name : String} (hname : name ∈ tree.names location)
    (h : ¬tree.IsLink (location ++ [name])) (rest : Reaches tree (location ++ [name]) way) :
    Reaches tree location (name :: way)
  | link {location target way : Location} {name : String} (hname : name ∈ tree.names location)
    (h : tree.IsLink (location ++ [name])) (leads : tree.locate location name = .ok target)
    (rest : Reaches tree target way) : Reaches tree location (name :: way)

/-- Two walks found the same files behind the paths they started from, each on one of certain ways,
or both of them broke off. -/
inductive WalkedAlike (onWay : Location → Prop) (path path' : String) :
    (walked walked' : Except WalkError (List FoundFile)) → Prop
  | broken (e e' : WalkError) : WalkedAlike onWay path path' (.error e) (.error e')
  | found (listed : List ListedFile) (h : ∀ file ∈ listed, onWay file.1) :
    WalkedAlike onWay path path' (.ok (listed.map (·.foundFrom path)))
      (.ok (listed.map (·.foundFrom path')))

/-- Two trees have the same below two places: the same entries, and links that lead to the same
place further down or nowhere in both. -/
structure SameBelow (tree tree' : FileTree) (location location' : Location) : Prop where
  entries : ∀ way, tree.entry? (location ++ way) = tree'.entry? (location' ++ way)
  links : ∀ way name, tree.IsLink (location ++ way ++ [name]) →
    (∃ place, tree.locate (location ++ way) name = .ok (location ++ place) ∧
      tree'.locate (location' ++ way) name = .ok (location' ++ place)) ∨
    ∃ e e', tree.locate (location ++ way) name = .error e ∧
      tree'.locate (location' ++ way) name = .error e'

variable {tree tree' : FileTree} {matched : Location → Location → Prop}
  {location location' : Location} {name name' path path' : String}

section

variable {ancestors ancestors' : List Ancestor}

theorem Matching.mem_iff (h : Matching tree tree' matched) {places places' : List Location}
    (hplaces : List.Forall₂ matched places places') (hmatched : matched location location') :
    location ∈ places ↔ location' ∈ places' := by
  induction hplaces with
  | nil => simp
  | cons hfirst _ ih => rw [List.mem_cons, List.mem_cons, h.unique hmatched hfirst, ih]

/-- Where the ancestors are matched, matched directories are left for matched places, or not at
all. -/
theorem Matching.follow_alike (h : Matching tree tree' matched)
    (hancestors : List.Forall₂ matched (ancestors.map (·.location)) (ancestors'.map (·.location)))
    (hstep : StepsAlike tree tree' matched location location' name)
    (hname : name ∈ tree.names location) :
    (∃ e e', tree.follow ancestors location name path = .error e ∧
      tree'.follow ancestors' location' name path' = .error e') ∨
    ∃ target target', tree.follow ancestors location name path = .ok target ∧
      tree'.follow ancestors' location' name path' = .ok target' ∧ matched target target' ∧
      ∀ way, tree.Reaches target way → tree.Reaches location (name :: way) := by
  cases hstep with
  | plain hplain hplain' halike =>
    exact Or.inr ⟨_, _, follow_of_not_isLink hplain, follow_of_not_isLink hplain', halike,
      fun way hway => .plain hname hplain hway⟩
  | broken hlink hlink' hleads hleads' =>
    exact Or.inl ⟨_, _, follow_of_broken hlink hleads, follow_of_broken hlink' hleads'⟩
  | @link target target' hlink hlink' hleads hleads' halike =>
    by_cases htarget : target ∈ ancestors.map (·.location)
    · obtain ⟨e, he⟩ := exists_follow_of_mem hlink hleads htarget
      obtain ⟨e', he'⟩ := exists_follow_of_mem hlink' hleads'
        ((h.mem_iff hancestors halike).mp htarget)
      exact Or.inl ⟨e, e', he, he'⟩
    · exact Or.inr ⟨target, target', follow_of_notMem hlink hleads htarget,
        follow_of_notMem hlink' hleads' (mt (h.mem_iff hancestors halike).mpr htarget), halike,
        fun way hway => .link hname hlink hleads hway⟩

end

section

variable {onWay : Location → Prop}

theorem flatten_mapM_cons {α β ε : Type} (f : α → Except ε (List β)) (x : α) (rest : List α) :
    (do let found ← (x :: rest).mapM f; return found.flatten) = (do
      let first ← f x
      let others ← (do let found ← rest.mapM f; return found.flatten)
      return first ++ others) := by
  rw [List.mapM_cons]
  cases f x with
  | error e => rfl
  | ok first =>
    cases rest.mapM f with
    | error e => rfl
    | ok others => rfl

theorem WalkedAlike.mono {onWay' : Location → Prop}
    {walked walked' : Except WalkError (List FoundFile)}
    (h : WalkedAlike onWay path path' walked walked') (hmono : ∀ way, onWay way → onWay' way) :
    WalkedAlike onWay' path path' walked walked' := by
  cases h with
  | broken e e' => exact .broken e e'
  | found listed hlisted => exact .found listed fun file hfile => hmono _ (hlisted file hfile)

theorem WalkedAlike.append {walked walked' rest rest' : Except WalkError (List FoundFile)}
    (h : WalkedAlike (fun way => onWay (name :: way)) (Path.join path name) (Path.join path' name)
      walked walked')
    (hrest : WalkedAlike onWay path path' rest rest') :
    WalkedAlike onWay path path' (do let first ← walked; let others ← rest; return first ++ others)
      (do let first ← walked'; let others ← rest'; return first ++ others) := by
  cases h with
  | broken e e' => exact .broken e e'
  | found listed hlisted =>
    cases hrest with
    | broken e e' => exact .broken e e'
    | found others hothers =>
      have hall : ∀ file ∈ (listed.map fun file => (name :: file.1, file.2)) ++ others,
          onWay file.1 := by
        rw [List.forall_mem_append, List.forall_mem_map]
        exact ⟨hlisted, hothers⟩
      have hfound : WalkedAlike onWay path path' _ _ := .found _ hall
      rw [List.map_append, List.map_append, List.map_map, List.map_map] at hfound
      exact hfound

theorem WalkedAlike.flatten {steps steps' : String → Except WalkError (List FoundFile)}
    {names : List String}
    (h : ∀ name ∈ names, WalkedAlike (fun way => onWay (name :: way)) (Path.join path name)
      (Path.join path' name) (steps name) (steps' name)) :
    WalkedAlike onWay path path' (do let found ← names.mapM steps; return found.flatten)
      (do let found ← names.mapM steps'; return found.flatten) := by
  induction names with
  | nil => exact .found [] (by simp)
  | cons name rest ih =>
    obtain ⟨hname, hrest⟩ := List.forall_mem_cons.mp h
    rw [flatten_mapM_cons, flatten_mapM_cons]
    exact hname.append (ih hrest)

/-- Walks from matched places find the same files or both break off, if the configuration excludes
the same places on both ways. -/
theorem Matching.walkFrom_alike (h : Matching tree tree' matched) (config : Config)
    {levels depth : Nat} {ancestors ancestors' : List Ancestor}
    (hancestors : List.Forall₂ matched (ancestors.map (·.location)) (ancestors'.map (·.location)))
    (hmatched : matched location location') (hname : 0 < depth → name = name')
    (hexcluded : ∀ way, tree.Reaches location way →
      config.isExcluded (Path.below path way) = config.isExcluded (Path.below path' way)) :
    WalkedAlike (tree.Reaches location) path path'
      (tree.walkFrom config.keeps levels depth ancestors location path name)
      (tree'.walkFrom config.keeps levels depth ancestors' location' path' name') := by
  induction levels generalizing depth ancestors ancestors' location location' path path' name
    name' with
  | zero => exact .found [] (by simp)
  | succ levels ih =>
    have hhere : config.isExcluded path = config.isExcluded path' :=
      hexcluded [] (.start location)
    have hkeeps : ∀ isDirectory, config.keeps ⟨depth, path, name, isDirectory⟩ =
        config.keeps ⟨depth, path', name', isDirectory⟩ := by
      intro isDirectory
      by_cases hdepth : 0 < depth
      · simp only [Config.keeps, hhere, hname hdepth]
      · simp [Config.keeps, hhere, hdepth]
    rw [walkFrom, walkFrom, ← h.same hmatched]
    split
    · next hdirectory =>
      rw [← hkeeps]
      split
      · exact .found [] (by simp)
      · rw [← h.names hmatched hdirectory]
        have hway : List.Forall₂ matched ((⟨location, path⟩ :: ancestors).map Ancestor.location)
            ((⟨location', path'⟩ :: ancestors').map Ancestor.location) :=
          .cons hmatched hancestors
        refine WalkedAlike.flatten fun next hnext => ?_
        -- a link back to an ancestor closes a loop in both trees, as the ancestors are matched
        rcases h.follow_alike hway (h.steps hmatched hdirectory next hnext) hnext with
          ⟨e, e', he, he'⟩ | ⟨target, target', htarget, htarget', halike, hreaches⟩
        · dsimp only
          rw [he, he']
          exact .broken e e'
        · dsimp only
          rw [htarget, htarget']
          exact (ih hway halike (fun _ => rfl) fun way hreached =>
            hexcluded (next :: way) (hreaches way hreached)).mono hreaches
    · next content _ =>
      rw [← hkeeps]
      split
      · exact .found [([], content)] (by simpa using .start location)
      · exact .found [] (by simp)
    · exact .found [] (by simp)

end

/-- Where two trees are the same below two places, each place is matched with the one that is
reached by the same names. -/
theorem SameBelow.matching (h : SameBelow tree tree' location location') (hw : tree.WellFormed)
    (hw' : tree'.WellFormed) :
    Matching tree tree' fun place place' =>
      ∃ way, place = location ++ way ∧ place' = location' ++ way where
  unique := by
    rintro _ _ _ _ ⟨way, rfl, rfl⟩ ⟨other, rfl, rfl⟩
    rw [List.append_cancel_left_eq, List.append_cancel_left_eq]
  same := by
    rintro _ _ ⟨way, rfl, rfl⟩
    exact h.entries way
  names := by
    rintro _ _ ⟨way, rfl, rfl⟩ _
    refine hw.names_congr hw' fun name => ?_
    rw [List.append_assoc, List.append_assoc, h.entries]
  steps := by
    rintro _ _ ⟨way, rfl, rfl⟩ _ name _
    have hlink : tree.IsLink (location ++ way ++ [name]) ↔
        tree'.IsLink (location' ++ way ++ [name]) := by
      simp only [IsLink, List.append_assoc, h.entries]
    by_cases his : tree.IsLink (location ++ way ++ [name])
    · rcases h.links way name his with ⟨place, hleads, hleads'⟩ | ⟨e, e', hleads, hleads'⟩
      · exact .link his (hlink.mp his) hleads hleads' ⟨place, rfl, rfl⟩
      · exact .broken his (hlink.mp his) hleads hleads'
    · exact .plain his (mt hlink.mpr his)
        ⟨way ++ [name], List.append_assoc .., List.append_assoc ..⟩

end LegacyAudit.FileTree
