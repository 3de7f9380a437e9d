import LegacyAudit.Proofs.Files.Shape

/-!
# How deep a walk goes

A walk may go down a number of levels. It never uses them up: from one link to the next less and
less is below, and with every link that it follows fewer directories are left that are not on the
way yet. So it makes no difference how far beyond that a walk could go.

## Main definitions

- `FileTree.unvisited` - how many places are not on the way
- `FileTree.potential` - a bound on the levels that a walk still goes down
- `FileTree.walkFrom_levels` - the levels beyond that make no difference
-/

namespace LegacyAudit.FileTree

def places (tree : FileTree) : List Location :=
  [] :: tree.entries.map (·.1)

/-- The number of places that have not been visited. -/
def unvisited (tree : FileTree) (visited : List Location) : Nat :=
  (tree.places.filter (· ∉ visited)).length

/-- A bound on the levels that a walk still goes down from a location. -/
def potential (tree : FileTree) (ancestors : List Ancestor) (location : Location) : Nat :=
  tree.unvisited (location :: ancestors.map (·.location)) * (tree.entries.length + 2) +
    tree.below location

variable {tree : FileTree} {ancestors : List Ancestor} {location target : Location}
  {path name : String}

theorem mem_places (h : tree.entry? location ≠ none) : location ∈ tree.places := by
  by_cases hlocation : location = []
  · exact hlocation ▸ List.mem_cons_self
  · obtain ⟨entry, hentry⟩ := Option.ne_none_iff_exists'.mp h
    exact List.mem_cons_of_mem _ (List.mem_map_of_mem (mem_entries hlocation hentry))

theorem unvisited_cons (visited : List Location) :
    tree.unvisited (location :: visited) =
      ((tree.places.filter (· ∉ visited)).filter (· ≠ location)).length := by
  rw [unvisited, List.filter_filter]
  congr 1
  refine List.filter_congr fun place _ => ?_
  simp

theorem unvisited_cons_le (visited : List Location) :
    tree.unvisited (location :: visited) ≤ tree.unvisited visited := by
  rw [unvisited_cons]
  exact List.length_filter_le _ _

theorem unvisited_cons_lt {visited : List Location} (h : tree.entry? location ≠ none)
    (hvisited : location ∉ visited) :
    tree.unvisited (location :: visited) < tree.unvisited visited := by
  rw [unvisited_cons, unvisited, List.length_filter_lt_length_iff_exists]
  exact ⟨location, by simpa using ⟨mem_places h, hvisited⟩, by simp⟩

theorem unvisited_le (visited : List Location) :
    tree.unvisited visited ≤ tree.entries.length + 1 := by
  refine (List.length_filter_le _ _).trans ?_
  simp [places]

theorem potential_append_lt (h : tree.entry? (location ++ [name]) ≠ none) :
    tree.potential (⟨location, path⟩ :: ancestors) (location ++ [name]) <
      tree.potential ancestors location := by
  have hless := below_append_lt h
  have hle : tree.unvisited ((location ++ [name]) :: location :: ancestors.map (·.location)) ≤
      tree.unvisited (location :: ancestors.map (·.location)) := unvisited_cons_le _
  have hmul := Nat.mul_le_mul_right (tree.entries.length + 2) hle
  simp only [potential, List.map_cons]
  omega

/-- A link leads on to a place that is not on the way, and one place less is left. -/
theorem potential_lt (h : tree.entry? target ≠ none)
    (htarget : target ∉ location :: ancestors.map (·.location)) :
    tree.potential (⟨location, path⟩ :: ancestors) target < tree.potential ancestors location := by
  have hless := unvisited_cons_lt h htarget
  have hbelow := tree.below_le target
  have hmul := Nat.mul_le_mul_right (tree.entries.length + 2) hless
  rw [Nat.succ_mul] at hmul
  simp only [potential, List.map_cons]
  omega

theorem potential_lt_depthBound (tree : FileTree) (location : Location) :
    tree.potential [] location < tree.depthBound := by
  have hunvisited := tree.unvisited_le [location]
  have hbelow := tree.below_le location
  have hmul := Nat.mul_le_mul_right (tree.entries.length + 2) hunvisited
  have hbound : tree.depthBound =
      (tree.entries.length + 1) * (tree.entries.length + 2) + (tree.entries.length + 2) :=
    Nat.succ_mul _ _
  simp only [potential, List.map_nil]
  omega

variable {keep : Visit → Bool}

theorem walkFrom_of_none (h : tree.entry? location = none) (levels depth : Nat) :
    tree.walkFrom keep levels depth ancestors location path name = .ok [] := by
  cases levels with
  | zero => rfl
  | succ levels => rw [walkFrom, h]

/-- A walk that may go down further than its potential goes down as far as any such walk. -/
theorem walkFrom_levels {levels levels' depth : Nat}
    (h : tree.potential ancestors location < levels)
    (h' : tree.potential ancestors location < levels') :
    tree.walkFrom keep levels depth ancestors location path name =
      tree.walkFrom keep levels' depth ancestors location path name := by
  induction levels generalizing levels' depth ancestors location path name with
  | zero => exact absurd h (Nat.not_lt_zero _)
  | succ levels ih =>
    cases levels' with
    | zero => exact absurd h' (Nat.not_lt_zero _)
    | succ levels' =>
      rw [walkFrom, walkFrom]
      split
      · split
        · rfl
        · -- what the walk finds behind each entry is the same
          refine congrArg (fun step => (tree.names location).mapM step >>= fun found =>
            pure found.flatten) (funext fun next => ?_)
          cases hfollow : tree.follow (⟨location, path⟩ :: ancestors) location next
            (Path.join path next) with
          | error e => simp only [hfollow]; rfl
          | ok target =>
            simp only [hfollow]
            change tree.walkFrom keep levels _ _ _ _ _ = tree.walkFrom keep levels' _ _ _ _ _
            by_cases hentry : tree.entry? target = none
            · rw [walkFrom_of_none hentry, walkFrom_of_none hentry]
            · have hless : tree.potential (⟨location, path⟩ :: ancestors) target <
                  tree.potential ancestors location := by
                rcases follow_eq_ok hfollow with rfl | hnew
                · exact potential_append_lt hentry
                · exact potential_lt hentry hnew
              exact ih (by omega) (by omega)
      · rfl
      · rfl

/-- A walk that could go down further than a walk may go leads to the same. -/
theorem walkFrom_depthBound {levels depth : Nat} (h : tree.depthBound ≤ levels) :
    tree.walkFrom keep tree.depthBound depth [] location path name =
      tree.walkFrom keep levels depth [] location path name :=
  walkFrom_levels (tree.potential_lt_depthBound location)
    ((tree.potential_lt_depthBound location).trans_le h)

end LegacyAudit.FileTree
