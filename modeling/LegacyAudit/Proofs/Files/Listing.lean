import LegacyAudit.FileTree.Collect
import LegacyAudit.Proofs.Files.Paths
import Mathlib.Data.List.Lex

/-!
# What a walk lists

In a tree without links a walk lists the files below its start in the order of their locations, each
of them once. It leaves a file out iff it was not to go on at some place on the way to the file.
What a project consists of is therefore decided file by file, whatever order the entries come in.

## Main definitions

- `Visit.Passes` - a walk goes on at every place on the way to a file
- `FileTree.Lists` - what is found are the files that a walk passes, in order
- `Config.Takes` - a file belongs to the project
- `FileTree.collect_lists` - the files of a project
-/

namespace LegacyAudit

/-- A file with the names that lead to it from the start of a walk. -/
abbrev ListedFile := Location × List UInt8

/-- A listed file under the path by which a walk comes to it. -/
def ListedFile.foundFrom (path : String) (file : ListedFile) : FoundFile :=
  ⟨Path.below path file.1, file.2⟩

/-- The walk goes on at every place on the way to a file: at the directories and at the file
itself. -/
def Visit.Passes (keep : Visit → Bool) :
    (depth : Nat) → (path name : String) → Location → Prop
  | depth, path, name, [] => keep ⟨depth, path, name, false⟩
  | depth, path, name, next :: rest =>
    keep ⟨depth, path, name, true⟩ ∧ Passes keep (depth + 1) (Path.join path next) next rest

instance Visit.decidablePasses (keep : Visit → Bool) : (depth : Nat) → (path name : String) →
    (way : Location) → Decidable (Visit.Passes keep depth path name way)
  | _, _, _, [] => inferInstanceAs (Decidable (_ = true))
  | depth, path, _, next :: rest =>
    have := decidablePasses keep (depth + 1) (Path.join path next) next rest
    inferInstanceAs (Decidable (_ ∧ _))

/-- The list has the files below a location that satisfy a condition, in the order of their
locations. -/
structure FileTree.Lists (tree : FileTree) (location : Location) (holds : ListedFile → Prop)
    (listed : List ListedFile) : Prop where
  ascends : listed.Pairwise (·.1 < ·.1)
  mem_iff : ∀ file, file ∈ listed ↔
    tree.entry? (location ++ file.1) = some (.file file.2) ∧ holds file

/-- The file that a walk from a path comes to belongs to the project. -/
structure Config.Takes (config : Config) (path : String) (file : ListedFile) : Prop where
  small : file.2.length ≤ config.maxFileBytes.toNat
  /-- No directory strictly between the start and the file is hidden or holds the work of others. -/
  own : ∀ name ∈ file.1.dropLast, name.toList.head? ≠ some '.' ∧
    name ∉ ["vendor", "node_modules", "target", "__pycache__"]
  /-- No pattern that can be read matches the start, a directory on the way, or the file. -/
  unmatched : ∀ place, place <+: file.1 → ∀ pattern ∈ config.excludedPaths,
    ∀ glob, Glob.parse pattern = .ok glob → glob.matchesPath (Path.below path place) = false

namespace FileTree

variable {tree : FileTree} {location : Location} {holds : ListedFile → Prop}
  {listed : List ListedFile}

theorem Lists.unique {tree' : FileTree} {listed' : List ListedFile}
    (h : tree.Lists location holds listed) (h' : tree'.Lists location holds listed')
    (hentry : tree'.entry? = tree.entry?) : listed' = listed := by
  have : Std.Irrefl fun a b : ListedFile => a.1 < b.1 := ⟨fun a => lt_irrefl a.1⟩
  have : Std.Antisymm fun a b : ListedFile => a.1 < b.1 :=
    ⟨fun a _ hab hba => absurd (hab.trans hba) (lt_irrefl a.1)⟩
  refine h'.ascends.eq_of_mem_iff h.ascends fun file => ?_
  rw [h'.mem_iff, h.mem_iff, hentry]

theorem Lists.filter (h : tree.Lists location holds listed) (keep : ListedFile → Bool) :
    tree.Lists location (fun file => holds file ∧ keep file) (listed.filter keep) where
  ascends := h.ascends.filter _
  mem_iff file := by rw [List.mem_filter, h.mem_iff, and_assoc]

theorem Lists.congr {holds' : ListedFile → Prop} (h : tree.Lists location holds listed)
    (hiff : ∀ file, holds file ↔ holds' file) : tree.Lists location holds' listed where
  ascends := h.ascends
  mem_iff file := by rw [h.mem_iff, hiff]

theorem lists_nil
    (h : ∀ file : ListedFile, tree.entry? (location ++ file.1) = some (.file file.2) →
      ¬holds file) : tree.Lists location holds [] where
  ascends := .nil
  mem_iff file := by
    simp only [List.not_mem_nil, false_iff, not_and]
    exact h file

theorem WellFormed.entry?_append_of_file (hw : tree.WellFormed) {content : List UInt8}
    (h : tree.entry? location = some (.file content)) {rest : Location} {content' : List UInt8} :
    tree.entry? (location ++ rest) = some (.file content') ↔ rest = [] ∧ content' = content := by
  constructor
  · intro hfile
    by_cases hrest : rest = []
    · rw [hrest, List.append_nil, h] at hfile
      cases hfile
      exact ⟨hrest, rfl⟩
    · have hdirectory : tree.entry? location = some .directory :=
        hw.isDirectory_of_append hrest (by simp [hfile])
      rw [h] at hdirectory
      cases hdirectory
  · rintro ⟨rfl, rfl⟩
    rw [List.append_nil, h]

theorem WellFormed.lists_file (hw : tree.WellFormed) {content : List UInt8}
    (h : tree.entry? location = some (.file content)) (hholds : holds ([], content)) :
    tree.Lists location holds [([], content)] where
  ascends := List.pairwise_singleton _ _
  mem_iff file := by
    rw [List.mem_singleton, hw.entry?_append_of_file h, Prod.ext_iff]
    refine ⟨fun heq => ⟨heq, ?_⟩, And.left⟩
    rwa [Prod.ext heq.1 heq.2]

theorem WellFormed.mem_names_of_append (hw : tree.WellFormed) {next : String} {rest : Location}
    (h : tree.entry? (location ++ next :: rest) ≠ none) : next ∈ tree.names location := by
  rw [mem_names_iff]
  rw [List.append_cons] at h
  by_cases hrest : rest = []
  · rwa [hrest, List.append_nil] at h
  · rw [hw.isDirectory_of_append hrest h]
    exact Option.some_ne_none _

/-- The files of entries, each behind the name of its entry. -/
def behindNames (names : List String) (parts : String → List ListedFile) : List ListedFile :=
  names.flatMap fun name => (parts name).map fun file => (name :: file.1, file.2)

theorem mem_behindNames {names : List String} {parts : String → List ListedFile} {next : String}
    {rest : Location} {content : List UInt8} :
    (next :: rest, content) ∈ behindNames names parts ↔
      next ∈ names ∧ (rest, content) ∈ parts next := by
  simp only [behindNames, List.mem_flatMap, List.mem_map, Prod.mk.injEq, List.cons.injEq]
  constructor
  · rintro ⟨name, hname, file, hfile, ⟨rfl, rfl⟩, rfl⟩
    exact ⟨hname, hfile⟩
  · rintro ⟨hname, hfile⟩
    exact ⟨next, hname, (rest, content), hfile, ⟨rfl, rfl⟩, rfl⟩

theorem not_mem_behindNames {names : List String} {parts : String → List ListedFile}
    {content : List UInt8} : ([], content) ∉ behindNames names parts := by
  simp [behindNames]

/-- The files of a directory are those of its entries, one entry behind the other. -/
theorem WellFormed.lists_directory (hw : tree.WellFormed)
    (hdirectory : tree.entry? location = some .directory) {parts : String → List ListedFile}
    (h : ∀ name ∈ tree.names location, tree.Lists (location ++ [name])
      (fun file => holds (name :: file.1, file.2)) (parts name)) :
    tree.Lists location holds (behindNames (tree.names location) parts) where
  ascends := by
    rw [behindNames, List.pairwise_flatMap]
    constructor
    · intro name hname
      refine (h name hname).ascends.map _ fun a b hlt => ?_
      exact List.cons_lt_cons_iff.mpr (Or.inr ⟨rfl, hlt⟩)
    · refine (hw.pairwise_names location).imp fun {a b} hlt x hx y hy => ?_
      obtain ⟨x, _, rfl⟩ := List.mem_map.mp hx
      obtain ⟨y, _, rfl⟩ := List.mem_map.mp hy
      exact List.cons_lt_cons_iff.mpr (Or.inl hlt)
  mem_iff file := by
    rcases file with ⟨_ | ⟨next, rest⟩, content⟩
    · -- the directory itself is no file
      simp [hdirectory, not_mem_behindNames]
    · rw [mem_behindNames, List.append_cons]
      constructor
      · rintro ⟨hname, hfile⟩
        exact ((h next hname).mem_iff _).mp hfile
      · rintro ⟨hentry, hholds⟩
        have hname : next ∈ tree.names location :=
          hw.mem_names_of_append (by rw [List.append_cons, hentry]; exact Option.some_ne_none _)
        exact ⟨hname, ((h next hname).mem_iff _).mpr ⟨hentry, hholds⟩⟩

theorem mapM_eq_ok {α β ε : Type} {f : α → Except ε β} {g : α → β} {l : List α}
    (h : ∀ x ∈ l, f x = .ok (g x)) : l.mapM f = .ok (l.map g) := by
  induction l with
  | nil => rfl
  | cons x rest ih =>
    rw [List.mapM_cons, h x List.mem_cons_self,
      ih fun y hy => h y (List.mem_cons_of_mem _ hy)]
    rfl

section Walk

variable {keep : Visit → Bool} {fuel depth : Nat} {ancestors : List Ancestor} {path name : String}

/-- Without links a walk through a directory that may be entered is a walk through each of its
entries. -/
theorem walkFrom_directory (hl : tree.LinkFree)
    (hdirectory : tree.entry? location = some .directory)
    (hkeep : keep ⟨depth, path, name, true⟩ = true) {parts : String → List ListedFile}
    (hparts : ∀ next ∈ tree.names location,
      tree.walkFrom keep fuel (depth + 1) (⟨location, path⟩ :: ancestors) (location ++ [next])
        (Path.join path next) next =
          .ok ((parts next).map (·.foundFrom (Path.join path next)))) :
    tree.walkFrom keep (fuel + 1) depth ancestors location path name =
      .ok ((behindNames (tree.names location) parts).map (·.foundFrom path)) := by
  have hsteps : ((tree.names location).mapM fun next => do
        let target ← tree.follow (⟨location, path⟩ :: ancestors) location next
          (Path.join path next)
        tree.walkFrom keep fuel (depth + 1) (⟨location, path⟩ :: ancestors) target
          (Path.join path next) next) =
      .ok ((tree.names location).map fun next =>
        (parts next).map (·.foundFrom (Path.join path next))) := by
    refine mapM_eq_ok fun next hnext => ?_
    rw [follow_of_not_isLink (hl.not_isLink _)]
    exact hparts next hnext
  rw [walkFrom, hdirectory]
  simp only [hkeep, Bool.not_true, Bool.false_eq_true, if_false]
  rw [hsteps, behindNames, List.map_flatMap, List.flatMap_def]
  simp only [List.map_map]
  rfl

theorem lists_of_not_keep (hdirectory : tree.entry? location = some .directory)
    (hkeep : keep ⟨depth, path, name, true⟩ = false) :
    tree.Lists location (fun file => Visit.Passes keep depth path name file.1) [] := by
  refine lists_nil ?_
  rintro ⟨_ | ⟨next, rest⟩, content⟩ hfile hpasses
  · simp [hdirectory] at hfile
  · simp [hpasses.1] at hkeep

theorem walkFrom_file_lists (hw : tree.WellFormed) {content : List UInt8}
    (hfile : tree.entry? location = some (.file content)) :
    ∃ listed : List ListedFile,
      tree.walkFrom keep (fuel + 1) depth ancestors location path name =
        .ok (listed.map (·.foundFrom path)) ∧
      tree.Lists location (fun file => Visit.Passes keep depth path name file.1) listed := by
  rw [walkFrom, hfile]
  dsimp only
  split
  · next hkeep => exact ⟨[([], content)], rfl, hw.lists_file hfile hkeep⟩
  · next hkeep =>
    refine ⟨[], rfl, lists_nil fun file hentry hpasses => hkeep ?_⟩
    rwa [((hw.entry?_append_of_file hfile).mp hentry).1] at hpasses

theorem walkFrom_lists (hw : tree.WellFormed) (hl : tree.LinkFree) (keep : Visit → Bool)
    {fuel : Nat} (depth : Nat) (ancestors : List Ancestor) {location : Location}
    (path name : String) (hfuel : tree.below location < fuel) :
    ∃ listed : List ListedFile,
      tree.walkFrom keep fuel depth ancestors location path name =
        .ok (listed.map (·.foundFrom path)) ∧
      tree.Lists location (fun file => Visit.Passes keep depth path name file.1) listed := by
  induction fuel generalizing depth ancestors location path name with
  | zero => exact absurd hfuel (Nat.not_lt_zero _)
  | succ fuel ih =>
    match hentry : tree.entry? location with
    | some .directory =>
      cases hkeep : keep ⟨depth, path, name, true⟩ with
      | false =>
        refine ⟨[], ?_, lists_of_not_keep hentry hkeep⟩
        simp [walkFrom, hentry, hkeep]
      | true =>
        -- every entry is walked through with a path and a depth of its own
        have hparts : ∀ next ∈ tree.names location, ∃ listed : List ListedFile,
            tree.walkFrom keep fuel (depth + 1) (⟨location, path⟩ :: ancestors)
              (location ++ [next]) (Path.join path next) next =
                .ok (listed.map (·.foundFrom (Path.join path next))) ∧
            tree.Lists (location ++ [next]) (fun file =>
              Visit.Passes keep (depth + 1) (Path.join path next) next file.1) listed := by
          intro next hnext
          have hless := below_append_lt (mem_names_iff.mp hnext)
          exact ih _ _ _ _ (by omega)
        choose! parts hwalk hlists using hparts
        refine ⟨_, walkFrom_directory hl hentry hkeep hwalk, ?_⟩
        refine hw.lists_directory hentry fun next hnext => (hlists next hnext).congr ?_
        exact fun file => ⟨fun hpasses => ⟨hkeep, hpasses⟩, And.right⟩
    | some (.file content) => exact walkFrom_file_lists hw hentry
    | some (.link target) => exact absurd ⟨target, hentry⟩ (hl.not_isLink location)
    | none =>
      refine ⟨[], by simp [walkFrom, hentry], lists_nil fun file hfile _ => ?_⟩
      -- nothing is below a location where nothing is
      by_cases hrest : file.1 = []
      · simp [hrest, hentry] at hfile
      · have hsome : tree.entry? (location ++ file.1) ≠ none := by
          rw [hfile]
          exact Option.some_ne_none _
        have hdirectory := hw.isDirectory_of_append hrest hsome
        simp [hentry] at hdirectory

end Walk

end FileTree

theorem isPassedOver_eq_false_iff {name : String} : isPassedOver name = false ↔
    name.toList.head? ≠ some '.' ∧ name ∉ ["vendor", "node_modules", "target", "__pycache__"] := by
  simp [isPassedOver, foreignNames]

namespace Config

variable {config : Config} {path : String}

theorem isExcluded_eq_false_iff : config.isExcluded path = false ↔
    ∀ pattern ∈ config.excludedPaths, ∀ glob, Glob.parse pattern = .ok glob →
      glob.matchesPath path = false := by
  simp only [isExcluded, List.any_eq_false, patternMatches, Bool.not_eq_true]
  refine forall₂_congr fun pattern _ => ?_
  cases Glob.parse pattern <;> simp

/-- The way to a file is free of directories that are passed over, where the first one counts only
below the start of the walk, and of excluded paths. -/
theorem passes_keeps_iff {depth : Nat} {name : String} {way : Location} :
    Visit.Passes config.keeps depth path name way ↔
      (0 < depth → way ≠ [] → isPassedOver name = false) ∧
      (∀ next ∈ way.dropLast, isPassedOver next = false) ∧
      ∀ place, place <+: way → config.isExcluded (Path.below path place) = false := by
  induction way generalizing depth path name with
  | nil => simp [Visit.Passes, keeps, Path.below]
  | cons next rest ih =>
    rw [Visit.Passes, ih]
    have hfree : config.keeps ⟨depth, path, name, true⟩ ↔
        (0 < depth → isPassedOver name = false) ∧ config.isExcluded path = false := by
      simp [keeps, Nat.pos_iff_ne_zero, or_iff_not_imp_left]
    -- the name of the last step is that of the file, which is not passed over
    have hnext : (∀ other ∈ (next :: rest).dropLast, isPassedOver other = false) ↔
        (rest ≠ [] → isPassedOver next = false) ∧
          ∀ other ∈ rest.dropLast, isPassedOver other = false := by
      cases rest <;> simp
    have hplaces : (∀ place, place <+: next :: rest →
          config.isExcluded (Path.below path place) = false) ↔
        config.isExcluded path = false ∧ ∀ place, place <+: rest →
          config.isExcluded (Path.below (Path.join path next) place) = false :=
      forall_prefix_cons_iff
    rw [hfree, hnext, hplaces]
    simp only [Nat.zero_lt_succ, true_implies, ne_eq, reduceCtorEq, not_false_eq_true, and_assoc,
      and_left_comm]

/-- A file belongs to the project iff the walk from the start passes it and it is small enough. -/
theorem takes_iff {file : ListedFile} {name : String} : config.Takes path file ↔
    Visit.Passes config.keeps 0 path name file.1 ∧ config.admits (file.foundFrom path) := by
  simp only [passes_keeps_iff, isPassedOver_eq_false_iff, isExcluded_eq_false_iff, admits,
    ListedFile.foundFrom, Nat.lt_irrefl, false_implies, true_and]
  exact ⟨fun h => ⟨⟨h.own, h.unmatched⟩, decide_eq_true h.small⟩,
    fun h => ⟨of_decide_eq_true h.2, h.1.1, h.1.2⟩⟩

instance (file : ListedFile) : Decidable (config.Takes path file) :=
  decidable_of_iff (Visit.Passes config.keeps 0 path "" file.1 ∧
    config.admits (file.foundFrom path)) takes_iff.symm

end Config

namespace FileTree

variable {tree : FileTree} {here root : Location} {path : String}

theorem below_lt_depthBound (tree : FileTree) (location : Location) :
    tree.below location < tree.depthBound := by
  calc tree.below location ≤ tree.entries.length := tree.below_le location
    _ < tree.entries.length + 2 := by omega
    _ ≤ tree.depthBound := Nat.le_mul_self _

theorem exists_collect_eq (hw : tree.WellFormed) (hl : tree.LinkFree)
    (hroot : tree.locate here path = .ok root) (config : Config) :
    ∃ listed : List ListedFile, tree.collect config here path =
        .ok (listed.map (·.foundFrom path)) ∧
      tree.Lists root (config.Takes path) listed := by
  obtain ⟨walked, hwalk, hlists⟩ := walkFrom_lists hw hl config.keeps 0 [] path
    (((Path.fileName? path).map String.ofList).getD path) (tree.below_lt_depthBound root)
  refine ⟨walked.filter fun file => config.admits (file.foundFrom path), ?_,
    (hlists.filter _).congr fun file => ?_⟩
  · rw [collect, walk, hroot]
    dsimp only
    rw [hwalk]
    simp only [bind, Except.bind, List.filter_map]
    rfl
  · exact Config.takes_iff.symm

/-- Whatever order the entries come in, the files of a project are those below its directory that
are small enough and lead through no directory that is passed over and no excluded path, each of
them once and in the order of their locations. -/
theorem collect_lists (hw : tree.WellFormed) (hl : tree.LinkFree)
    (hroot : tree.locate here path = .ok root) (config : Config) :
    ∃ listed : List ListedFile, tree.Lists root (config.Takes path) listed ∧
      ∀ tree' : FileTree, tree'.entries.Perm tree.entries →
        tree'.collect config here path = .ok (listed.map (·.foundFrom path)) := by
  obtain ⟨listed, _, hlists⟩ := exists_collect_eq hw hl hroot config
  refine ⟨listed, hlists, fun tree' hperm => ?_⟩
  have hentry : tree'.entry? = tree.entry? := entry?_of_perm hperm hw.nodup
  obtain ⟨listed', hcollect, hlists'⟩ := exists_collect_eq (hw.of_perm hperm) (hl.of_perm hperm)
    (by rwa [locate_congr hentry]) config
  rw [hcollect, hlists.unique hlists' hentry]

/-- A project in a directory whose name would be passed over further down. -/
def sampleProject : FileTree :=
  ⟨[(["target", "src", "b.py"], .file [120]), (["target", "src"], .directory),
    (["target", "notes.txt"], .file [120]), (["target"], .directory),
    (["target", ".git", "c.py"], .file [120]), (["target", ".git"], .directory),
    (["target", "a.py"], .file [120, 120, 120]), (["target", ".env"], .file [120])]⟩

/-- A configuration that lets in small files without a certain extension. -/
def sampleConfig : Config where
  maxFileBytes := 2
  excludedPaths := ["**/*.txt"]

theorem lists_sampleProject : sampleProject.Lists ["target"] (sampleConfig.Takes "/target")
    [([".env"], [120]), (["src", "b.py"], [120])] where
  ascends := by decide +kernel
  mem_iff file := by
    constructor
    · simp only [List.mem_cons, List.not_mem_nil, or_false]
      rintro (rfl | rfl)
      · exact ⟨rfl, by decide +kernel⟩
      · exact ⟨rfl, by decide +kernel⟩
    · rintro ⟨hentry, htakes⟩
      have hmem := mem_entries (by simp) hentry
      obtain ⟨way, content⟩ := file
      simp only [sampleProject, List.cons_append, List.nil_append, List.mem_cons, Prod.mk.injEq,
        List.cons.injEq, true_and, FileEntry.file.injEq, reduceCtorEq, and_false,
        List.not_mem_nil, or_false, false_or] at hmem
      -- of the five files the project has two
      obtain h | h | h | h | h := hmem
      all_goals
        obtain ⟨rfl, rfl⟩ := h
        revert htakes
        decide +kernel

/-- In every order of the entries the hidden file comes first and what is in the hidden directory is
left out. -/
theorem collect_lists_sample : sampleProject.WellFormed ∧ sampleProject.LinkFree ∧
    sampleProject.locate [] "/target" = .ok ["target"] ∧
    ∀ tree' : FileTree, tree'.entries.Perm sampleProject.entries →
      tree'.collect sampleConfig [] "/target" =
        .ok [⟨"/target/.env", [120]⟩, ⟨"/target/src/b.py", [120]⟩] := by
  have hw : sampleProject.WellFormed := ⟨by decide +kernel, by decide +kernel⟩
  have hl : sampleProject.LinkFree := by simp [LinkFree, sampleProject]
  have hroot : sampleProject.locate [] "/target" = .ok ["target"] := by
    have hpath : pathOf ["target"] = "/target" := by decide +kernel
    rw [← hpath]
    exact locate_pathOf hw (by decide +kernel) rfl (by decide +kernel)
  refine ⟨hw, hl, hroot, fun tree' hperm => ?_⟩
  obtain ⟨listed, hlists, hcollect⟩ := collect_lists hw hl hroot sampleConfig
  rw [hcollect tree' hperm, lists_sampleProject.unique hlists rfl]
  decide +kernel

end FileTree

end LegacyAudit
