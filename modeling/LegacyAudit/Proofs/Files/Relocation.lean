import LegacyAudit.Proofs.Files.Admission
import LegacyAudit.Proofs.Files.Depth
import LegacyAudit.Proofs.Files.Matching

/-!
# Moving a project

The patterns of a configuration are matched against whole paths, so the directories above a project
have a say in what is excluded. Apart from that it does not matter where a project is: its files are
named as seen from its directory, and a walk sees only what is below.

## Main definitions

- `FileTree.Hosts` - a project can be in a directory
- `Workplace.sources_relocated` - a project in one place and in another
- `Workplace.sources_depend_on_place` - a pattern that matches a directory above
-/

namespace LegacyAudit

/-- A project can be in a directory: the directory is in a tree in which everything has a name, and
its path is short enough to be followed. -/
structure FileTree.Hosts (tree : FileTree) (location : Location) : Prop where
  wellFormed : tree.WellFormed
  named : tree.Named
  directory : tree.entry? location = some .directory
  size_le : (FileTree.pathOf location).utf8ByteSize ≤ FileTree.pathLimit

/-- A file that a walk from a path found, named as seen from there. -/
def FoundFile.seenFrom (root : String) (file : FoundFile) : SourceFile :=
  ⟨(Path.beneath? root file.path).getD file.path, file.content⟩

namespace FileTree

variable {tree tree' : FileTree} {location location' way : Location}

theorem Named.isName (h : tree.Named) (hentry : tree.entry? location ≠ none) :
    ∀ name ∈ location, IsName name := by
  by_cases hlocation : location = []
  · simp [hlocation]
  · obtain ⟨entry, hentry⟩ := Option.ne_none_iff_exists'.mp hentry
    exact h _ (mem_entries hlocation hentry)

theorem Reaches.isName (hreaches : tree.Reaches location way) (h : tree.Named) :
    ∀ name ∈ way, IsName name := by
  have hfirst : ∀ {location : Location} {name : String}, name ∈ tree.names location →
      IsName name := fun hname => h.isName (mem_names_iff.mp hname) _ (by simp)
  induction hreaches with
  | start => simp
  | plain hname _ _ ih => exact List.forall_mem_cons.mpr ⟨hfirst hname, ih⟩
  | link hname _ _ _ ih => exact List.forall_mem_cons.mpr ⟨hfirst hname, ih⟩

theorem Hosts.isName (h : tree.Hosts location) : ∀ name ∈ location, IsName name :=
  h.named.isName (by simp [h.directory])

end FileTree

namespace Workplace

open FileTree

variable {w w' : Workplace} {location location' : Location}

/-- The files to analyze in a directory are those that a walk through it finds, as seen from
there. -/
theorem exists_sources_eq (h : w.tree.Hosts location) (config : Config) :
    ∃ name, w.sources config location =
      (w.tree.walkFrom config.keeps w.tree.depthBound 0 [] location (pathOf location) name).map
        fun found => (found.filter config.admits).map (·.seenFrom (pathOf location)) := by
  obtain ⟨hfound, hsources⟩ := @found_of_directory w config location (by simp [h.directory])
  have hroot := locate_pathOf h.wellFormed h.isName h.directory h.size_le
  refine ⟨((Path.fileName? (pathOf location)).map String.ofList).getD (pathOf location), ?_⟩
  rw [hsources, hfound, FileTree.collect, walk, hroot]
  dsimp only
  cases w.tree.walkFrom config.keeps w.tree.depthBound 0 [] location (pathOf location)
    (((Path.fileName? (pathOf location)).map String.ofList).getD (pathOf location)) <;> rfl

/-- As seen from its directory a file does not tell where the directory is. -/
theorem seenFrom_foundFrom {file : ListedFile} (hlocation : ∀ name ∈ location, IsName name)
    (hfile : ∀ name ∈ file.1, IsName name) :
    (file.foundFrom (pathOf location)).seenFrom (pathOf location) =
      ⟨"/".intercalate file.1, file.2⟩ := by
  rw [FoundFile.seenFrom, ListedFile.foundFrom, below_pathOf hlocation hfile,
    beneath?_pathOf hfile, Option.getD_some]

theorem sources_of_walkedAlike (config : Config)
    {walked walked' : Except WalkError (List FoundFile)}
    (hlocation : ∀ name ∈ location, IsName name) (hlocation' : ∀ name ∈ location', IsName name)
    (h : WalkedAlike (fun way => ∀ name ∈ way, IsName name) (pathOf location) (pathOf location')
      walked walked') :
    (walked.map fun found => (found.filter config.admits).map
        (·.seenFrom (pathOf location))).toOption =
      (walked'.map fun found => (found.filter config.admits).map
        (·.seenFrom (pathOf location'))).toOption := by
  cases h with
  | broken e e' => rfl
  | found listed hlisted =>
    simp only [Except.map, Except.toOption, Option.some_inj, List.filter_map]
    rw [List.map_map, List.map_map]
    refine List.map_congr_left fun file hfile => ?_
    have hname := hlisted file (List.mem_of_mem_filter hfile)
    rw [Function.comp_apply, Function.comp_apply, seenFrom_foundFrom hlocation hname,
      seenFrom_foundFrom hlocation' hname]

/-- A project leads to the same files to analyze wherever it is, or its walk breaks off in both
places, if the configuration excludes the same of the paths that start at the root of the tree. -/
theorem sources_relocated {matched : Location → Location → Prop} (config : Config)
    (h : w.tree.Hosts location) (h' : w'.tree.Hosts location')
    (hmatching : Matching w.tree w'.tree matched) (hmatched : matched location location')
    (hexcluded : ∀ way, w.tree.Reaches location way →
      config.isExcluded (pathOf (location ++ way)) =
        config.isExcluded (pathOf (location' ++ way))) :
    (w.sources config location).toOption = (w'.sources config location').toOption := by
  have hbelow : ∀ way, w.tree.Reaches location way →
      config.isExcluded (Path.below (pathOf location) way) =
        config.isExcluded (Path.below (pathOf location') way) := by
    intro way hway
    have hnames := hway.isName h.named
    rw [below_pathOf h.isName hnames, below_pathOf h'.isName hnames, hexcluded way hway]
  have hle := Nat.le_max_left w.tree.depthBound w'.tree.depthBound
  have hle' := Nat.le_max_right w.tree.depthBound w'.tree.depthBound
  obtain ⟨name, hsources⟩ := exists_sources_eq h config
  obtain ⟨name', hsources'⟩ := exists_sources_eq h' config
  rw [hsources, hsources', walkFrom_depthBound hle, walkFrom_depthBound hle']
  refine sources_of_walkedAlike config h.isName h'.isName (WalkedAlike.mono
    (hmatching.walkFrom_alike config ?_ hmatched ?_ hbelow) fun way hway => hway.isName h.named)
  · exact .nil
  · exact fun hlt => absurd hlt (lt_irrefl 0)

/-- A place with two directories, each with a file and a link to it. -/
def sampleMove : Workplace where
  tree := ⟨[(["build"], .directory), (["build", "a"], .file [120]), (["build", "b"], .link "a"),
    (["src"], .directory), (["src", "a"], .file [120]), (["src", "b"], .link "a")]⟩
  here := []
  syntaxTrees := fun _ _ => .error "no parser"
  jobId := ⟨7⟩
  now := default

theorem wellFormed_sampleMove : sampleMove.tree.WellFormed :=
  ⟨by decide, by decide⟩

theorem hosts_sampleMove : sampleMove.tree.Hosts ["build"] ∧ sampleMove.tree.Hosts ["src"] := by
  have hnamed : sampleMove.tree.Named := by
    unfold Named
    decide
  exact ⟨⟨wellFormed_sampleMove, hnamed, rfl, by decide⟩,
    ⟨wellFormed_sampleMove, hnamed, rfl, by decide⟩⟩

theorem locate_sampleMove : sampleMove.tree.locate ["build"] "b" = .ok ["build", "a"] ∧
    sampleMove.tree.locate ["src"] "b" = .ok ["src", "a"] := by
  have hnames : IsName "a" ∧ IsName "b" := by decide
  obtain ⟨ha, hb⟩ := hnames
  constructor
  · exact locate_of_link hb ha rfl rfl rfl (by rintro _ ⟨⟩)
  · exact locate_of_link hb ha rfl rfl rfl (by rintro _ ⟨⟩)

theorem eq_of_isLink_sampleMove {way : Location} {name : String}
    (h : sampleMove.tree.IsLink (["build"] ++ way ++ [name])) : way = [] ∧ name = "b" := by
  obtain ⟨target, htarget⟩ := h
  have hmem := mem_entries (by simp) htarget
  match way with
  | [] => simp_all [sampleMove]
  | _ :: _ => simp [sampleMove] at hmem

theorem sameBelow_sampleMove : SameBelow sampleMove.tree sampleMove.tree ["build"] ["src"] where
  entries way := by
    match way with
    | [] => rfl
    | [name] => simp [sampleMove, entry?, List.lookup_cons]
    | _ :: _ :: _ => simp [sampleMove, entry?, List.lookup_cons]
  links way name hlink := by
    obtain ⟨rfl, rfl⟩ := eq_of_isLink_sampleMove hlink
    exact Or.inl ⟨["a"], locate_sampleMove⟩

theorem names_sampleMove : sampleMove.tree.names ["src"] = ["a", "b"] := by
  have hentries : (sampleMove.tree.entries.filterMap fun e => nameIn? ["src"] e.1) =
      ["a", "b"] := by decide
  rw [names, hentries]
  exact List.mergeSort_of_pairwise (by simp)

/-- The file is analyzed under its own name and under that of the link, unless it is excluded. -/
theorem sources_sampleMove {patterns : List String}
    (h : ∀ path ∈ ["/src", "/src/a", "/src/b"],
      Config.isExcluded { excludedPaths := patterns } path = false) :
    sampleMove.sources { excludedPaths := patterns } ["src"] =
      .ok [⟨"a", [120]⟩, ⟨"b", [120]⟩] := by
  obtain ⟨name, hsources⟩ := exists_sources_eq hosts_sampleMove.2 { excludedPaths := patterns }
  obtain ⟨levels, hbound⟩ : ∃ levels, sampleMove.tree.depthBound = levels + 1 + 1 := ⟨62, rfl⟩
  have hpath : pathOf ["src"] = "/src" := by decide
  have hjoin : Path.join "/src" "a" = "/src/a" ∧ Path.join "/src" "b" = "/src/b" := by
    decide
  have hsrc : sampleMove.tree.entry? ["src"] = some .directory := rfl
  have hplain : sampleMove.tree.follow [⟨["src"], "/src"⟩] ["src"] "a" "/src/a" =
      .ok ["src", "a"] := rfl
  have hlink : sampleMove.tree.follow [⟨["src"], "/src"⟩] ["src"] "b" "/src/b" =
      .ok ["src", "a"] := follow_of_notMem ⟨"a", rfl⟩ locate_sampleMove.2 (by simp)
  have hfound : sampleMove.tree.walkFrom (Config.keeps { excludedPaths := patterns })
      (levels + 1 + 1) 0 [] ["src"] "/src" name = .ok [⟨"/src/a", [120]⟩, ⟨"/src/b", [120]⟩] := by
    simp only [List.forall_mem_cons] at h
    simp only [walkFrom, hsrc, names_sampleMove, List.mapM_cons, hjoin, hplain, hlink,
      Config.keeps, h]
    rfl
  rw [hsources, hbound, hpath, hfound]
  rfl

theorem reaches_sampleMove {way : Location} (h : sampleMove.tree.Reaches ["build"] way) :
    way ∈ [[], ["a"], ["b"]] := by
  have hdeep : ∀ name way, sampleMove.tree.Reaches ["build", name] way → way = [] := by
    intro name way hway
    have hnone : ∀ next, next ∉ sampleMove.tree.names ["build", name] := by
      intro next
      rw [mem_names_iff]
      simp [sampleMove, entry?, List.lookup_cons]
    cases hway with
    | start => rfl
    | plain hnext => exact absurd hnext (hnone _)
    | link hnext => exact absurd hnext (hnone _)
  have hnames : sampleMove.tree.names ["build"] = ["a", "b"] :=
    ((sameBelow_sampleMove.matching wellFormed_sampleMove wellFormed_sampleMove).names
      ⟨[], rfl, rfl⟩ rfl).trans names_sampleMove
  cases h with
  | start => simp
  | plain hname _ hrest =>
    rw [hnames] at hname
    rw [hdeep _ _ hrest]
    simpa using hname
  | @link _ _ _ name _ hlink hleads hrest =>
    -- the only link leads to the file beside it
    obtain ⟨_, rfl⟩ := @eq_of_isLink_sampleMove [] name hlink
    rw [locate_sampleMove.1] at hleads
    obtain rfl := Except.ok.inj hleads
    rw [hdeep _ _ hrest]
    simp

/-- A project is analyzed in the one directory and not in the other, where a pattern matches the
directory itself. -/
theorem sources_depend_on_place :
    ¬∀ (w : Workplace) (config : Config) (location location' : Location),
      w.tree.Hosts location → w.tree.Hosts location' →
        SameBelow w.tree w.tree location location' →
          (w.sources config location).toOption = (w.sources config location').toOption := by
  intro h
  have hbuild : sampleMove.sources { excludedPaths := ["**/build"] } ["build"] = .ok [] := by
    obtain ⟨name, hsources⟩ :=
      exists_sources_eq hosts_sampleMove.1 { excludedPaths := ["**/build"] }
    obtain ⟨levels, hbound⟩ : ∃ levels, sampleMove.tree.depthBound = levels + 1 := ⟨63, rfl⟩
    have hentry : sampleMove.tree.entry? ["build"] = some .directory := rfl
    have hroot : Config.isExcluded { excludedPaths := ["**/build"] } (pathOf ["build"]) := by
      decide +kernel
    rw [hsources, hbound, walkFrom, hentry]
    simp [Config.keeps, hroot, Except.map]
  have heq := h sampleMove { excludedPaths := ["**/build"] } _ _ hosts_sampleMove.1
    hosts_sampleMove.2 sameBelow_sampleMove
  rw [hbuild, sources_sampleMove (by decide +kernel)] at heq
  simp [Except.toOption] at heq

/-- A pattern that matches neither directory makes no difference. -/
theorem sources_relocated_sample :
    (sampleMove.sources { excludedPaths := ["**/*.txt"] } ["build"]).toOption =
      (sampleMove.sources { excludedPaths := ["**/*.txt"] } ["src"]).toOption ∧
    sampleMove.sources { excludedPaths := ["**/*.txt"] } ["src"] =
      .ok [⟨"a", [120]⟩, ⟨"b", [120]⟩] := by
  refine ⟨?_, sources_sampleMove (by decide +kernel)⟩
  refine sources_relocated _ hosts_sampleMove.1 hosts_sampleMove.2
    (sameBelow_sampleMove.matching wellFormed_sampleMove wellFormed_sampleMove) ⟨[], rfl, rfl⟩ ?_
  intro way hway
  have hfree : ∀ way ∈ [[], ["a"], ["b"]],
      Config.isExcluded { excludedPaths := ["**/*.txt"] } (pathOf (["build"] ++ way)) =
        Config.isExcluded { excludedPaths := ["**/*.txt"] } (pathOf (["src"] ++ way)) := by
    decide +kernel
  exact hfree way (reaches_sampleMove hway)

end Workplace

end LegacyAudit
