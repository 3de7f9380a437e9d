import LegacyAudit.CommandLine.Run
import LegacyAudit.Proofs.Json.Decoding

/-!
# Which files are let in

A walk finds only files that it may keep, so below a directory nothing is read that the
configuration excludes or that is too large. A file that is named itself is read in any case.

## Main definitions

- `Config.letsIn` - whether the configuration lets a file in
- `Workplace.found` - the files to analyze at a location, with the paths they are found by
- `Workplace.sources_letIn_iff` - when everything that is analyzed has been let in
-/

namespace LegacyAudit

/-- Whether a file is neither excluded nor too large. -/
def Config.letsIn (config : Config) (file : FoundFile) : Bool :=
  config.admits file && !config.isExcluded file.path

theorem exists_of_mem_mapM {α β ε : Type} {f : α → Except ε β} {l : List α} {ys : List β}
    (h : l.mapM f = .ok ys) {y : β} (hy : y ∈ ys) : ∃ x ∈ l, f x = .ok y := by
  induction l generalizing ys with
  | nil =>
    rw [List.mapM_nil] at h
    obtain rfl : [] = ys := Except.ok.inj h
    simp at hy
  | cons x rest ih =>
    rw [List.mapM_cons] at h
    cases hx : f x with
    | error e => simp [hx, bind, Except.bind] at h
    | ok first =>
      cases hrest : rest.mapM f with
      | error e => simp [hx, hrest, bind, Except.bind] at h
      | ok others =>
        rw [hx, hrest] at h
        obtain rfl : first :: others = ys := Except.ok.inj h
        rcases List.mem_cons.mp hy with rfl | hy
        · exact ⟨x, List.mem_cons_self, hx⟩
        · obtain ⟨x', hx', hok⟩ := ih hrest hy
          exact ⟨x', List.mem_cons_of_mem _ hx', hok⟩

namespace FileTree

variable {tree : FileTree} {keep : Visit → Bool} {found : List FoundFile}

theorem keep_of_mem_walkFrom {fuel depth : Nat} {ancestors : List Ancestor} {location : Location}
    {path name : String}
    (h : tree.walkFrom keep fuel depth ancestors location path name = .ok found) :
    ∀ file ∈ found, ∃ depth name, keep ⟨depth, file.path, name, false⟩ = true := by
  induction fuel generalizing depth ancestors location path name found with
  | zero =>
    obtain rfl : [] = found := Except.ok.inj h
    simp
  | succ fuel ih =>
    intro file hfile
    rw [walkFrom] at h
    split at h
    · split at h
      · obtain rfl : [] = found := Except.ok.inj h
        simp at hfile
      · -- a directory: the file comes from the walk through one of the entries
        obtain ⟨parts, hparts, hflat⟩ := exists_of_bind_eq_ok h
        obtain rfl : parts.flatten = found := Except.ok.inj hflat
        obtain ⟨part, hpart, hmem⟩ := List.mem_flatten.mp hfile
        obtain ⟨entry, _, hentry⟩ := exists_of_mem_mapM hparts hpart
        obtain ⟨target, _, hwalk⟩ := exists_of_bind_eq_ok hentry
        exact ih hwalk file hmem
    · split at h
      · next hkeep =>
        obtain rfl := Except.ok.inj h
        obtain rfl := List.mem_singleton.mp hfile
        exact ⟨depth, name, hkeep⟩
      · obtain rfl : [] = found := Except.ok.inj h
        simp at hfile
    · obtain rfl : [] = found := Except.ok.inj h
      simp at hfile

theorem letsIn_of_mem_collect {config : Config} {here : Location} {path : String}
    (h : tree.collect config here path = .ok found) :
    ∀ file ∈ found, config.letsIn file = true := by
  intro file hfile
  obtain ⟨walked, hwalk, hfilter⟩ := exists_of_bind_eq_ok h
  obtain rfl : walked.filter config.admits = found := Except.ok.inj hfilter
  obtain ⟨hmem, hadmits⟩ := List.mem_filter.mp hfile
  rw [walk] at hwalk
  split at hwalk
  · exact absurd hwalk (by simp)
  · obtain ⟨depth, name, hkeep⟩ := keep_of_mem_walkFrom hwalk file hmem
    simp only [Config.keeps, Bool.and_eq_true] at hkeep
    simp [Config.letsIn, hadmits, hkeep.2]

end FileTree

namespace Workplace

/-- The files to analyze at a location with the paths they are found by. -/
def found (w : Workplace) (config : Config) (location : Location) :
    Except WalkError (List FoundFile) :=
  match w.tree.entry? location with
  | some (.file content) => .ok [⟨FileTree.pathOf location, content⟩]
  | _ => w.tree.collect config [] (FileTree.pathOf location)

variable {w : Workplace} {config : Config} {location : Location} {files : List SourceFile}

theorem found_of_file {content : List UInt8}
    (h : w.tree.entry? location = some (.file content)) :
    w.found config location = .ok [⟨FileTree.pathOf location, content⟩] ∧
      w.sources config location = .ok [⟨location.getLast?.getD "", content⟩] := by
  constructor
  · rw [Workplace.found, h]
  · rw [sources, h]

/-- What is analyzed at a directory is what is collected there, named as seen from it. -/
theorem found_of_directory (h : ∀ content, w.tree.entry? location ≠ some (.file content)) :
    w.found config location = w.tree.collect config [] (FileTree.pathOf location) ∧
      w.sources config location = (w.found config location).map fun found => found.map fun file =>
        ⟨(Path.beneath? (FileTree.pathOf location) file.path).getD file.path, file.content⟩ := by
  have hfound : w.found config location =
      w.tree.collect config [] (FileTree.pathOf location) := by
    unfold Workplace.found
    split
    · next content hentry => exact absurd hentry (h content)
    · rfl
  refine ⟨hfound, ?_⟩
  rw [hfound]
  unfold sources
  split
  · next content hentry => exact absurd hentry (h content)
  · change (w.tree.collect config [] (FileTree.pathOf location) >>= fun found => pure _) = _
    cases w.tree.collect config [] (FileTree.pathOf location) <;> rfl

/-- Everything that is analyzed below a directory has been let in by the configuration. A file that
is named itself is analyzed whether the configuration lets it in or not. -/
theorem sources_letIn_iff (h : w.sources config location = .ok files) :
    ∃ found, w.found config location = .ok found ∧
      files.map (·.content) = found.map (·.content) ∧
      ((∀ file ∈ found, config.letsIn file = true) ↔
        ∀ content, w.tree.entry? location = some (.file content) →
          config.letsIn ⟨FileTree.pathOf location, content⟩ = true) := by
  by_cases hfile : ∃ content, w.tree.entry? location = some (.file content)
  · obtain ⟨content, hentry⟩ := hfile
    obtain ⟨hfound, hsources⟩ := @found_of_file w config location content hentry
    obtain rfl := Except.ok.inj (hsources.symm.trans h)
    exact ⟨_, hfound, rfl, by simp [hentry]⟩
  · have hdirectory : ∀ content, w.tree.entry? location ≠ some (.file content) :=
      fun content hentry => hfile ⟨content, hentry⟩
    obtain ⟨hfound, hsources⟩ := @found_of_directory w config location hdirectory
    rw [hsources] at h
    cases hcollect : w.found config location with
    | error e => simp [hcollect, Except.map] at h
    | ok found =>
      rw [hcollect] at h
      obtain rfl := Except.ok.inj h
      refine ⟨found, rfl, by simp, fun _ content hentry => absurd hentry (hdirectory content), ?_⟩
      intro _
      exact FileTree.letsIn_of_mem_collect (hfound.symm.trans hcollect)

/-- A place with a large file beside a small one, where no file may have more than two bytes. -/
def sampleWorkplace : Workplace where
  tree := ⟨[(["work"], .directory), (["work", "a.py"], .file [120]),
    (["work", "b.py"], .file [120, 120, 120])]⟩
  here := ["work"]
  syntaxTrees := fun _ _ => .error "no parser"
  jobId := ⟨7⟩
  now := default

theorem locate_sampleWorkplace : sampleWorkplace.tree.locate [] "/work" = .ok ["work"] := by
  have hsteps : Step.ofPath "/work" = [.root, .name "work"] := by decide
  have hresolve : sampleWorkplace.tree.resolve true [] "/work" =
      sampleWorkplace.tree.resolveSteps true 40 [] (Step.ofPath "/work") := rfl
  rw [hsteps, FileTree.resolveSteps, FileTree.resolveSteps, FileTree.resolveSteps] at hresolve
  rw [FileTree.locate, hresolve]
  rfl

theorem names_sampleWorkplace : sampleWorkplace.tree.names ["work"] = ["a.py", "b.py"] := by
  have hentries : (sampleWorkplace.tree.entries.filterMap fun e =>
      FileTree.nameIn? ["work"] e.1) = ["a.py", "b.py"] := by decide
  rw [FileTree.names, hentries]
  exact List.mergeSort_of_pairwise (by simp)

/-- Below the directory only the small file is let in. -/
theorem sources_letIn_directory :
    ∃ files found, sampleWorkplace.sources { maxFileBytes := 2 } ["work"] = .ok files ∧
      files = [⟨"a.py", [120]⟩] ∧
      sampleWorkplace.found { maxFileBytes := 2 } ["work"] = .ok found ∧
      ∀ file ∈ found, Config.letsIn { maxFileBytes := 2 } file = true := by
  have hentry : sampleWorkplace.tree.entry? ["work"] = some .directory := rfl
  have hnoFile : ∀ content, sampleWorkplace.tree.entry? ["work"] ≠ some (.file content) := by
    simp [hentry]
  obtain ⟨hfound, hsources⟩ :=
    @found_of_directory sampleWorkplace { maxFileBytes := 2 } ["work"] hnoFile
  have hcollect : sampleWorkplace.tree.collect { maxFileBytes := 2 } []
      (FileTree.pathOf ["work"]) = .ok [⟨"/work/a.py", [120]⟩] := by
    have hpath : FileTree.pathOf ["work"] = "/work" := by decide
    have hbound : sampleWorkplace.tree.depthBound = 25 := rfl
    rw [hpath, FileTree.collect, FileTree.walk, locate_sampleWorkplace, hbound]
    simp only [FileTree.walkFrom, hentry, names_sampleWorkplace]
    rfl
  rw [hfound, hcollect] at hsources
  obtain ⟨found, hfound, _, hiff⟩ := sources_letIn_iff hsources
  refine ⟨_, found, hsources, by decide, hfound, hiff.mpr ?_⟩
  intro content hfile
  exact absurd hfile (hnoFile content)

/-- The large file is analyzed if it is named itself, though it is not let in. -/
theorem sources_of_large_file :
    ¬ ∀ (w : Workplace) (config : Config) (location : Location) (files : List SourceFile),
      w.sources config location = .ok files →
        ∀ file ∈ files, file.content.length ≤ config.maxFileBytes.toNat := by
  intro h
  have hsources : sampleWorkplace.sources { maxFileBytes := 2 } ["work", "b.py"] =
      .ok [⟨"b.py", [120, 120, 120]⟩] := rfl
  have hsize := h _ _ _ _ hsources _ List.mem_cons_self
  exact absurd hsize (by decide)

end Workplace

end LegacyAudit
