import LegacyAudit.Proofs.Files.Endings
import LegacyAudit.Proofs.Files.Relocation
import LegacyAudit.Proofs.Job.Completion
import LegacyAudit.Proofs.Job.LaterReads

/-!
# Names of projects

A project that is not given a name is called after the directory or file that is analyzed, but
without what looks like an extension. So directories that differ in the part behind their last dot
make projects of one name.

## Main definitions

- `Workplace.runFiles_eq` - the job of an analysis is about the project that it was submitted for
- `Workplace.analyze_names_project` - the name of the project in a report
- `Workplace.projects_share_name` - two directories with one name for their projects
-/

namespace LegacyAudit

namespace Workplace

variable {w : Workplace} {request : AnalyzeRequest} {config : Config} {parent location : Location}
  {name : String} {files : List SourceFile}

/-- Every list of files makes a job, which is completed and keeps what was said about the
project. -/
theorem runFiles_eq (w : Workplace) (config : Config) (metadata : ProjectMetadata)
    (files : List SourceFile) :
    ∃ job, w.runFiles config metadata files = some job ∧ job.metadata = metadata ∧
      job.status = .completed := by
  obtain ⟨final, now, e, hsubmit, hsteps, hfinal⟩ :=
    (Store.storage_faithful w.now).submit_steps w.syntaxTrees (Chain.standard config) w.now w.jobId
      metadata files {}
  refine ⟨e.job, ?_, (hsteps.continues (Entry.consistent_new ..)).metadata,
    (completion_of_steps (outcomesOf_analyzeFile _ _ files) hsteps).status⟩
  rw [runFiles, hsubmit]
  exact Store.getJob?_of_find? hfinal

theorem analyze_eq (request : AnalyzeRequest)
    (hconfig : w.config (w.configPath? request.configPath) = .ok config)
    (hlocation : w.tree.canonical w.here request.path = .ok location)
    (hsources : w.sources config location = .ok files) (hfiles : files ≠ []) :
    ∃ job, w.runFiles config (metadata request location) files = some job ∧
      job.metadata = metadata request location ∧
      w.analyze request = .ok {
        exitCode := Outcome.success
        output := reportText request (w.configPath? request.configPath) job
        tree := w.tree } := by
  obtain ⟨job, hjob, hmetadata, hstatus⟩ := runFiles_eq w config (metadata request location) files
  refine ⟨job, hjob, hmetadata, ?_⟩
  have hnonempty : files.isEmpty = false := by simpa using hfiles
  simp [analyze, hconfig, hlocation, analyzeAt, hsources, hnonempty, hjob, hstatus, bind,
    Except.bind, pure, Except.pure]

theorem projectName_append (parent : Location) (name : String) :
    projectName (parent ++ [name]) = String.ofList (Path.stem name.toList) := by
  rw [projectName, List.getLast?_concat]

theorem projectName_eq_iff {project : String} :
    projectName (parent ++ [name]) = project ↔ Path.HasStem name.toList project.toList := by
  rw [projectName_append, ← Path.stem_eq_iff, ← String.toList_inj, String.toList_ofList]

/-- The project at a location that is analyzed without being given a name has the name that is found
there, without its extension. That is the whole name exactly if no dot stands behind its first
character, and a name at some other location that is the same without its extension makes a project
of the same name. -/
theorem analyze_names_project (request : AnalyzeRequest) (parent : Location)
    (hrequest : request.name = none)
    (hconfig : w.config (w.configPath? request.configPath) = .ok config)
    (hlocation : w.tree.canonical w.here request.path = .ok (parent ++ [name]))
    (hsources : w.sources config (parent ++ [name]) = .ok files) (hfiles : files ≠ []) :
    ∃ job, w.runFiles config (metadata request (parent ++ [name])) files = some job ∧
      w.analyze request = .ok {
        exitCode := Outcome.success
        output := reportText request (w.configPath? request.configPath) job
        tree := w.tree } ∧
      Path.HasStem name.toList job.metadata.name.toList ∧
      (job.metadata.name = name ↔ Path.IsUndivided name.toList) ∧
      ∀ (elsewhere : Location) (other : String),
        projectName (elsewhere ++ [other]) = job.metadata.name ↔
          Path.HasStem other.toList job.metadata.name.toList := by
  obtain ⟨job, hjob, hmetadata, hanalyze⟩ := analyze_eq request hconfig hlocation hsources hfiles
  have hname : projectName (parent ++ [name]) = job.metadata.name := by
    rw [hmetadata, metadata, hrequest, Option.getD_none]
  refine ⟨job, hjob, hanalyze, projectName_eq_iff.mp hname, ?_, fun _ _ => projectName_eq_iff⟩
  rw [← hname, projectName_append, ← Path.stem_eq_self_iff, ← String.toList_inj,
    String.toList_ofList]

/-- Two releases of a ledger beside each other, with a note in each of them. -/
def sampleReleases : Workplace where
  tree := ⟨[(["ledger.v1"], .directory), (["ledger.v1", "notes"], .file [120]),
    (["ledger.v2"], .directory), (["ledger.v2", "notes"], .file [120])]⟩
  here := []
  syntaxTrees := fun _ _ => .error "no parser"
  jobId := ⟨7⟩
  now := default

theorem configPath?_sampleReleases : sampleReleases.configPath? none = none := by
  have hfree : ∀ name ∈ configNames, sampleReleases.tree.pathIsFile [] name = false := by
    intro name hname
    have hentry : IsName name ∧ sampleReleases.tree.entry? [name] = none := by
      revert name
      decide
    rw [FileTree.pathIsFile, FileTree.locate_of_none hentry.1 rfl hentry.2]
  have hnone : configName? sampleReleases.tree sampleReleases.here = none := by
    rw [configName?, List.find?_eq_none]
    intro name hname
    rw [show sampleReleases.here = [] from rfl, hfree name hname]
    exact Bool.false_ne_true
  rw [configPath?, hnone]
  rfl

theorem config_sampleReleases :
    sampleReleases.config (sampleReleases.configPath? none) = .ok {} := by
  rw [configPath?_sampleReleases]
  rfl

theorem canonical_sampleReleases {name : String} (h : name ∈ ["ledger.v1", "ledger.v2"]) :
    sampleReleases.tree.canonical sampleReleases.here name = .ok [name] := by
  have hentry : IsName name ∧ sampleReleases.tree.entry? [name] = some .directory := by
    revert name
    decide
  exact FileTree.canonical_of_directory hentry.1 rfl hentry.2

theorem sources_sampleReleases {name : String} (h : name ∈ ["ledger.v1", "ledger.v2"]) :
    sampleReleases.sources {} [name] = .ok [⟨"notes", [120]⟩] := by
  have hw : sampleReleases.tree.WellFormed := ⟨by decide, by decide⟩
  have hnamed : sampleReleases.tree.Named := by
    unfold FileTree.Named
    decide
  have hentries : sampleReleases.tree.entry? [name] = some .directory ∧
      (FileTree.pathOf [name]).utf8ByteSize ≤ FileTree.pathLimit ∧
      sampleReleases.tree.entry? [name, "notes"] = some (.file [120]) ∧
      (sampleReleases.tree.entries.filterMap fun e => FileTree.nameIn? [name] e.1) = ["notes"] ∧
      (FoundFile.seenFrom (FileTree.pathOf [name])
        ⟨Path.join (FileTree.pathOf [name]) "notes", [120]⟩) = ⟨"notes", [120]⟩ := by
    clear hw hnamed
    revert name
    decide
  obtain ⟨hentry, hsize, hnotes, hin, hseen⟩ := hentries
  have hnames : sampleReleases.tree.names [name] = ["notes"] := by
    rw [FileTree.names, hin]
    exact List.mergeSort_of_pairwise (by simp)
  obtain ⟨start, hsources⟩ := exists_sources_eq ⟨hw, hnamed, hentry, hsize⟩ {}
  have hfollow (ancestors : List Ancestor) (path : String) :
      sampleReleases.tree.follow ancestors [name] "notes" path = .ok [name, "notes"] := by
    rw [FileTree.follow, List.singleton_append, hnotes]
  obtain ⟨levels, hbound⟩ : ∃ levels, sampleReleases.tree.depthBound = levels + 1 + 1 :=
    ⟨34, rfl⟩
  have hfound : sampleReleases.tree.walkFrom (Config.keeps {}) (levels + 1 + 1) 0 [] [name]
      (FileTree.pathOf [name]) start =
        .ok [⟨Path.join (FileTree.pathOf [name]) "notes", [120]⟩] := by
    simp [FileTree.walkFrom, hentry, hnames, hfollow, hnotes, Config.keeps, Config.isExcluded, bind,
      Except.bind, pure, Except.pure]
  rw [hsources, hbound, hfound]
  simp only [Except.map, List.filter]
  exact congrArg (fun file => Except.ok [file]) hseen

/-- Both releases make a project that is called after what their names have in common. -/
theorem projects_share_name :
    (¬∀ (w : Workplace) (request : AnalyzeRequest) (config : Config) (parent : Location)
      (name : String) (files : List SourceFile) (job : Job), request.name = none →
        w.config (w.configPath? request.configPath) = .ok config →
        w.tree.canonical w.here request.path = .ok (parent ++ [name]) →
        w.tree.entry? (parent ++ [name]) = some .directory →
        w.sources config (parent ++ [name]) = .ok files → files ≠ [] →
        w.runFiles config (metadata request (parent ++ [name])) files = some job →
        job.metadata.name = name) ∧
      ∀ name ∈ ["ledger.v1", "ledger.v2"], ∃ job,
        sampleReleases.runFiles {} (metadata { path := name } [name]) [⟨"notes", [120]⟩] =
          some job ∧ job.metadata.name = "ledger" := by
  have hshared : ∀ name ∈ ["ledger.v1", "ledger.v2"], ∃ job,
      sampleReleases.runFiles {} (metadata { path := name } [name]) [⟨"notes", [120]⟩] =
        some job ∧ job.metadata.name = "ledger" := by
    intro name hname
    have hproject : projectName [name] = "ledger" := by
      revert name
      decide
    obtain ⟨job, hjob, hmetadata, _⟩ := analyze_eq { path := name }
      config_sampleReleases (canonical_sampleReleases hname) (sources_sampleReleases hname)
      (List.cons_ne_nil _ _)
    exact ⟨job, hjob, by rw [hmetadata, metadata, Option.getD_none, hproject]⟩
  refine ⟨fun h => ?_, hshared⟩
  have hfirst : "ledger.v1" ∈ ["ledger.v1", "ledger.v2"] := List.mem_cons_self
  obtain ⟨job, hjob, hname⟩ := hshared _ hfirst
  have hown := h sampleReleases { path := "ledger.v1" } {} [] "ledger.v1" _ job rfl
    config_sampleReleases (canonical_sampleReleases hfirst) rfl (sources_sampleReleases hfirst)
    (List.cons_ne_nil _ _) hjob
  exact absurd (hname.symm.trans hown) (by decide)

/-- The note in the second release is analyzed as part of a project that lacks the release. -/
theorem analyze_names_project_release :
    ∃ job, sampleReleases.runFiles {} (metadata { path := "ledger.v2" } ["ledger.v2"])
        [⟨"notes", [120]⟩] = some job ∧
      sampleReleases.analyze { path := "ledger.v2" } = .ok {
        exitCode := Outcome.success
        output := reportText { path := "ledger.v2" } none job
        tree := sampleReleases.tree } ∧
      job.metadata.name = "ledger" := by
  have hsecond : "ledger.v2" ∈ ["ledger.v1", "ledger.v2"] := by simp
  obtain ⟨job, hjob, hanalyze, hstem, _⟩ := analyze_names_project { path := "ledger.v2" } [] rfl
    config_sampleReleases (canonical_sampleReleases hsecond) (sources_sampleReleases hsecond)
    (List.cons_ne_nil _ _)
  rw [configPath?_sampleReleases] at hanalyze
  refine ⟨job, hjob, hanalyze, String.toList_inj.mp ?_⟩
  rw [← Path.stem_eq_iff.mpr hstem]
  decide

end Workplace

end LegacyAudit
