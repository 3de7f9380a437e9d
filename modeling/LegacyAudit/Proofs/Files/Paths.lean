import LegacyAudit.Proofs.Files.Shape

/-!
# The paths of locations

Where the names of a tree are fit for paths, the path of a location is made of its names and leads
back to it. The path by which a walk comes to something below its start begins with the path of the
start, and what remains of it does not tell where the start is.

## Main definitions

- `IsName` - what an entry of a directory can be called
- `FileTree.Named` - everything in a tree has such a name
- `Path.below` - the path by which a walk comes to a location below its start
- `FileTree.locate_pathOf` - the path of a directory leads to it
- `FileTree.below_pathOf`, `FileTree.beneath?_pathOf` - down from a directory, and seen from there
- `FileTree.resolveSteps_name` - a name is a path to what it names
-/

namespace LegacyAudit

open LegacyAudit.Text

/-- An entry of a directory can have the name. -/
structure IsName (name : String) : Prop where
  ne_nil : name.toList ≠ []
  ne_dot : name.toList ≠ ['.']
  ne_dots : name.toList ≠ ['.', '.']
  slash_notMem : '/' ∉ name.toList
  zero_notMem : '\x00' ∉ name.toList
  size_le : name.utf8ByteSize ≤ FileTree.nameLimit

/-- Everything in the tree has a name that it can have. -/
def FileTree.Named (tree : FileTree) : Prop :=
  ∀ entry ∈ tree.entries, ∀ name ∈ entry.1, IsName name

/-- The path by which a walk that started at a path comes to a location below it. -/
def Path.below (path : String) (location : Location) : String :=
  location.foldl Path.join path

instance (name : String) : Decidable (IsName name) :=
  decidable_of_iff (name.toList ≠ [] ∧ name.toList ≠ ['.'] ∧ name.toList ≠ ['.', '.'] ∧
      '/' ∉ name.toList ∧ '\x00' ∉ name.toList ∧ name.utf8ByteSize ≤ FileTree.nameLimit)
    ⟨fun ⟨h₁, h₂, h₃, h₄, h₅, h₆⟩ => ⟨h₁, h₂, h₃, h₄, h₅, h₆⟩,
      fun ⟨h₁, h₂, h₃, h₄, h₅, h₆⟩ => ⟨h₁, h₂, h₃, h₄, h₅, h₆⟩⟩

theorem forall_prefix_cons_iff {α : Type} {first : α} {rest : List α} {holds : List α → Prop} :
    (∀ place, place <+: first :: rest → holds place) ↔
      holds [] ∧ ∀ place, place <+: rest → holds (first :: place) := by
  constructor
  · exact fun h => ⟨h [] List.nil_prefix, fun place hplace =>
      h _ ((List.prefix_cons_inj first).mpr hplace)⟩
  · rintro ⟨hnil, hcons⟩ place hplace
    rcases List.prefix_cons_iff.mp hplace with rfl | ⟨place, rfl, hrest⟩
    · exact hnil
    · exact hcons place hrest

section

variable {separator : Char} {part : List Char}

theorem splitAtEvery_of_notMem (h : separator ∉ part) : splitAtEvery separator part = [part] := by
  induction part with
  | nil => rfl
  | cons c rest ih =>
    obtain ⟨hne, hrest⟩ := not_or.mp (List.mem_cons.not.mp h)
    rw [splitAtEvery, if_neg (Ne.symm hne), ih hrest]

theorem splitAtEvery_append (h : separator ∉ part) (rest : List Char) :
    splitAtEvery separator (part ++ separator :: rest) = part :: splitAtEvery separator rest := by
  induction part with
  | nil => rw [List.nil_append, splitAtEvery, if_pos rfl]
  | cons c others ih =>
    obtain ⟨hne, hrest⟩ := not_or.mp (List.mem_cons.not.mp h)
    rw [List.cons_append, splitAtEvery, if_neg (Ne.symm hne), ih hrest]

theorem splitAtEvery_names {location : Location} (hpart : '/' ∉ part)
    (h : ∀ name ∈ location, IsName name) :
    splitAtEvery '/' (part ++ location.flatMap fun name => '/' :: name.toList) =
      part :: location.map String.toList := by
  induction location generalizing part with
  | nil => rw [List.flatMap_nil, List.append_nil, splitAtEvery_of_notMem hpart, List.map_nil]
  | cons name rest ih =>
    obtain ⟨hname, hrest⟩ := List.forall_mem_cons.mp h
    rw [List.flatMap_cons, List.cons_append, splitAtEvery_append hpart, ih hname.slash_notMem hrest,
      List.map_cons]

/-- A text that begins with a name has nothing at its front that does not count. -/
theorem withoutLead_of_isName {name : String} (h : IsName name) (rest : List Char) :
    Path.withoutLead (name.toList ++ rest) = name.toList ++ rest := by
  obtain ⟨first, others, hname⟩ := List.exists_cons_of_ne_nil h.ne_nil
  rw [hname, List.cons_append]
  unfold Path.withoutLead
  split
  · next hfirst =>
    obtain ⟨rfl, _⟩ := List.cons.inj hfirst
    exact absurd (by simp [hname]) h.slash_notMem
  · next hsecond =>
    -- the slash could only be the second character of the name
    obtain ⟨rfl, hothers⟩ := List.cons.inj hsecond
    cases others with
    | nil => exact absurd hname h.ne_dot
    | cons second more =>
      obtain ⟨rfl, _⟩ := List.cons.inj hothers
      exact absurd (by simp [hname]) h.slash_notMem
  · next hdot =>
    obtain ⟨rfl, hothers⟩ := List.cons.inj hdot
    rw [(List.append_eq_nil_iff.mp hothers).1] at hname
    exact absurd hname h.ne_dot
  · rfl

end

namespace FileTree

variable {tree : FileTree} {location way : Location} {name : String}

theorem toList_pathOf (h : location ≠ []) :
    (pathOf location).toList = location.flatMap fun name => '/' :: name.toList := by
  induction location with
  | nil => exact absurd rfl h
  | cons name rest ih =>
    by_cases hrest : rest = []
    · simp [hrest, pathOf]
    · rw [List.flatMap_cons, ← ih hrest, pathOf, String.intercalate_cons_of_ne_nil hrest, pathOf]
      simp

theorem getLast?_pathOf (h : location ≠ []) (hnames : ∀ name ∈ location, IsName name) :
    (pathOf location).toList.getLast? ≠ some '/' := by
  obtain ⟨front, last, rfl⟩ := (List.eq_nil_or_concat' location).resolve_left h
  have hlast : IsName last := hnames last (by simp)
  obtain ⟨others, final, hfinal⟩ := (List.eq_nil_or_concat' last.toList).resolve_left hlast.ne_nil
  rw [toList_pathOf h, List.flatMap_append, List.flatMap_singleton, hfinal, ← List.cons_append,
    ← List.append_assoc, List.getLast?_concat, Ne, Option.some_inj]
  rintro rfl
  exact hlast.slash_notMem (by simp [hfinal])

theorem filterMap_ofText? (hnames : ∀ name ∈ location, IsName name) :
    (location.map String.toList).filterMap Step.ofText? = location.map .name := by
  rw [List.filterMap_map, ← List.filterMap_eq_map]
  refine List.filterMap_congr fun name hname => ?_
  have h := hnames name hname
  simp [Step.ofText?, h.ne_nil, h.ne_dot, h.ne_dots]

theorem ofPath_pathOf (h : location ≠ []) (hnames : ∀ name ∈ location, IsName name) :
    Step.ofPath (pathOf location) = .root :: location.map .name := by
  have hhead : (pathOf location).toList.head? = some '/' := by
    simp [pathOf]
  have hsplit : splitAtEvery '/' (pathOf location).toList = [] :: location.map String.toList := by
    rw [toList_pathOf h]
    exact splitAtEvery_names List.not_mem_nil hnames
  rw [Step.ofPath, if_pos hhead, if_neg (getLast?_pathOf h hnames), hsplit]
  simp [filterMap_ofText? hnames, Step.ofText?]

theorem resolveSteps_names {last : Bool} {links : Nat} {here : Location}
    (hnames : ∀ name ∈ way, IsName name)
    (h : ∀ place, place <+: way → tree.isDirectory (here ++ place)) :
    tree.resolveSteps last links here (way.map .name) = .ok (.present (here ++ way)) := by
  induction way generalizing here with
  | nil => simp [resolveSteps]
  | cons name rest ih =>
    obtain ⟨hname, hrest⟩ := List.forall_mem_cons.mp hnames
    obtain ⟨hhere, hbelow⟩ := forall_prefix_cons_iff.mp h
    have hentry : tree.entry? (here ++ [name]) = some .directory :=
      of_decide_eq_true (hbelow [] List.nil_prefix)
    rw [List.append_nil] at hhere
    rw [List.map_cons, resolveSteps, List.append_cons here name rest]
    simp only [hhere, Bool.not_true, Bool.false_eq_true, if_false,
      if_neg (Nat.not_lt.mpr hname.size_le), hentry]
    refine ih hrest fun place hplace => ?_
    rw [← List.append_cons]
    exact hbelow place hplace

theorem zero_notMem_pathOf (hnames : ∀ name ∈ location, IsName name) :
    '\x00' ∉ (pathOf location).toList := by
  by_cases hlocation : location = []
  · simp [hlocation, pathOf]
  · rw [toList_pathOf hlocation, List.mem_flatMap]
    rintro ⟨name, hname, hzero⟩
    exact (hnames name hname).zero_notMem (List.mem_of_ne_of_mem (by decide) hzero)

/-- The path of a directory leads to it if it is short enough to be followed. -/
theorem locate_pathOf (hw : tree.WellFormed) (hnames : ∀ name ∈ location, IsName name)
    (h : tree.entry? location = some .directory)
    (hsize : (pathOf location).utf8ByteSize ≤ pathLimit) :
    tree.locate [] (pathOf location) = .ok location := by
  have hsteps : tree.resolveSteps true linkLimit [] (Step.ofPath (pathOf location)) =
      .ok (.present location) := by
    by_cases hlocation : location = []
    · have hroot : Step.ofPath (pathOf []) = [.root, .slash] := by decide +kernel
      rw [hlocation, hroot]
      simp [resolveSteps, isDirectory, entry?]
    · rw [ofPath_pathOf hlocation hnames, resolveSteps]
      refine resolveSteps_names hnames fun place hplace => ?_
      exact hw.isDirectory_of_prefix h hplace
  have hzero : ¬(pathOf location).toList.contains '\x00' = true := by
    rw [List.contains_iff_mem]
    exact zero_notMem_pathOf hnames
  have hne : (pathOf location).toList ≠ [] := by simp [pathOf]
  rw [locate, resolve, if_neg (by simp [hsize]), resolvePath, if_neg hzero, if_neg hne, hsteps]
  rfl

theorem join_pathOf (hnames : ∀ name ∈ location, IsName name) (h : IsName name) :
    Path.join (pathOf location) name = pathOf (location ++ [name]) := by
  have hhead : name.toList.head? ≠ some '/' := fun hslash =>
    h.slash_notMem (List.mem_of_head? hslash)
  have hne : (pathOf location).toList ≠ [] := by simp [pathOf]
  rw [Path.join, if_neg hhead, if_neg hne]
  by_cases hlocation : location = []
  · rw [hlocation, if_pos (by simp [pathOf])]
    simp [pathOf]
  · rw [if_neg (getLast?_pathOf hlocation hnames), pathOf, pathOf,
      String.intercalate_append_of_ne_nil hlocation (List.cons_ne_nil _ _)]
    simp [String.append_assoc]

/-- A walk that started at the path of a location goes by the paths of the locations below it. -/
theorem below_pathOf (hnames : ∀ name ∈ location, IsName name) (h : ∀ name ∈ way, IsName name) :
    Path.below (pathOf location) way = pathOf (location ++ way) := by
  induction way generalizing location with
  | nil => rw [List.append_nil]; rfl
  | cons name rest ih =>
    obtain ⟨hname, hrest⟩ := List.forall_mem_cons.mp h
    rw [Path.below, List.foldl_cons, join_pathOf hnames hname, List.append_cons location name rest]
    exact ih (List.forall_mem_append.mpr ⟨hnames, List.forall_mem_singleton.mpr hname⟩) hrest

/-- The path of a location lower down is longer by the path of the way there. -/
theorem exists_pathOf_append (location : Location) {way : Location} (h : way ≠ []) :
    ∃ lead, (lead = [] ∨ lead = ['/']) ∧ (pathOf (location ++ way)).toList =
      (pathOf location).toList ++ lead ++ ("/".intercalate way).toList := by
  by_cases hlocation : location = []
  · refine ⟨[], Or.inl rfl, ?_⟩
    simp [hlocation, pathOf]
  · refine ⟨['/'], Or.inr rfl, ?_⟩
    rw [pathOf, pathOf, String.intercalate_append_of_ne_nil hlocation h]
    simp

theorem withoutLead_intercalate (h : ∀ name ∈ way, IsName name) :
    Path.withoutLead ("/".intercalate way).toList = ("/".intercalate way).toList := by
  cases way with
  | nil => simp [Path.withoutLead]
  | cons name rest =>
    have htext := toList_pathOf (List.cons_ne_nil name rest)
    rw [pathOf, String.toList_append, List.flatMap_cons] at htext
    have hrest : ("/".intercalate (name :: rest)).toList =
        name.toList ++ rest.flatMap fun name => '/' :: name.toList := (List.cons.inj htext).2
    rw [hrest, withoutLead_of_isName (h name List.mem_cons_self)]

/-- Seen from a directory, the path of a location below it is made of the names on the way there. -/
theorem beneath?_pathOf (hnames : ∀ name ∈ way, IsName name) :
    Path.beneath? (pathOf location) (pathOf (location ++ way)) = some ("/".intercalate way) := by
  by_cases h : way = []
  · simp [h, Path.beneath?, withoutPrefix?, Path.withoutLead]
  obtain ⟨lead, hcases, htext⟩ := exists_pathOf_append location h
  have hrest : withoutPrefix? (pathOf location).toList (pathOf (location ++ way)).toList =
      some (lead ++ ("/".intercalate way).toList) := by
    rw [withoutPrefix?, htext, List.append_assoc, if_pos (by simp), List.drop_left]
  rw [Path.beneath?, hrest, Option.map_some]
  obtain rfl | rfl := hcases
  · rw [List.nil_append, withoutLead_intercalate hnames, String.ofList_toList]
  · rw [List.singleton_append, Path.withoutLead, withoutLead_intercalate hnames,
      String.ofList_toList]

section

variable {here : Location} {name : String}

theorem ofPath_name (h : IsName name) : Step.ofPath name = [.name name] := by
  have hhead : name.toList.head? ≠ some '/' := fun hslash =>
    h.slash_notMem (List.mem_of_head? hslash)
  have hlast : name.toList.getLast? ≠ some '/' := fun hslash =>
    h.slash_notMem (List.mem_of_getLast? hslash)
  simp [Step.ofPath, hhead, hlast, splitAtEvery_of_notMem h.slash_notMem, Step.ofText?, h.ne_nil,
    h.ne_dot, h.ne_dots]

theorem resolvePath_name (last : Bool) (h : IsName name) :
    tree.resolvePath last here name = tree.resolveSteps last linkLimit here [.name name] := by
  have hzero : ¬name.toList.contains '\x00' = true := by
    rw [List.contains_iff_mem]
    exact h.zero_notMem
  rw [resolvePath, if_neg hzero, if_neg h.ne_nil, ofPath_name h]

theorem resolve_name (last : Bool) (h : IsName name) :
    tree.resolve last here name = tree.resolveSteps last linkLimit here [.name name] := by
  have hsize : ¬pathLimit < name.utf8ByteSize :=
    Nat.not_lt.mpr (h.size_le.trans (by decide))
  rw [resolve, if_neg (by simp [hsize]), resolvePath_name last h]

theorem resolveSteps_name {last : Bool} {links : Nat} (h : IsName name)
    (hhere : tree.isDirectory here) {entry : FileEntry}
    (hentry : tree.entry? (here ++ [name]) = some entry) (hlink : ∀ target, entry ≠ .link target) :
    tree.resolveSteps last links here [.name name] = .ok (.present (here ++ [name])) := by
  rw [resolveSteps]
  simp only [hhere, Bool.not_true, Bool.false_eq_true, if_false,
    if_neg (Nat.not_lt.mpr h.size_le), hentry]
  cases entry with
  | link target => exact absurd rfl (hlink target)
  | _ => rw [resolveSteps]

theorem canonical_of_directory (h : IsName name) (hhere : tree.isDirectory here)
    (hentry : tree.entry? (here ++ [name]) = some .directory) :
    tree.canonical here name = .ok (here ++ [name]) := by
  rw [canonical, resolvePath_name true h, resolveSteps_name h hhere hentry (by rintro _ ⟨⟩)]
  rfl

theorem locate_of_link {target : String} (h : IsName name) (htarget : IsName target)
    (hhere : tree.isDirectory here) (hlink : tree.entry? (here ++ [name]) = some (.link target))
    {entry : FileEntry} (hentry : tree.entry? (here ++ [target]) = some entry)
    (hplain : ∀ target, entry ≠ .link target) :
    tree.locate here name = .ok (here ++ [target]) := by
  have hfollow : tree.resolveSteps true linkLimit here [.name name] =
      tree.resolveSteps true (linkLimit - 1) here [.name target] := by
    rw [resolveSteps]
    simp only [hhere, Bool.not_true, Bool.false_eq_true, if_false, List.isEmpty_nil, Bool.and_false,
      if_neg (Nat.not_lt.mpr h.size_le), hlink, linkLimit, ofPath_name htarget, List.append_nil]
  rw [locate, resolve_name true h, hfollow, resolveSteps_name htarget hhere hentry hplain]
  rfl

theorem locate_of_none (h : IsName name) (hhere : tree.isDirectory here)
    (hentry : tree.entry? (here ++ [name]) = none) :
    tree.locate here name = .error .notFound := by
  rw [locate, resolve_name true h, resolveSteps]
  simp only [hhere, Bool.not_true, Bool.false_eq_true, if_false,
    if_neg (Nat.not_lt.mpr h.size_le), hentry]
  rfl

end

end FileTree

end LegacyAudit
