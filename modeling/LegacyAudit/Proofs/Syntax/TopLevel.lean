import LegacyAudit.Proofs.Syntax.Traversal
import LegacyAudit.Proofs.Text.Utf8
import LegacyAudit.Syntax.Extraction
import Mathlib.Data.List.Forall2

/-!
# What is reported of a tree

Extraction looks at the children of the root and at what stands directly in them. Rules with
precedence say what becomes of each child; whatever stands deeper makes no difference.

## Main definitions

- `IsFirst` - the first of several things that have a property
- `SyntaxTree.HasText`, `SyntaxTree.HasName`, `SyntaxTree.HasParameters` - parts of declarations
- `Reports` - the rules by which children are reported
- `SyntaxTree.LooksLike` - two nodes that extraction cannot tell apart
- `extract_reports_top_level` - extraction follows the rules and sees nothing else
-/

namespace LegacyAudit

open LegacyAudit.Text

/-- `x` is in the list and has the property, and nothing in front of it has. -/
def IsFirst {α : Type} (p : α → Prop) (xs : List α) (x : α) : Prop :=
  ∃ front back, xs = front ++ x :: back ∧ (∀ y ∈ front, ¬p y) ∧ p x

/-- The first entry for the kind gives it the meaning `x`. -/
def KindTable.Means {α : Type} (table : KindTable α) (kind : String) (x : α) : Prop :=
  IsFirst (fun entry => entry.1 = kind) table (kind, x)

def KindTable.Lacks {α : Type} (table : KindTable α) (kind : String) : Prop :=
  ∀ entry ∈ table, entry.1 ≠ kind

namespace SyntaxTree

def bytes (source : List UInt8) (tree : SyntaxTree) : List UInt8 :=
  (source.drop tree.span.startByte).take (tree.span.endByte - tree.span.startByte)

/-- The text of a node is the one with its bytes, or empty if there is none. -/
def HasText (source : List UInt8) (tree : SyntaxTree) (s : String) : Prop :=
  encode s = tree.bytes source ∨ (∀ t, encode t ≠ tree.bytes source) ∧ s = ""

/-- A declaration is named by the first child that can name one, or else by its own text. -/
inductive HasName (rules : RuleTable) (source : List UInt8) (tree : SyntaxTree) : String → Prop
  | identifier {child : SyntaxTree} {name : String} :
    IsFirst (fun c => c.kind ∈ rules.identifiers) tree.children child → child.HasText source name →
      HasName rules source tree name
  | whole {name : String} :
    (∀ c ∈ tree.children, c.kind ∉ rules.identifiers) → tree.HasText source name →
      HasName rules source tree name

/-- `list` is the first parameter list among the children of the declaration. -/
def HasList (rules : RuleTable) (tree list : SyntaxTree) : Prop :=
  IsFirst (fun c => c.kind = rules.parameters.list) tree.children list

/-- The parameters of a declaration are the accepted children of its first parameter list. -/
inductive HasParameters (rules : RuleTable) (source : List UInt8) (tree : SyntaxTree) :
    List String → Prop
  | listed {list : SyntaxTree} {parameters : List String} :
    tree.HasList rules list →
      List.Forall₂ (HasText source)
        (list.children.filter fun p => p.kind ∈ rules.parameters.kinds) parameters →
        HasParameters rules source tree parameters
  | unlisted : (∀ c ∈ tree.children, c.kind ≠ rules.parameters.list) →
    HasParameters rules source tree []

end SyntaxTree

/-- What is reported of the nodes in a row: each is a function, else a class, else an import, else
nothing, and stands in front of what is reported of the nodes behind it. -/
inductive Reports (rules : RuleTable) (source : List UInt8) : List SyntaxTree → Extraction → Prop
  | nil : Reports rules source [] ⟨[], [], []⟩
  | function {tree : SyntaxTree} {rest : List SyntaxTree} {e : Extraction} {kind : DeclarationKind}
      {name : String} {parameters : List String} :
    rules.functions.Means tree.kind kind → tree.HasName rules source name →
      tree.HasParameters rules source parameters → Reports rules source rest e →
        Reports rules source (tree :: rest) { e with
          functions :=
            ⟨name, kind, parameters, tree.span.startRow, tree.span.endRow⟩ :: e.functions }
  | classLike {tree : SyntaxTree} {rest : List SyntaxTree} {e : Extraction}
      {kind : DeclarationKind} {name : String} :
    rules.functions.Lacks tree.kind → rules.classes.Means tree.kind kind →
      tree.HasName rules source name → Reports rules source rest e →
        Reports rules source (tree :: rest) { e with
          classes := ⟨name, kind, tree.span.startRow, tree.span.endRow⟩ :: e.classes }
  | importLine {tree : SyntaxTree} {rest : List SyntaxTree} {e : Extraction} {text : String} :
    rules.functions.Lacks tree.kind → rules.classes.Lacks tree.kind →
      tree.kind ∈ rules.imports → tree.HasText source text → Reports rules source rest e →
        Reports rules source (tree :: rest) { e with imports := text :: e.imports }
  | other {tree : SyntaxTree} {rest : List SyntaxTree} {e : Extraction} :
    rules.functions.Lacks tree.kind → rules.classes.Lacks tree.kind →
      tree.kind ∉ rules.imports → Reports rules source rest e →
        Reports rules source (tree :: rest) e

/-- Joins two extractions, the first one in front. -/
def Extraction.append (a b : Extraction) : Extraction where
  functions := a.functions ++ b.functions
  classes := a.classes ++ b.classes
  imports := a.imports ++ b.imports

instance : Append Extraction := ⟨Extraction.append⟩

namespace SyntaxTree

/-- Two nodes of one kind that stand in the same place. -/
def Alike (s t : SyntaxTree) : Prop :=
  s.kind = t.kind ∧ s.span = t.span

/-- Two nodes that are alike, and so are their children and, in functions, the children of their
first parameter lists. -/
structure LooksLike (rules : RuleTable) (s t : SyntaxTree) : Prop where
  alike : s.Alike t
  children : List.Forall₂ Alike s.children t.children
  parameters : ∀ kind l m, rules.functions.Means s.kind kind → s.HasList rules l →
    t.HasList rules m → List.Forall₂ Alike l.children m.children

end SyntaxTree

section Lookups

variable {α : Type}

theorem find?_eq_some_iff_isFirst {p : α → Bool} {xs : List α} {x : α} :
    xs.find? p = some x ↔ IsFirst (fun y => p y = true) xs x := by
  simp [List.find?_eq_some_iff_append, IsFirst, and_comm, and_left_comm]

theorem KindTable.lookup?_eq_some_iff {table : KindTable α} {kind : String} {x : α} :
    table.lookup? kind = some x ↔ table.Means kind x := by
  rw [lookup?, Option.map_eq_some_iff]
  simp only [find?_eq_some_iff_isFirst, beq_iff_eq]
  constructor
  · rintro ⟨⟨_, _⟩, ⟨front, back, hxs, hfront, rfl⟩, rfl⟩
    exact ⟨front, back, hxs, hfront, rfl⟩
  · intro h
    exact ⟨(kind, x), h, rfl⟩

theorem KindTable.lookup?_eq_none_iff {table : KindTable α} {kind : String} :
    table.lookup? kind = none ↔ table.Lacks kind := by
  simp [lookup?, Lacks]

end Lookups

variable {rules : RuleTable} {source : List UInt8}

namespace SyntaxTree

theorem text_eq_iff {tree : SyntaxTree} {s : String} :
    tree.text source = s ↔ tree.HasText source s := by
  change decodeOrEmpty (tree.bytes source) = s ↔ _
  unfold decodeOrEmpty HasText
  cases hdecode : decode (tree.bytes source) with
  | ok t =>
    have ht := decode_eq_ok_iff.mp hdecode
    constructor
    · rintro rfl
      exact .inl ht
    · rintro (hs | ⟨hnone, _⟩)
      · rw [decode_eq_ok_iff.mpr hs] at hdecode
        exact (Except.ok.inj hdecode).symm
      · exact absurd ht (hnone t)
  | error e =>
    have hnone : ∀ t, encode t ≠ tree.bytes source := by
      intro t ht
      rw [decode_eq_ok_iff.mpr ht] at hdecode
      cases hdecode
    constructor
    · rintro rfl
      exact .inr ⟨hnone, rfl⟩
    · rintro (hs | ⟨_, rfl⟩)
      · exact absurd hs (hnone s)
      · rfl

theorem isIdentifier_iff {kind : String} :
    rules.isIdentifier kind = true ↔ kind ∈ rules.identifiers := by
  simp [RuleTable.isIdentifier]

theorem declarationName_eq_iff {tree : SyntaxTree} {name : String} :
    declarationName rules source tree = name ↔ tree.HasName rules source name := by
  unfold declarationName
  split
  · next child hfind =>
    have hfirst := find?_eq_some_iff_isFirst.mp hfind
    simp only [isIdentifier_iff] at hfirst
    rw [text_eq_iff]
    constructor
    · exact .identifier hfirst
    · rintro (⟨hother, hname⟩ | ⟨hnone, _⟩)
      · simp only [← isIdentifier_iff] at hother
        rw [← find?_eq_some_iff_isFirst, hfind] at hother
        obtain rfl := Option.some.inj hother
        exact hname
      · have hchild : rules.isIdentifier child.kind = true := by simpa using List.find?_some hfind
        exact absurd (isIdentifier_iff.mp hchild) (hnone child (List.mem_of_find?_eq_some hfind))
  · next hfind =>
    have hnone : ∀ c ∈ tree.children, c.kind ∉ rules.identifiers := by
      simpa [isIdentifier_iff] using hfind
    rw [text_eq_iff]
    constructor
    · exact .whole hnone
    · rintro (⟨⟨front, back, hchildren, _, hchild⟩, _⟩ | ⟨_, hname⟩)
      · exact absurd hchild (hnone _ (by simp [hchildren]))
      · exact hname

theorem map_text_eq_iff {trees : List SyntaxTree} {texts : List String} :
    trees.map (·.text source) = texts ↔ List.Forall₂ (HasText source) trees texts := by
  rw [← List.forall₂_eq_eq_eq, List.forall₂_map_left_iff]
  simp only [text_eq_iff]

theorem hasList_iff {tree list : SyntaxTree} :
    tree.children.find? (fun c => c.kind == rules.parameters.list) = some list ↔
      tree.HasList rules list := by
  simp only [find?_eq_some_iff_isFirst, beq_iff_eq, HasList]

theorem parameterTexts_eq_iff {tree : SyntaxTree} {parameters : List String} :
    parameterTexts rules source tree = parameters ↔ tree.HasParameters rules source parameters := by
  unfold parameterTexts
  simp only [List.contains_eq_mem]
  split
  · next list hfind =>
    rw [map_text_eq_iff]
    constructor
    · exact .listed (hasList_iff.mp hfind)
    · rintro (⟨hother, htexts⟩ | hnone)
      · rw [← hasList_iff, hfind] at hother
        obtain rfl := Option.some.inj hother
        exact htexts
      · have hlist : list.kind = rules.parameters.list := by simpa using List.find?_some hfind
        exact absurd hlist (hnone list (List.mem_of_find?_eq_some hfind))
  · next hfind =>
    have hnone : ∀ c ∈ tree.children, c.kind ≠ rules.parameters.list := by simpa using hfind
    constructor
    · rintro rfl
      exact .unlisted hnone
    · rintro (⟨⟨front, back, hchildren, _, hlist⟩, _⟩ | _)
      · exact absurd hlist (hnone _ (by simp [hchildren]))
      · rfl

end SyntaxTree

/-- Puts what a node is in front of what is reported of the nodes behind it. -/
def TopLevel.onto (e : Extraction) : TopLevel → Extraction
  | .function facts => { e with functions := facts :: e.functions }
  | .classLike facts => { e with classes := facts :: e.classes }
  | .import text => { e with imports := text :: e.imports }
  | .other => e

theorem extractFrom_cons (tree : SyntaxTree) (rest : List SyntaxTree) :
    extractFrom rules source (tree :: rest) =
      (topLevel rules source tree).onto (extractFrom rules source rest) := by
  simp only [extractFrom, List.filterMap_cons]
  cases topLevel rules source tree <;> rfl

theorem extractFrom_append (front back : List SyntaxTree) :
    extractFrom rules source (front ++ back) =
      extractFrom rules source front ++ extractFrom rules source back := by
  change _ = Extraction.append _ _
  simp only [extractFrom, List.filterMap_append, Extraction.append]

theorem Reports.extractFrom_eq {trees : List SyntaxTree} {e : Extraction}
    (h : Reports rules source trees e) : extractFrom rules source trees = e := by
  induction h with
  | nil => rfl
  | function hkind hname hparameters _ ih =>
    rw [← SyntaxTree.declarationName_eq_iff] at hname
    rw [← SyntaxTree.parameterTexts_eq_iff] at hparameters
    rw [extractFrom_cons, topLevel, RuleTable.functionKind?,
      KindTable.lookup?_eq_some_iff.mpr hkind, hname, hparameters, ih]
    rfl
  | classLike hfunction hkind hname _ ih =>
    rw [← SyntaxTree.declarationName_eq_iff] at hname
    rw [extractFrom_cons, topLevel, RuleTable.functionKind?, RuleTable.classKind?,
      KindTable.lookup?_eq_none_iff.mpr hfunction, KindTable.lookup?_eq_some_iff.mpr hkind,
      hname, ih]
    rfl
  | importLine hfunction hclass hkind htext _ ih =>
    rw [← SyntaxTree.text_eq_iff] at htext
    rw [extractFrom_cons, topLevel, RuleTable.functionKind?, RuleTable.classKind?,
      KindTable.lookup?_eq_none_iff.mpr hfunction, KindTable.lookup?_eq_none_iff.mpr hclass]
    simp [RuleTable.isImport, hkind, htext, ih, TopLevel.onto]
  | other hfunction hclass hkind _ ih =>
    rw [extractFrom_cons, topLevel, RuleTable.functionKind?, RuleTable.classKind?,
      KindTable.lookup?_eq_none_iff.mpr hfunction, KindTable.lookup?_eq_none_iff.mpr hclass]
    simp [RuleTable.isImport, hkind, ih, TopLevel.onto]

theorem reports_extractFrom (trees : List SyntaxTree) :
    Reports rules source trees (extractFrom rules source trees) := by
  induction trees with
  | nil => exact .nil
  | cons tree rest ih =>
    rw [extractFrom_cons, topLevel]
    split
    · next kind hfunction =>
      exact .function (KindTable.lookup?_eq_some_iff.mp hfunction)
        (SyntaxTree.declarationName_eq_iff.mp rfl) (SyntaxTree.parameterTexts_eq_iff.mp rfl) ih
    · next kind hfunction hclass =>
      exact .classLike (KindTable.lookup?_eq_none_iff.mp hfunction)
        (KindTable.lookup?_eq_some_iff.mp hclass) (SyntaxTree.declarationName_eq_iff.mp rfl) ih
    · next hfunction hclass =>
      have hfunction := KindTable.lookup?_eq_none_iff.mp hfunction
      have hclass := KindTable.lookup?_eq_none_iff.mp hclass
      split
      · next himport =>
        exact .importLine hfunction hclass (by simpa [RuleTable.isImport] using himport)
          (SyntaxTree.text_eq_iff.mp rfl) ih
      · next himport =>
        exact .other hfunction hclass (by simpa [RuleTable.isImport] using himport) ih

theorem reports_iff {trees : List SyntaxTree} {e : Extraction} :
    Reports rules source trees e ↔ extractFrom rules source trees = e := by
  constructor
  · exact Reports.extractFrom_eq
  · rintro rfl
    exact reports_extractFrom trees

namespace SyntaxTree

theorem Alike.text_eq {s t : SyntaxTree} (h : s.Alike t) : s.text source = t.text source := by
  rw [text, text, h.2]

theorem find?_alike {p : String → Bool} {xs ys : List SyntaxTree} (h : List.Forall₂ Alike xs ys) :
    Option.Rel Alike (xs.find? fun c => p c.kind) (ys.find? fun c => p c.kind) := by
  induction h with
  | nil => exact .none
  | @cons x y _ _ hxy _ ih =>
    rw [List.find?_cons, List.find?_cons, ← hxy.1]
    by_cases hp : p x.kind
    · simpa only [hp] using Option.Rel.some hxy
    · simpa only [hp] using ih

theorem map_text_filter_alike {p : String → Bool} {xs ys : List SyntaxTree}
    (h : List.Forall₂ Alike xs ys) :
    (xs.filter fun c => p c.kind).map (·.text source) =
      (ys.filter fun c => p c.kind).map (·.text source) := by
  induction h with
  | nil => rfl
  | @cons x y _ _ hxy _ ih =>
    rw [List.filter_cons, List.filter_cons, ← hxy.1]
    by_cases hp : p x.kind
    · rw [if_pos hp, if_pos hp, List.map_cons, List.map_cons, ih, hxy.text_eq]
    · rw [if_neg hp, if_neg hp, ih]

theorem declarationName_alike {s t : SyntaxTree} (h : s.Alike t)
    (hchildren : List.Forall₂ Alike s.children t.children) :
    declarationName rules source s = declarationName rules source t := by
  unfold declarationName
  have hfind := find?_alike (p := rules.isIdentifier) hchildren
  generalize s.children.find? (fun c => rules.isIdentifier c.kind) = c at hfind
  generalize t.children.find? (fun c => rules.isIdentifier c.kind) = d at hfind
  cases hfind with
  | some hchild => exact hchild.text_eq
  | none => exact h.text_eq

theorem parameterTexts_alike {s t : SyntaxTree}
    (hchildren : List.Forall₂ Alike s.children t.children)
    (hlists : ∀ l m, s.HasList rules l → t.HasList rules m →
      List.Forall₂ Alike l.children m.children) :
    parameterTexts rules source s = parameterTexts rules source t := by
  simp only [← hasList_iff] at hlists
  unfold parameterTexts
  have hfind := find?_alike (p := (· == rules.parameters.list)) hchildren
  generalize s.children.find? (fun c => c.kind == rules.parameters.list) = l at hlists hfind
  generalize t.children.find? (fun c => c.kind == rules.parameters.list) = m at hlists hfind
  cases hfind with
  | some _ => exact map_text_filter_alike (hlists _ _ rfl rfl)
  | none => rfl

theorem LooksLike.topLevel_eq {s t : SyntaxTree} (h : s.LooksLike rules t) :
    topLevel rules source s = topLevel rules source t := by
  have hname : declarationName rules source s = declarationName rules source t :=
    declarationName_alike h.alike h.children
  obtain ⟨hkind, hspan⟩ := h.alike
  unfold topLevel
  rw [← hkind, ← hspan, hname, h.alike.text_eq]
  cases hfunction : rules.functionKind? s.kind with
  | some kind =>
    dsimp only
    rw [parameterTexts_alike h.children]
    exact fun l m => h.parameters kind l m (KindTable.lookup?_eq_some_iff.mp hfunction)
  | none => cases rules.classKind? s.kind <;> rfl

end SyntaxTree

theorem extractFrom_looksLike {xs ys : List SyntaxTree}
    (h : List.Forall₂ (SyntaxTree.LooksLike rules) xs ys) :
    extractFrom rules source xs = extractFrom rules source ys := by
  induction h with
  | nil => rfl
  | cons hxy _ ih => rw [extractFrom_cons, extractFrom_cons, hxy.topLevel_eq, ih]

def emptyNode (kind : String) (children : List SyntaxTree) : SyntaxTree :=
  .node kind ⟨0, 0, 0, 0⟩ children

/-- A tree in which only the lowest nodes, four levels below the root, are given. -/
def deepTree (lowest : List SyntaxTree) : SyntaxTree :=
  emptyNode "" [emptyNode "" [emptyNode "" [emptyNode "" lowest]]]

theorem looksLike_deepTree (lowest lowest' : List SyntaxTree) :
    List.Forall₂ (SyntaxTree.LooksLike rules) (deepTree lowest).children
      (deepTree lowest').children := by
  have halike : ∀ children children', (emptyNode "" children).Alike (emptyNode "" children') :=
    fun _ _ => ⟨rfl, rfl⟩
  refine .cons ⟨halike _ _, .cons (halike _ _) .nil, ?_⟩ .nil
  rintro _ l m _ hl hm
  obtain rfl := List.mem_singleton.mp (List.mem_of_find?_eq_some (SyntaxTree.hasList_iff.mpr hl))
  obtain rfl := List.mem_singleton.mp (List.mem_of_find?_eq_some (SyntaxTree.hasList_iff.mpr hm))
  exact .cons (halike _ _) .nil

theorem complexity_deepTree {kind : String} (h : kind ∈ rules.decisions.map (·.1)) :
    complexity (deepTree [emptyNode kind []]) rules.decisions =
      complexity (deepTree []) rules.decisions + 1 := by
  rw [complexity_eq, complexity_eq]
  simp only [deepTree, emptyNode, SyntaxTree.decisionCount, SyntaxTree.decisionCounts,
    isSome_classify.mpr h, if_true, Nat.add_zero, UInt32.ofNat_add, UInt32.ofNat_one,
    UInt32.add_assoc]

/-- The children of the root are reported by the rules, row by row, and nothing else is. Whatever
stands below the parts of a declaration that the rules look at can be exchanged for anything,
although decisions are counted there. -/
theorem extract_reports_top_level (root : SyntaxTree) (source : List UInt8) (rules : RuleTable) :
    (∀ e, extract root source rules = e ↔ Reports rules source root.children e) ∧
      (∀ kind span front back,
        extract (.node kind span (front ++ back)) source rules =
          extract (.node kind span front) source rules ++
            extract (.node kind span back) source rules) ∧
      (∀ other : SyntaxTree,
        List.Forall₂ (SyntaxTree.LooksLike rules) root.children other.children →
          extract root source rules = extract other source rules) ∧
      (rules.decisions ≠ [] → ∃ s t : SyntaxTree,
        List.Forall₂ (SyntaxTree.LooksLike rules) s.children t.children ∧
          extract s source rules = extract t source rules ∧
          complexity s rules.decisions ≠ complexity t rules.decisions) := by
  refine ⟨fun e => reports_iff.symm, ?_, fun other => extractFrom_looksLike, ?_⟩
  · intro kind span front back
    exact extractFrom_append front back
  · intro hdecisions
    obtain ⟨entry, rest, hentry⟩ := List.exists_cons_of_ne_nil hdecisions
    have hmem : entry.1 ∈ rules.decisions.map (·.1) := by simp [hentry]
    have halike : List.Forall₂ (SyntaxTree.LooksLike rules)
        (deepTree [emptyNode entry.1 []]).children (deepTree []).children := looksLike_deepTree _ _
    refine ⟨_, _, halike, extractFrom_looksLike halike, ?_⟩
    rw [complexity_deepTree hmem]
    simp

end LegacyAudit
