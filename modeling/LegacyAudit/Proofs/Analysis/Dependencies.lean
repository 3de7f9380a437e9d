import LegacyAudit.Analyzer.DependencyMapper
import LegacyAudit.Proofs.Text.Search
import Mathlib.Data.List.Perm.Basic

/-!
# What the dependency mapper finds

A hit is a pair of places, that of an import and that of a rule which matches it. The mapper names
a dependency for every hit, by import and then by rule, and makes one recommendation for every
place in the list of rules that takes part in a hit, even where equal rules stand at two places.

## Main definitions

- `DependencyMapper.Hits` - a rule matches an import
- `DependencyMapper.ListsHits`, `DependencyMapper.ListsMatched` - all hits and all matched rules in
  their orders
- `DependencyMapper.scan_maps` - what is found, and what it depends on
-/

namespace LegacyAudit

open LegacyAudit.Text

section FirstOccurrences

variable {α β : Type} [BEq β] [LawfulBEq β] {R : α → α → Prop} {f : α → β}

/-- Without repetitions the images of an ordered list stand in the order of their first origins. -/
theorem pairwise_eraseDups_map {l : List α} (h : l.Pairwise R) :
    (l.map f).eraseDups.Pairwise fun a b => ∃ x ∈ l, f x = a ∧ ∀ y ∈ l, f y = b → R x y := by
  match l with
  | [] => exact .nil
  | x :: rest =>
    -- the recursion goes on with the members whose image differs from that of the first one
    have hlater : (rest.map f).filter (fun b => !b == f x) =
        (rest.filter fun y => !f y == f x).map f := by
      rw [List.filter_map]
      rfl
    have hlength : (rest.filter fun y => !f y == f x).length < rest.length + 1 :=
      Nat.lt_succ_of_le (List.length_filter_le _ _)
    obtain ⟨hfirst, hrest⟩ := List.pairwise_cons.mp h
    rw [List.map_cons, List.eraseDups_cons, hlater, List.pairwise_cons]
    have hne : ∀ b ∈ ((rest.filter fun y => !f y == f x).map f).eraseDups, f x ≠ b := by
      rintro b hb rfl
      obtain ⟨y, hy, hyx⟩ := List.mem_map.mp (List.mem_eraseDups.mp hb)
      simpa [hyx] using (List.mem_filter.mp hy).2
    constructor
    · intro b hb
      refine ⟨x, List.mem_cons_self, rfl, fun y hy hyb => ?_⟩
      rcases List.mem_cons.mp hy with rfl | hy
      · exact absurd hyb (hne b hb)
      · exact hfirst y hy
    · refine (pairwise_eraseDups_map (hrest.filter _)).imp_of_mem ?_
      rintro a b _ hb ⟨y, hy, hya, hbefore⟩
      refine ⟨y, List.mem_cons_of_mem _ (List.mem_filter.mp hy).1, hya, fun z hz hzb => ?_⟩
      rcases List.mem_cons.mp hz with rfl | hz
      · exact absurd hzb (hne b hb)
      · refine hbefore z (List.mem_filter.mpr ⟨hz, ?_⟩) hzb
        simpa [hzb] using (hne b hb).symm
  termination_by l.length

omit [LawfulBEq β] in
theorem length_eraseDups_le (l : List β) : l.eraseDups.length ≤ l.length := by
  match l with
  | [] => exact Nat.le_refl _
  | b :: rest =>
    have hlength : (rest.filter fun c => !c == b).length ≤ rest.length :=
      List.length_filter_le _ _
    have hfiltered := length_eraseDups_le (rest.filter fun c => !c == b)
    rw [List.eraseDups_cons, List.length_cons, List.length_cons]
    omega
  termination_by l.length

end FirstOccurrences

namespace DependencyMapper

/-- The rule at the second place matches the import at the first one: every substring of the rule
occurs in the import, both in lower case. -/
def Hits (rules : List DependencyRule) (imports : List String) (hit : Nat × Nat) : Prop :=
  ∃ text ∈ imports[hit.1]?, ∃ rule ∈ rules[hit.2]?,
    ∀ needle ∈ rule.contains, (lower needle).toList <:+: (lower text).toList

def Before : Nat × Nat → Nat × Nat → Prop :=
  Prod.Lex (· < ·) (· < ·)

/-- All hits, each one once, by import and then by rule. -/
structure ListsHits (rules : List DependencyRule) (imports : List String)
    (hits : List (Nat × Nat)) : Prop where
  mem_iff : ∀ hit, hit ∈ hits ↔ Hits rules imports hit
  ordered : hits.Pairwise Before

/-- The places of all rules with a hit, each one once, in the order of their first hits. -/
structure ListsMatched (rules : List DependencyRule) (imports : List String)
    (places : List Nat) : Prop where
  mem_iff : ∀ place, place ∈ places ↔ ∃ i, Hits rules imports (i, place)
  ordered : places.Pairwise fun a b =>
    ∃ i, Hits rules imports (i, a) ∧ ∀ j, Hits rules imports (j, b) → Before (i, a) (j, b)

/-- The hits, each with the place of its import and its rule. -/
def placedHits (rules : List DependencyRule) (imports : List String) :
    List (Nat × DependencyRule × Nat) :=
  imports.zipIdx.flatMap fun t => (matching rules t.1).map fun r => (t.2, r)

variable {rules : List DependencyRule} {imports : List String}

theorem matchesImport_iff {rule : DependencyRule} {text : String} :
    rule.matchesImport text = true ↔
      ∀ needle ∈ rule.contains, (lower needle).toList <:+: (lower text).toList := by
  simp only [DependencyRule.matchesImport, List.all_eq_true, contains_iff]

theorem mem_placedHits {i j : Nat} {rule : DependencyRule} :
    (i, rule, j) ∈ placedHits rules imports ↔ rules[j]? = some rule ∧
      ∃ text, imports[i]? = some text ∧ rule.matchesImport text = true := by
  simp only [placedHits, matching, List.mem_flatMap, List.mem_map, List.mem_filter,
    List.mem_zipIdx_iff_getElem?, Prod.exists, Prod.mk.injEq]
  constructor
  · rintro ⟨text, _, htext, _, _, ⟨hrule, hmatches⟩, rfl, rfl, rfl⟩
    exact ⟨hrule, text, htext, hmatches⟩
  · rintro ⟨hrule, text, htext, hmatches⟩
    exact ⟨text, i, htext, rule, j, ⟨hrule, hmatches⟩, rfl, rfl, rfl⟩

theorem hits_iff {hit : Nat × Nat} :
    Hits rules imports hit ↔ ∃ rule, (hit.1, rule, hit.2) ∈ placedHits rules imports := by
  simp only [Hits, mem_placedHits, matchesImport_iff, Option.mem_def]
  constructor
  · rintro ⟨text, htext, rule, hrule, hmatches⟩
    exact ⟨rule, hrule, text, htext, hmatches⟩
  · rintro ⟨rule, hrule, text, htext, hmatches⟩
    exact ⟨text, htext, rule, hrule, hmatches⟩

theorem exists_hits_iff {place : Nat} :
    (∃ i, Hits rules imports (i, place)) ↔ ∃ text ∈ imports, ∃ rule ∈ rules[place]?,
      ∀ needle ∈ rule.contains, (lower needle).toList <:+: (lower text).toList := by
  simp only [Hits, Option.mem_def]
  constructor
  · rintro ⟨i, text, htext, hrest⟩
    exact ⟨text, List.mem_of_getElem? htext, hrest⟩
  · rintro ⟨text, htext, hrest⟩
    obtain ⟨i, hi⟩ := List.getElem?_of_mem htext
    exact ⟨i, text, hi, hrest⟩

theorem pairwise_zipIdx {α : Type} (l : List α) : l.zipIdx.Pairwise fun a b => a.2 < b.2 := by
  rw [← List.pairwise_map, List.zipIdx_map_snd]
  exact List.pairwise_lt_range'

theorem pairwise_placedHits : (placedHits rules imports).Pairwise fun a b =>
    Before (a.1, a.2.2) (b.1, b.2.2) := by
  rw [placedHits, List.pairwise_flatMap]
  constructor
  · intro t _
    rw [List.pairwise_map]
    refine ((pairwise_zipIdx rules).filter _).imp ?_
    intro a b hab
    exact .right _ hab
  · refine (pairwise_zipIdx imports).imp ?_
    intro a b hab x hx y hy
    obtain ⟨_, _, rfl⟩ := List.mem_map.mp hx
    obtain ⟨_, _, rfl⟩ := List.mem_map.mp hy
    exact .left _ _ hab

theorem hits_eq_map_placedHits : hits rules imports = (placedHits rules imports).map (·.2) := by
  have himports : imports = imports.zipIdx.map (·.1) := (List.zipIdx_map_fst 0 imports).symm
  rw [hits, placedHits, List.map_flatMap]
  conv_lhs => rw [himports, List.flatMap_map]
  simp [Function.comp_def]

theorem listsHits_placedHits :
    ListsHits rules imports ((placedHits rules imports).map fun hit => (hit.1, hit.2.2)) where
  mem_iff := by
    rintro ⟨i, j⟩
    rw [hits_iff]
    simp only [List.mem_map, Prod.exists, Prod.mk.injEq]
    constructor
    · rintro ⟨_, rule, _, hmem, rfl, rfl⟩
      exact ⟨rule, hmem⟩
    · rintro ⟨rule, hmem⟩
      exact ⟨i, rule, j, hmem, rfl, rfl⟩
  ordered := by
    rw [List.pairwise_map]
    exact pairwise_placedHits

theorem mem_hits {rule : DependencyRule} {j : Nat} :
    (rule, j) ∈ hits rules imports ↔
      rules[j]? = some rule ∧ ∃ i, Hits rules imports (i, j) := by
  simp only [hits_iff]
  rw [hits_eq_map_placedHits]
  simp only [List.mem_map, Prod.exists, Prod.mk.injEq]
  constructor
  · rintro ⟨i, _, _, hmem, rfl, rfl⟩
    exact ⟨(mem_placedHits.mp hmem).1, i, _, hmem⟩
  · rintro ⟨hrule, i, other, hmem⟩
    obtain rfl := Option.some.inj (hrule.symm.trans (mem_placedHits.mp hmem).1)
    exact ⟨i, rule, j, hmem, rfl, rfl⟩

theorem listsMatched_eraseDups :
    ListsMatched rules imports ((hits rules imports).eraseDups.map (·.2)) where
  mem_iff := by
    intro place
    simp only [List.mem_map, List.mem_eraseDups, Prod.exists, exists_eq_right]
    constructor
    · rintro ⟨rule, hmem⟩
      exact (mem_hits.mp hmem).2
    · rintro ⟨i, hi⟩
      obtain ⟨rule, hmem⟩ := hits_iff.mp hi
      exact ⟨rule, mem_hits.mpr ⟨(mem_placedHits.mp hmem).1, i, hi⟩⟩
  ordered := by
    rw [List.pairwise_map, hits_eq_map_placedHits]
    refine (pairwise_eraseDups_map pairwise_placedHits).imp_of_mem ?_
    rintro ⟨_, a⟩ ⟨rule, b⟩ _ hb ⟨⟨i, _, _⟩, hx, heq, hbefore⟩
    obtain ⟨rfl, rfl⟩ := Prod.mk.inj heq
    refine ⟨i, hits_iff.mpr ⟨_, hx⟩, fun j hj => ?_⟩
    obtain ⟨other, hy⟩ := hits_iff.mp hj
    refine hbefore _ hy ?_
    -- Two hits at one place of the rules have the same rule.
    rw [List.mem_eraseDups, ← hits_eq_map_placedHits] at hb
    have hrule := (mem_hits.mp hb).1.symm.trans (mem_placedHits.mp hy).1
    exact congrArg (·, b) (Option.some.inj hrule).symm

theorem Before.irrefl (hit : Nat × Nat) : ¬Before hit hit := by
  intro h
  rcases (Prod.lex_def).mp h with h | ⟨_, h⟩
  · exact Nat.lt_irrefl _ h
  · exact Nat.lt_irrefl _ h

theorem ListsMatched.nodup {places : List Nat} (h : ListsMatched rules imports places) :
    places.Nodup := by
  refine h.ordered.imp ?_
  rintro a _ ⟨i, hi, hbefore⟩ rfl
  exact Before.irrefl _ (hbefore i hi)

theorem ListsMatched.perm {imports' : List String} {places places' : List Nat}
    (h : ListsMatched rules imports places) (h' : ListsMatched rules imports' places')
    (himports : imports'.Perm imports) : places'.Perm places := by
  rw [List.perm_ext_iff_of_nodup h'.nodup h.nodup]
  intro place
  simp only [h'.mem_iff, h.mem_iff, exists_hits_iff, himports.mem_iff]

/-- Every hit names a dependency, and every place of the rules with a hit leads to one
recommendation. The order of the imports is only that of the results, and nothing else in the
record counts. -/
theorem scan_maps (config : DependencyConfig) (record : FeatureRecord) :
    (∃ hits places, ListsHits config.rules record.imports hits ∧
        ListsMatched config.rules record.imports places ∧
        (scan config record).findings = [] ∧
        (scan config record).dependencies.map some =
          hits.map (fun hit => config.rules[hit.2]?.map dependency) ∧
        (scan config record).recommendations.map some =
          places.map (fun place => config.rules[place]?.map recommendation)) ∧
      (∀ r ∈ (scan config record).recommendations, r.kind = .frameworkUpgrade) ∧
      (∀ other : FeatureRecord, other.imports.Perm record.imports →
        (scan config other).dependencies.Perm (scan config record).dependencies ∧
          ∀ places places', ListsMatched config.rules record.imports places →
            ListsMatched config.rules other.imports places' → places'.Perm places) ∧
      ∀ other : FeatureRecord, other.imports = record.imports →
        scan config other = scan config record := by
  refine ⟨⟨_, _, listsHits_placedHits, listsMatched_eraseDups, rfl, ?_, ?_⟩, ?_, ?_, ?_⟩
  · simp only [scan, hits_eq_map_placedHits, List.map_map]
    refine List.map_congr_left ?_
    rintro ⟨i, rule, j⟩ hmem
    simp [(mem_placedHits.mp hmem).1]
  · simp only [scan, List.map_map]
    refine List.map_congr_left ?_
    rintro ⟨rule, j⟩ hmem
    simp [(mem_hits.mp (List.mem_eraseDups.mp hmem)).1]
  · intro r hr
    obtain ⟨hit, _, rfl⟩ := List.mem_map.mp hr
    rfl
  · intro other hother
    exact ⟨(hother.flatMap_right _).map _, fun places places' h h' => h.perm h' hother⟩
  · intro other hother
    simp only [scan, hother]

def twinRules : DependencyConfig :=
  ⟨[.log4j, .springBoot, .log4j]⟩

/-- Imports two of which are hit by the same rules. -/
def logged : FeatureRecord :=
  ⟨.java, [], [], ["Log4j 2", "log4j", "Spring-1.5"], 1, 3, none⟩

/-- Another record with the same imports in another order. -/
def turned : FeatureRecord :=
  ⟨.python, [], [⟨"Log4j", .classDecl, 0, 4⟩], ["Spring-1.5", "log4j", "Log4j 2"], 0, 0, none⟩

/-- Equal rules at two places lead to two recommendations, and one rule that matches two imports
to one. -/
theorem scan_maps_equal_rules :
    (scan twinRules logged).dependencies.length = 5 ∧
      (scan twinRules logged).recommendations.map (·.title) =
        ["Replace Log4j with Logback", "Replace Log4j with Logback",
          "Upgrade Spring Boot to 3.x"] ∧
      turned.imports.Perm logged.imports ∧
      (scan twinRules turned).dependencies.Perm (scan twinRules logged).dependencies ∧
      (∃ places places', ListsMatched twinRules.rules logged.imports places ∧
        ListsMatched twinRules.rules turned.imports places' ∧ places'.Perm places) ∧
      scan twinRules { turned with imports := logged.imports } = scan twinRules logged := by
  have hperm : turned.imports.Perm logged.imports := List.reverse_perm logged.imports
  obtain ⟨⟨_, places, _, hplaces, _⟩, _, hturned, hsame⟩ := scan_maps twinRules logged
  obtain ⟨⟨_, places', _, hplaces', _⟩, _⟩ := scan_maps twinRules turned
  obtain ⟨hdependencies, hmatched⟩ := hturned turned hperm
  exact ⟨by decide +kernel, by decide +kernel, hperm, hdependencies,
    ⟨places, places', hplaces, hplaces', hmatched _ _ hplaces hplaces'⟩, hsame _ rfl⟩

end DependencyMapper

end LegacyAudit
