import LegacyAudit.Analyzer.Chain
import Mathlib.Data.List.Basic

/-!
# What a chain says

A chain says what its analyzers say, one behind the other. An analyzer that gives up is named among
the failures and changes nothing else, and no analyzer depends on where it stands.

## Main definitions

- `Analyzer.output?`, `Analyzer.failure?` - the two ways in which an analyzer answers
- `Output.join` - several outputs as one
- `Chain.run?_eq_some_iff` - when a chain has a result, and which one
- `Chain.run_collects` - the results of chains that are joined, thinned out or reordered
-/

namespace LegacyAudit

namespace Analyzer

/-- The analyzer does not break down on the record. -/
def Answers (analyzer : Analyzer) (record : FeatureRecord) : Prop :=
  analyzer.analyze record ≠ .crash

/-- What an analyzer that succeeds says about a record. -/
def output? (analyzer : Analyzer) (record : FeatureRecord) : Option Output :=
  match analyzer.analyze record with
  | .output output => some output
  | _ => none

/-- The name and the message of an analyzer that gives up on a record. -/
def failure? (analyzer : Analyzer) (record : FeatureRecord) : Option AnalyzerFailure :=
  match analyzer.analyze record with
  | .failure message => some ⟨analyzer.name, message⟩
  | _ => none

end Analyzer

/-- Several outputs as one, the first one in front. -/
def Output.join (outputs : List Output) : Output where
  findings := outputs.flatMap (·.findings)
  recommendations := outputs.flatMap (·.recommendations)
  dependencies := outputs.flatMap (·.dependencies)

namespace Chain

/-- The outputs of the analyzers that succeed, in the order of the chain. -/
def outputs (chain : Chain) (record : FeatureRecord) : List Output :=
  chain.filterMap (·.output? record)

/-- The failures of the analyzers that give up, in the order of the chain. -/
def failures (chain : Chain) (record : FeatureRecord) : List AnalyzerFailure :=
  chain.filterMap (·.failure? record)

/-- What a chain says if none of its analyzers breaks down. -/
def collected (chain : Chain) (record : FeatureRecord) : ChainResult where
  output := .join (chain.outputs record)
  failures := chain.failures record

end Chain

variable {record : FeatureRecord}

theorem Output.join_append (front back : List Output) :
    join (front ++ back) = join front ++ join back := by
  change join (front ++ back) = Output.append (join front) (join back)
  simp only [join, Output.append, List.flatMap_append]

/-- Apart from breaking down there are two ways to answer, and an analyzer takes one of them. -/
theorem Analyzer.contribution?_eq_some_iff {analyzer : Analyzer} {r : ChainResult} :
    analyzer.contribution? record = some r ↔
      analyzer.Answers record ∧ r = Chain.collected [analyzer] record := by
  simp only [contribution?, Answers, Chain.collected, Chain.outputs, Chain.failures,
    List.filterMap_cons, List.filterMap_nil, output?, failure?]
  cases analyzer.analyze record with
  | output output => simp [Output.join, eq_comm]
  | failure message => simp [Output.join, eq_comm]
  | crash => simp

theorem Analyzer.failure?_eq_none_of_output? {analyzer : Analyzer}
    (h : (analyzer.output? record).isSome) : analyzer.failure? record = none := by
  unfold output? at h
  unfold failure?
  split at h
  · next heq => rw [heq]
  · cases h

namespace Chain

theorem collected_append (front back : Chain) :
    collected (front ++ back) record = collected front record ++ collected back record := by
  change _ = ChainResult.append _ _
  simp only [collected, outputs, failures, List.filterMap_append, Output.join_append,
    ChainResult.append]

/-- A chain has a result iff none of its analyzers breaks down, and then it is what they say. -/
theorem run?_eq_some_iff {chain : Chain} {r : ChainResult} :
    chain.run? record = some r ↔
      (∀ analyzer ∈ chain, analyzer.Answers record) ∧ r = chain.collected record := by
  induction chain generalizing r with
  | nil =>
    rw [run?, Option.some.injEq, eq_comm]
    constructor
    · intro h
      exact ⟨by simp, h⟩
    · exact And.right
  | cons analyzer rest ih =>
    have hsplit : collected (analyzer :: rest) record =
        collected [analyzer] record ++ collected rest record :=
      collected_append [analyzer] rest
    simp only [run?, Option.bind_eq_bind, Option.bind_eq_some_iff,
      Analyzer.contribution?_eq_some_iff, ih, pure, Option.some.injEq, List.forall_mem_cons]
    constructor
    · rintro ⟨_, ⟨hfirst, rfl⟩, _, ⟨hrest, rfl⟩, rfl⟩
      exact ⟨⟨hfirst, hrest⟩, hsplit.symm⟩
    · rintro ⟨⟨hfirst, hrest⟩, rfl⟩
      exact ⟨_, ⟨hfirst, rfl⟩, _, ⟨hrest, rfl⟩, hsplit.symm⟩

/-- Analyzers that do not succeed can be left out without a change to the outputs. -/
theorem outputs_filter {chain : Chain} {keep : Analyzer → Bool}
    (h : ∀ analyzer ∈ chain, (analyzer.output? record).isSome → keep analyzer) :
    outputs (chain.filter keep) record = chain.outputs record := by
  rw [outputs, outputs, List.filterMap_filter]
  apply List.filterMap_congr
  intro analyzer hanalyzer
  by_cases hkeep : keep analyzer
  · rw [if_pos hkeep]
  · rw [if_neg hkeep]
    have hnone := mt (h analyzer hanalyzer) hkeep
    rw [Option.not_isSome_iff_eq_none] at hnone
    exact hnone.symm

theorem failures_succeeding (chain : Chain) :
    failures (chain.filter fun analyzer => (analyzer.output? record).isSome) record = [] := by
  rw [failures, List.filterMap_eq_nil_iff]
  intro analyzer hanalyzer
  exact Analyzer.failure?_eq_none_of_output? (List.mem_filter.mp hanalyzer).2

/-- The result of a chain whose analyzers answer is made of their answers: joined chains have the
joined result, failing analyzers can be left out without a change to the output, and another order
puts the same blocks into another order. -/
theorem run_collects {chain : Chain} (h : ∀ analyzer ∈ chain, analyzer.Answers record) :
    chain.run? record = some ⟨.join (chain.outputs record), chain.failures record⟩ ∧
      (∀ front back : Chain, chain = front ++ back →
        ∃ a b, front.run? record = some a ∧ back.run? record = some b ∧
          chain.run? record = some (a ++ b)) ∧
      (∀ keep : Analyzer → Bool,
        (∀ analyzer ∈ chain, (analyzer.output? record).isSome → keep analyzer) →
          run? (chain.filter keep) record =
            some ⟨.join (chain.outputs record), failures (chain.filter keep) record⟩) ∧
      run? (chain.filter fun analyzer => (analyzer.output? record).isSome) record =
        some ⟨.join (chain.outputs record), []⟩ ∧
      ∀ other : Chain, other.Perm chain →
        ∃ blocks failed, blocks.Perm (chain.outputs record) ∧
          failed.Perm (chain.failures record) ∧
          other.run? record = some ⟨.join blocks, failed⟩ := by
  have hrun : ∀ part : Chain, (∀ analyzer ∈ part, analyzer ∈ chain) →
      part.run? record = some (part.collected record) := by
    intro part hpart
    exact run?_eq_some_iff.mpr ⟨fun analyzer hmem => h analyzer (hpart analyzer hmem), rfl⟩
  -- leaving out analyzers that fail on the record changes no output
  have hkept : ∀ keep : Analyzer → Bool,
      (∀ analyzer ∈ chain, (analyzer.output? record).isSome → keep analyzer) →
        run? (chain.filter keep) record =
          some ⟨.join (chain.outputs record), failures (chain.filter keep) record⟩ := by
    intro keep hkeep
    rw [← outputs_filter hkeep]
    exact hrun _ fun analyzer hmem => (List.mem_filter.mp hmem).1
  refine ⟨hrun chain fun _ hmem => hmem, ?_, hkept, ?_, ?_⟩
  · rintro front back rfl
    refine ⟨_, _, hrun front ?_, hrun back ?_, ?_⟩
    · exact fun analyzer hmem => List.mem_append_left back hmem
    · exact fun analyzer hmem => List.mem_append_right front hmem
    · rw [← collected_append]
      exact hrun _ fun _ hmem => hmem
  · rw [← failures_succeeding chain]
    exact hkept _ fun _ _ hsome => hsome
  · intro other hother
    refine ⟨_, _, hother.filterMap _, hother.filterMap _, hrun other ?_⟩
    exact fun _ hmem => hother.mem_iff.mp hmem

end Chain

/-- An analyzer that names one library, whatever the record. -/
def naming (library : String) : Analyzer where
  name := library
  analyze _ := .output { dependencies := [⟨library, "library", .current, .low, .simple⟩] }

/-- An analyzer that gives up on every record. -/
def refusing : Analyzer where
  name := "refusing"
  analyze _ := .failure "backend unavailable"

/-- A chain in which one analyzer gives up, also the other way round and without that one. -/
theorem run_collects_refusing :
    (∀ analyzer ∈ [naming "a", refusing, naming "b"],
        analyzer.Answers (.degraded .unknown "")) ∧
      (Chain.run? [naming "a", refusing, naming "b"] (.degraded .unknown "")).map
          (fun r => (r.output.dependencies.map (·.name), r.failures)) =
        some (["a", "b"], [⟨"refusing", "backend unavailable"⟩]) ∧
      ∃ blocks failed,
        blocks.Perm (Chain.outputs [naming "a", refusing, naming "b"] (.degraded .unknown "")) ∧
          failed.Perm [⟨"refusing", "backend unavailable"⟩] ∧
          Chain.run? [naming "b", refusing, naming "a"] (.degraded .unknown "") =
            some ⟨.join blocks, failed⟩ := by
  have hanswers : ∀ analyzer ∈ [naming "a", refusing, naming "b"],
      analyzer.Answers (.degraded .unknown "") := by
    simp [Analyzer.Answers, naming, refusing]
  obtain ⟨hrun, _, _, _, hreordered⟩ := Chain.run_collects hanswers
  refine ⟨hanswers, ?_, hreordered _ ?_⟩
  · rw [hrun]
    rfl
  · exact List.reverse_perm [naming "a", refusing, naming "b"]

end LegacyAudit
