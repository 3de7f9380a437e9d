import LegacyAudit.Syntax.Complexity
import Mathlib.Algebra.Group.Nat.Defs
import Mathlib.Data.List.Nodup
import Mathlib.Data.List.Range

/-!
# Counting decisions on the way through a tree

The cursor goes to the first child, else to the next sibling, else upwards until there is one. On
this way it stands on every node of the tree once, so that the count is that of the recursion on
the tree.

## Main definitions

- `Cursor.root` - the tree that a cursor stands in
- `Cursor.positions` - all cursors in a tree, in preorder
- `CountingState`, `CountingState.step` - the way through the tree, move by move
- `complexity_counts_nodes` - the way ends, and what has been met and counted then

## Design notes

A cursor knows everything around its focus, so that the cursors whose `root` is a tree are the nodes
of that tree, also where equal subtrees occur in several places.
-/

namespace LegacyAudit

-- ═══════════════════════════════════════════════════════════════════════════
-- The nodes of a tree as cursors
-- ═══════════════════════════════════════════════════════════════════════════

namespace Cursor

/-- The tree around a node, given the way to it. -/
def rebuild (focus : SyntaxTree) : List Crumb → SyntaxTree
  | [] => focus
  | ⟨kind, span, left, right⟩ :: above =>
    rebuild (.node kind span (left.reverse ++ focus :: right)) above

def root (c : Cursor) : SyntaxTree :=
  rebuild c.focus c.crumbs

mutual

/-- The cursors on the nodes of a subtree in preorder, given the way to it. -/
def positions (crumbs : List Crumb) : SyntaxTree → List Cursor
  | .node kind span children =>
    ⟨.node kind span children, crumbs⟩ :: positionsAmong kind span crumbs [] children

/-- The cursors on the nodes below the children of a node that stand behind those in `left`. -/
def positionsAmong (kind : String) (span : Span) (crumbs : List Crumb) (left : List SyntaxTree) :
    List SyntaxTree → List Cursor
  | [] => []
  | child :: rest =>
    positions (⟨kind, span, left, rest⟩ :: crumbs) child ++
      positionsAmong kind span crumbs (child :: left) rest

end

theorem self_mem_positions (c : Cursor) : c ∈ positions c.crumbs c.focus := by
  obtain ⟨⟨kind, span, children⟩, crumbs⟩ := c
  rw [positions]
  exact List.mem_cons_self

theorem mem_positionsAmong (kind : String) (span : Span) (crumbs : List Crumb)
    (front : List SyntaxTree) (child : SyntaxTree) (left rest : List SyntaxTree) :
    (⟨child, ⟨kind, span, front.reverse ++ left, rest⟩ :: crumbs⟩ : Cursor) ∈
      positionsAmong kind span crumbs left (front ++ child :: rest) := by
  induction front generalizing left with
  | nil =>
    rw [List.nil_append, positionsAmong]
    exact List.mem_append_left _ (self_mem_positions _)
  | cons first front ih =>
    rw [List.cons_append, positionsAmong, List.reverse_cons, List.append_assoc]
    exact List.mem_append_right _ (ih (first :: left))

theorem root_firstChild? {c d : Cursor} (h : c.firstChild? = some d) : d.root = c.root := by
  obtain ⟨⟨kind, span, children⟩, crumbs⟩ := c
  cases children with
  | nil => cases h
  | cons child rest =>
    obtain rfl := Option.some.inj h
    rfl

theorem root_nextSibling? {c d : Cursor} (h : c.nextSibling? = some d) : d.root = c.root := by
  obtain ⟨focus, crumbs⟩ := c
  match crumbs with
  | [] => cases h
  | ⟨_, _, _, []⟩ :: _ => cases h
  | ⟨kind, span, left, sibling :: right⟩ :: above =>
    obtain rfl := Option.some.inj h
    simp [root, rebuild]

theorem root_parent? {c d : Cursor} (h : c.parent? = some d) : d.root = c.root := by
  obtain ⟨focus, crumbs⟩ := c
  cases crumbs with
  | nil => cases h
  | cons crumb above =>
    obtain rfl := Option.some.inj h
    rfl

mutual

theorem positions_subset {c d : Cursor} (hd : d ∈ positions c.crumbs c.focus) :
    ∀ (crumbs : List Crumb) (t : SyntaxTree), c ∈ positions crumbs t → d ∈ positions crumbs t
  | crumbs, .node kind span children, hc => by
    rw [positions] at hc ⊢
    rcases List.mem_cons.mp hc with rfl | hc
    · rwa [positions] at hd
    · exact List.mem_cons_of_mem _ (positionsAmong_subset hd kind span crumbs [] children hc)

theorem positionsAmong_subset {c d : Cursor} (hd : d ∈ positions c.crumbs c.focus) (kind : String)
    (span : Span) (crumbs : List Crumb) :
    ∀ (left children : List SyntaxTree), c ∈ positionsAmong kind span crumbs left children →
      d ∈ positionsAmong kind span crumbs left children
  | _, [], hc => by
    rw [positionsAmong] at hc
    cases hc
  | left, child :: rest, hc => by
    rw [positionsAmong, List.mem_append] at hc ⊢
    exact hc.imp (positions_subset hd _ child)
      (positionsAmong_subset hd kind span crumbs (child :: left) rest)

end

theorem mem_positions_root (c : Cursor) : c ∈ positions [] c.root := by
  obtain ⟨focus, crumbs⟩ := c
  induction crumbs generalizing focus with
  | nil => exact self_mem_positions _
  | cons crumb above ih =>
    obtain ⟨kind, span, left, right⟩ := crumb
    refine positions_subset ?_ [] _ (ih (.node kind span (left.reverse ++ focus :: right)))
    have hchild := mem_positionsAmong kind span above left.reverse focus [] right
    rw [List.reverse_reverse, List.append_nil] at hchild
    rw [positions]
    exact List.mem_cons_of_mem _ hchild

mutual

theorem root_of_mem_positions {c : Cursor} :
    ∀ (crumbs : List Crumb) (t : SyntaxTree), c ∈ positions crumbs t → c.root = rebuild t crumbs
  | crumbs, .node kind span children, hc => by
    rw [positions] at hc
    rcases List.mem_cons.mp hc with rfl | hc
    · rfl
    · exact root_of_mem_positionsAmong kind span crumbs [] children hc

theorem root_of_mem_positionsAmong {c : Cursor} (kind : String) (span : Span)
    (crumbs : List Crumb) :
    ∀ left children : List SyntaxTree, c ∈ positionsAmong kind span crumbs left children →
      c.root = rebuild (.node kind span (left.reverse ++ children)) crumbs
  | _, [], hc => by
    rw [positionsAmong] at hc
    cases hc
  | left, child :: rest, hc => by
    rw [positionsAmong, List.mem_append] at hc
    rcases hc with hc | hc
    · exact root_of_mem_positions _ child hc
    · rw [root_of_mem_positionsAmong kind span crumbs (child :: left) rest hc]
      simp

end

theorem mem_positions_iff {c : Cursor} {tree : SyntaxTree} :
    c ∈ positions [] tree ↔ c.root = tree := by
  constructor
  · exact root_of_mem_positions [] tree
  · rintro rfl
    exact mem_positions_root c

mutual

theorem map_pending_positions : ∀ (crumbs : List Crumb) (t : SyntaxTree),
    (positions crumbs t).map pending = (List.range' (pendingRight crumbs + 1) t.size).reverse
  | crumbs, .node kind span children => by
    rw [positions, List.map_cons, map_pending_positionsAmong kind span crumbs [] children,
      SyntaxTree.size, List.range'_1_concat, List.reverse_append]
    simp only [pending, SyntaxTree.size, List.reverse_singleton, List.singleton_append,
      List.cons.injEq, and_true]
    omega

theorem map_pending_positionsAmong (kind : String) (span : Span) (crumbs : List Crumb) :
    ∀ left children : List SyntaxTree,
      (positionsAmong kind span crumbs left children).map pending =
        (List.range' (pendingRight crumbs + 1) (SyntaxTree.sizes children)).reverse
  | _, [] => by
    rw [positionsAmong, SyntaxTree.sizes]
    rfl
  | left, child :: rest => by
    rw [positionsAmong, List.map_append, map_pending_positions _ child,
      map_pending_positionsAmong kind span crumbs (child :: left) rest, ← List.reverse_append,
      pendingRight, SyntaxTree.sizes, Nat.add_comm child.size]
    have hstart : SyntaxTree.sizes rest + pendingRight crumbs + 1 =
        pendingRight crumbs + 1 + SyntaxTree.sizes rest := by omega
    rw [hstart, List.range'_append_1]

end

theorem nodup_positions (tree : SyntaxTree) : (positions [] tree).Nodup := by
  refine List.Nodup.of_map pending ?_
  rw [map_pending_positions]
  exact List.nodup_reverse.mpr List.nodup_range'

theorem length_positions (tree : SyntaxTree) : (positions [] tree).length = tree.size := by
  rw [← List.length_map pending, map_pending_positions, List.length_reverse, List.length_range']

end Cursor

-- ═══════════════════════════════════════════════════════════════════════════
-- The way through a tree, move by move
-- ═══════════════════════════════════════════════════════════════════════════

inductive CountingState where
  /-- The focus is met for the first time. -/
  | visit (c : Cursor) (count : UInt32)
  /-- Everything in the focus has been met. -/
  | leave (c : Cursor) (count : UInt32)
  | done (count : UInt32)

namespace CountingState

/-- One move of the cursor: down from a node that is met, otherwise to the next sibling or else up.
The way ends where there is no way up. -/
def step (decisions : KindTable DecisionKind) : CountingState → CountingState
  | visit c count =>
    let count := if (classify c.focus.kind decisions).isSome then count + 1 else count
    match c.firstChild? with
    | some child => visit child count
    | none => leave c count
  | leave c count =>
    match c.nextSibling? with
    | some sibling => visit sibling count
    | none =>
      match c.parent? with
      | some parent => leave parent count
      | none => done count
  | done count => done count

def cursor? : CountingState → Option Cursor
  | visit c _ | leave c _ => some c
  | done _ => none

/-- The node that is met for the first time, if it is one. -/
def met : CountingState → List Cursor
  | visit c _ => [c]
  | _ => []

/-- Makes a number of moves. Also answers the nodes that were met on the way. -/
def run (decisions : KindTable DecisionKind) : Nat → CountingState → List Cursor × CountingState
  | 0, s => ([], s)
  | n + 1, s =>
    let (later, last) := run decisions n (s.step decisions)
    (s.met ++ later, last)

variable {decisions : KindTable DecisionKind}

theorem run_add (m n : Nat) (s : CountingState) :
    run decisions (m + n) s =
      ((run decisions m s).1 ++ (run decisions n (run decisions m s).2).1,
        (run decisions n (run decisions m s).2).2) := by
  induction m generalizing s with
  | zero => simp [run]
  | succ m ih => simp only [Nat.succ_add, run, ih, List.append_assoc]

theorem run_done (n : Nat) (count : UInt32) : run decisions n (done count) = ([], done count) := by
  induction n with
  | zero => rfl
  | succ n ih => simp only [run, step, ih, met, List.nil_append]

theorem done_unique {s : CountingState} {m n : Nat} {a b : UInt32}
    (ha : (run decisions m s).2 = done a) (hb : (run decisions n s).2 = done b) : a = b := by
  -- both runs go on to the same length, and nothing changes behind the end
  have hleft : (run decisions (m + n) s).2 = done a := by rw [run_add, ha, run_done]
  have hright : (run decisions (n + m) s).2 = done b := by rw [run_add, hb, run_done]
  rw [Nat.add_comm, hright] at hleft
  exact (CountingState.done.inj hleft).symm

theorem root_step {s : CountingState} {d : Cursor} (h : d ∈ (s.step decisions).cursor?) :
    ∃ c ∈ s.cursor?, d.root = c.root := by
  match s with
  | visit c count =>
    refine ⟨c, rfl, ?_⟩
    rw [step] at h
    split at h
    · next child hchild =>
      obtain rfl := Option.some.inj h
      exact Cursor.root_firstChild? hchild
    · obtain rfl := Option.some.inj h
      rfl
  | leave c count =>
    refine ⟨c, rfl, ?_⟩
    rw [step] at h
    split at h
    · next sibling hsibling =>
      obtain rfl := Option.some.inj h
      exact Cursor.root_nextSibling? hsibling
    · split at h
      · next parent hparent =>
        obtain rfl := Option.some.inj h
        exact Cursor.root_parent? hparent
      · cases h
  | done count => cases h

theorem root_run {s : CountingState} {n : Nat} {d : Cursor}
    (h : d ∈ (run decisions n s).2.cursor?) : ∃ c ∈ s.cursor?, d.root = c.root := by
  induction n generalizing s with
  | zero => exact ⟨d, h, rfl⟩
  | succ n ih =>
    obtain ⟨mid, hmid, hroot⟩ := ih h
    obtain ⟨c, hc, hstep⟩ := root_step hmid
    exact ⟨c, hc, hroot.trans hstep⟩

-- ═══════════════════════════════════════════════════════════════════════════
-- What is met and counted
-- ═══════════════════════════════════════════════════════════════════════════

variable (decisions)

theorem leave_climbs (focus : SyntaxTree) (crumbs : List Crumb) (count : UInt32) :
    ∃ n, (run decisions n (leave ⟨focus, crumbs⟩ count)).2 =
      match Cursor.climbFrom focus crumbs with
      | some d => visit d count
      | none => done count := by
  induction crumbs generalizing focus with
  | nil => exact ⟨1, rfl⟩
  | cons crumb above ih =>
    obtain ⟨kind, span, left, right⟩ := crumb
    cases right with
    | nil =>
      obtain ⟨n, hn⟩ := ih (.node kind span (left.reverse ++ [focus]))
      exact ⟨n + 1, hn⟩
    | cons sibling right => exact ⟨1, rfl⟩

theorem visit_walks (c : Cursor) (count : UInt32) :
    ∃ n, (run decisions n (visit c count)).2 =
      match c.next? with
      | some d => visit d (if (classify c.focus.kind decisions).isSome then count + 1 else count)
      | none => done (if (classify c.focus.kind decisions).isSome then count + 1 else count) := by
  cases hchild : c.firstChild? with
  | some child => exact ⟨1, by simp [run, step, Cursor.next?, hchild]⟩
  | none =>
    obtain ⟨n, hn⟩ := leave_climbs decisions c.focus c.crumbs
      (if (classify c.focus.kind decisions).isSome then count + 1 else count)
    refine ⟨n + 1, ?_⟩
    simp only [run, step, Cursor.next?, hchild]
    exact hn

/-- From every node on, the moves end with the count of the walk in preorder. -/
theorem run_countDecisions (c : Cursor) (count : UInt32) :
    ∃ n, (run decisions n (visit c count)).2 = done (countDecisions decisions c count) := by
  obtain ⟨m, hm⟩ := visit_walks decisions c count
  rw [countDecisions]
  split
  · next d hnext =>
    have := Cursor.pending_next? hnext
    rw [hnext] at hm
    obtain ⟨n, hn⟩ := run_countDecisions d
      (if (classify c.focus.kind decisions).isSome then count + 1 else count)
    refine ⟨m + n, ?_⟩
    rw [run_add, hm]
    exact hn
  · next hnext =>
    rw [hnext] at hm
    exact ⟨m, hm⟩
termination_by c.pending

variable {decisions}

/-- The state behind the children in `left`, with the other ones still to be met. -/
def among (kind : String) (span : Span) (crumbs : List Crumb) (left : List SyntaxTree) :
    List SyntaxTree → UInt32 → CountingState
  | [], count => leave ⟨.node kind span left.reverse, crumbs⟩ count
  | child :: rest, count => visit ⟨child, ⟨kind, span, left, rest⟩ :: crumbs⟩ count

theorem step_leave (kind : String) (span : Span) (crumbs : List Crumb)
    (left rest : List SyntaxTree) (child : SyntaxTree) (count : UInt32) :
    step decisions (leave ⟨child, ⟨kind, span, left, rest⟩ :: crumbs⟩ count) =
      among kind span crumbs (child :: left) rest count := by
  cases rest with
  | nil => simp [step, among, Cursor.nextSibling?, Cursor.parent?]
  | cons sibling rest => rfl

theorem step_visit (kind : String) (span : Span) (crumbs : List Crumb)
    (children : List SyntaxTree) (count : UInt32) :
    step decisions (visit ⟨.node kind span children, crumbs⟩ count) =
      among kind span crumbs [] children
        (if (classify kind decisions).isSome then count + 1 else count) := by
  cases children with
  | nil => rfl
  | cons child rest => rfl

theorem add_decision (p : Prop) [Decidable p] (count : UInt32) (n : Nat) :
    (if p then count + 1 else count) + UInt32.ofNat n =
      count + UInt32.ofNat ((if p then 1 else 0) + n) := by
  split <;> simp [UInt32.add_assoc]

mutual

/-- The way through a subtree meets each of its nodes once, in preorder, counts the decisions among
them and then leaves the subtree. -/
theorem run_tree : ∀ (t : SyntaxTree) (crumbs : List Crumb) (count : UInt32),
    run decisions (2 * t.size) (visit ⟨t, crumbs⟩ count) =
      (Cursor.positions crumbs t,
        step decisions (leave ⟨t, crumbs⟩ (count + UInt32.ofNat (t.decisionCount decisions))))
  | .node kind span children, crumbs, count => by
    have hsteps : 2 * (SyntaxTree.node kind span children).size =
        1 + (2 * SyntaxTree.sizes children + 1) := by
      rw [SyntaxTree.size]
      omega
    rw [hsteps, run_add, run_add]
    simp only [run, met, step_visit, run_children kind span crumbs [] children, add_decision,
      Cursor.positions, SyntaxTree.decisionCount, List.reverse_nil, List.nil_append,
      List.append_nil, List.singleton_append]

theorem run_children (kind : String) (span : Span) (crumbs : List Crumb) :
    ∀ (left children : List SyntaxTree) (count : UInt32),
      run decisions (2 * SyntaxTree.sizes children) (among kind span crumbs left children count) =
        (Cursor.positionsAmong kind span crumbs left children,
          leave ⟨.node kind span (left.reverse ++ children), crumbs⟩
            (count + UInt32.ofNat (SyntaxTree.decisionCounts decisions children)))
  | left, [], count => by
    simp [SyntaxTree.sizes, run, among, Cursor.positionsAmong, SyntaxTree.decisionCounts]
  | left, child :: rest, count => by
    rw [SyntaxTree.sizes, Nat.mul_add, run_add, among, run_tree child]
    dsimp only
    rw [step_leave, run_children kind span crumbs (child :: left) rest]
    simp [Cursor.positionsAmong, SyntaxTree.decisionCounts, UInt32.add_assoc]

end

theorem run_ofTree (tree : SyntaxTree) :
    run decisions (2 * tree.size) (visit (.ofTree tree) 1) =
      (Cursor.positions [] tree, done (1 + UInt32.ofNat (tree.decisionCount decisions))) :=
  run_tree tree [] 1

end CountingState

theorem complexity_eq (tree : SyntaxTree) (decisions : KindTable DecisionKind) :
    complexity tree decisions = 1 + UInt32.ofNat (tree.decisionCount decisions) := by
  obtain ⟨n, hn⟩ := CountingState.run_countDecisions decisions (.ofTree tree) 1
  exact CountingState.done_unique hn (congrArg Prod.snd (CountingState.run_ofTree tree))

-- ═══════════════════════════════════════════════════════════════════════════
-- Decisions among the nodes
-- ═══════════════════════════════════════════════════════════════════════════

variable {decisions : KindTable DecisionKind}

theorem isSome_classify {kind : String} :
    (classify kind decisions).isSome = true ↔ kind ∈ decisions.map (·.1) := by
  rw [classify, KindTable.lookup?, Option.isSome_map, List.find?_isSome, List.mem_map]
  simp only [beq_iff_eq]

mutual

theorem countP_positions : ∀ (crumbs : List Crumb) (t : SyntaxTree),
    (Cursor.positions crumbs t).countP (fun c => c.focus.kind ∈ decisions.map (·.1)) =
      t.decisionCount decisions
  | crumbs, .node kind span children => by
    have hkind : decide (kind ∈ decisions.map (·.1)) = (classify kind decisions).isSome := by
      rw [Bool.eq_iff_iff, decide_eq_true_iff, isSome_classify]
    rw [Cursor.positions, List.countP_cons, countP_positionsAmong kind span crumbs [] children,
      SyntaxTree.decisionCount, Nat.add_comm, SyntaxTree.kind, hkind]

theorem countP_positionsAmong (kind : String) (span : Span) (crumbs : List Crumb) :
    ∀ left children : List SyntaxTree,
      (Cursor.positionsAmong kind span crumbs left children).countP
          (fun c => c.focus.kind ∈ decisions.map (·.1)) =
        SyntaxTree.decisionCounts decisions children
  | _, [] => rfl
  | left, child :: rest => by
    rw [Cursor.positionsAmong, List.countP_append, countP_positions _ child,
      countP_positionsAmong kind span crumbs (child :: left) rest, SyntaxTree.decisionCounts]

end

/-- The way through a tree ends after two moves for each node. By then it has met every node of the
tree once, and the complexity is one more than the number of nodes whose kind is in the table. -/
theorem complexity_counts_nodes {tree : SyntaxTree}
    (h : tree.decisionCount decisions < 2 ^ 32 - 1) :
    (complexity tree decisions).toNat = 1 + tree.decisionCount decisions ∧
      tree.decisionCount decisions =
        (Cursor.positions [] tree).countP (fun c => c.focus.kind ∈ decisions.map (·.1)) ∧
      CountingState.run decisions (2 * tree.size) (.visit (.ofTree tree) 1) =
        (Cursor.positions [] tree, .done (complexity tree decisions)) ∧
      (Cursor.positions [] tree).Nodup ∧
      (∀ c, c ∈ Cursor.positions [] tree ↔ c.root = tree) ∧
      ∀ moves, ∀ c ∈ (CountingState.run decisions moves (.visit (.ofTree tree) 1)).2.cursor?,
        c.root = tree := by
  refine ⟨?_, (countP_positions [] tree).symm, ?_, Cursor.nodup_positions tree,
    fun c => Cursor.mem_positions_iff, ?_⟩
  · rw [complexity_eq, UInt32.toNat_add, UInt32.toNat_one, UInt32.toNat_ofNat']
    omega
  · rw [complexity_eq]
    exact CountingState.run_ofTree tree
  · intro moves c hc
    obtain ⟨start, hstart, hroot⟩ := CountingState.root_run hc
    obtain rfl := Option.some.inj hstart
    exact hroot

/-- Two equal decisions below a third one, with a kind that is listed twice. -/
theorem complexity_counts_nodes_sample :
    let table : KindTable DecisionKind :=
      [("if", .conditional), ("for", .forLoop), ("if", .caseBranch)]
    let leaf : SyntaxTree := .node "if" ⟨0, 2, 0, 0⟩ []
    let tree : SyntaxTree :=
      .node "for" ⟨0, 9, 0, 0⟩ [leaf, .node "block" ⟨2, 4, 0, 0⟩ [leaf], .node "x" ⟨4, 5, 0, 0⟩ []]
    tree.decisionCount table < 2 ^ 32 - 1 ∧ (complexity tree table).toNat = 4 ∧
      (Cursor.positions [] tree).length = 5 := by
  intro table leaf tree
  have hcount : tree.decisionCount table = 3 := by decide
  have hsmall : tree.decisionCount table < 2 ^ 32 - 1 := by omega
  refine ⟨hsmall, ?_, Cursor.length_positions tree⟩
  rw [(complexity_counts_nodes hsmall).1, hcount]

end LegacyAudit
