import LegacyAudit.Proofs.Yaml.Layout
import LegacyAudit.Yaml.Token.Reader
import Mathlib.Logic.Relation

/-!
# Moves of the token reader

Every token takes at least one character, so a run of the reader is a chain of moves along a text
that gets shorter. Between two lines it settles: it skips blanks, forgets a key that came to nothing
and closes the blocks that lie right of the new line.

## Main definitions

- `TokenReader.Move` - one token is read
- `TokenReader.bare` - a state without a possible key, outside of flow collections
- `TokenReader.Arrives` - all that is left to do in front of a place is to close blocks
- `exists_fuel_of_reaches`, `TokenReader.readAll_of_reaches` - chains of moves are parts of runs
-/

namespace LegacyAudit.Yaml

open Content (blanks)

/-- A run with enough fuel goes on from wherever moves lead that make the state lighter. -/
theorem exists_fuel_of_reaches {σ ρ : Type} {move : σ → σ → Prop} {weight : σ → Nat}
    {run : Nat → σ → ρ}
    (hmove : ∀ {s s'}, move s s' → weight s' < weight s ∧ ∀ fuel, run (fuel + 1) s = run fuel s')
    {s s' : σ} (h : Relation.ReflTransGen move s s') {fuel : Nat} (hfuel : weight s < fuel) :
    ∃ fuel', weight s' < fuel' ∧ run fuel s = run fuel' s' := by
  induction h using Relation.ReflTransGen.head_induction_on generalizing fuel with
  | refl => exact ⟨fuel, hfuel, rfl⟩
  | head hfirst _ ih =>
    obtain ⟨hlighter, hstep⟩ := hmove hfirst
    obtain ⟨fuel, rfl⟩ : ∃ f, fuel = f + 1 := ⟨fuel - 1, by omega⟩
    obtain ⟨fuel', hfuel', hrest⟩ := @ih fuel (by omega)
    exact ⟨fuel', hfuel', (hstep fuel).trans hrest⟩

namespace TokenReader

/-- A token is read, and the text gets shorter. -/
structure Move (r r' : TokenReader) : Prop where
  step : r.step = .ok (r', false)
  shorter : r'.cursor.rest.length < r.cursor.rest.length

abbrev Reaches : TokenReader → TokenReader → Prop :=
  Relation.ReflTransGen Move

theorem Move.readAll_succ {r r' : TokenReader} (h : Move r r') (fuel : Nat) :
    readAll (fuel + 1) r = readAll fuel r' := by
  rw [readAll, h.step]
  rfl

theorem readAll_of_reaches {r r' : TokenReader} (h : Reaches r r') {fuel : Nat}
    (hfuel : r.cursor.rest.length < fuel) :
    ∃ fuel', r'.cursor.rest.length < fuel' ∧ readAll fuel r = readAll fuel' r' :=
  @exists_fuel_of_reaches _ _ _ (fun r : TokenReader => r.cursor.rest.length) _
    (fun hmove => ⟨hmove.shorter, hmove.readAll_succ⟩) _ _ h _ hfuel

def settle (r : TokenReader) : Except Fault TokenReader := do
  let r ← (r.skipBlank (r.cursor.rest.length + 1)).dropStaleKeys
  return r.closeBlocks (r.cursor.mark.column + 1)

theorem step_eq (r : TokenReader) : r.step = r.settle >>= fun r =>
    match r.cursor.peek with
    | none => do return (← r.readEnd, true)
    | some ch => do return (← r.readToken ch, false) := by
  rw [step, settle]
  cases (r.skipBlank (r.cursor.rest.length + 1)).dropStaleKeys <;> rfl

theorem step_of_settle {r r₁ r₂ : TokenReader} {ch : Char} (hsettle : r.settle = .ok r₁)
    (hpeek : r₁.cursor.peek = some ch) (hread : r₁.readToken ch = .ok r₂) :
    r.step = .ok (r₂, false) := by
  rw [step_eq, hsettle]
  simp only [bind, Except.bind, hpeek, hread]
  rfl

def standing (c : Cursor) (tokens : List Token) (level : Nat) (levels : List Nat)
    (keyAllowed : Bool) (key : Option PossibleKey) : TokenReader :=
  { cursor := c, tokens, count := tokens.length, level, levels, keyAllowed, key }

/-- A state outside of flow collections in which no key has begun. -/
abbrev bare (c : Cursor) (tokens : List Token) (level : Nat) (levels : List Nat)
    (keyAllowed : Bool) : TokenReader :=
  standing c tokens level levels keyAllowed none

variable {r : TokenReader} {c : Cursor} {tokens : List Token} {level outer : Nat}
  {levels : List Nat} {keyAllowed : Bool} {key : Option PossibleKey} {m : Mark}
  {body rest : List Char}

/-- In front of the place `c` only blocks are left to be closed. -/
structure Arrives (r : TokenReader) (c : Cursor) (tokens : List Token) (level : Nat)
    (levels : List Nat) (keyAllowed : Bool) : Prop where
  settles : r.settle =
    .ok ((bare c tokens level levels keyAllowed).closeBlocks (c.mark.column + 1))
  shorter : c.rest.length ≤ r.cursor.rest.length

theorem Arrives.pop (h : Arrives r c tokens level (outer :: levels) keyAllowed)
    (hcolumn : c.mark.column + 1 < level) :
    Arrives r c (.blockEnd :: tokens) outer levels keyAllowed := by
  refine ⟨h.settles.trans ?_, h.shorter⟩
  congr 1
  exact if_pos hcolumn

theorem closeBlocks_bare (hlevel : level ≤ c.mark.column + 1) :
    (standing c tokens level levels keyAllowed key).closeBlocks (c.mark.column + 1) =
      standing c tokens level levels keyAllowed key := by
  cases levels with
  | nil => rfl
  | cons outer levels => exact if_neg (Nat.not_lt.mpr hlevel)

theorem Arrives.move {ch : Char} {r' : TokenReader}
    (h : Arrives r ⟨ch :: rest, m⟩ tokens level levels keyAllowed) (hlevel : level ≤ m.column + 1)
    (hread : (bare ⟨ch :: rest, m⟩ tokens level levels keyAllowed).readToken ch = .ok r')
    (hshorter : r'.cursor.rest.length ≤ rest.length) : Move r r' where
  step := by
    have hsettle := h.settles
    rw [closeBlocks_bare hlevel] at hsettle
    exact step_of_settle hsettle rfl hread
  shorter := Nat.lt_of_le_of_lt hshorter h.shorter

/-- A possible key that is given up silently in the line `line`. -/
def Fades (key : Option PossibleKey) (line : Nat) : Prop :=
  ∀ k ∈ key, k.required = false ∧ k.mark.line < line

theorem fades_none {line : Nat} : Fades none line := by
  simp [Fades]

theorem freshKey_of_fades {here : Mark} (h : Fades key here.line) :
    freshKey here key = .ok none := by
  cases key with
  | none => rfl
  | some k =>
    obtain ⟨hrequired, hline⟩ := h k rfl
    simp [freshKey, hline, hrequired]

theorem skipWhile_blanks (count : Nat) {wanted : Char → Bool} (hspace : wanted ' ' = true)
    (hbody : ∀ d ∈ body.head?, wanted d = false) :
    (⟨blanks count ++ body, m⟩ : Cursor).skipWhile wanted = ⟨body, m.skip (blanks count)⟩ := by
  have hblanks : ∀ d ∈ blanks count, wanted d = true := by
    intro d hd
    rw [List.eq_of_mem_replicate hd]
    exact hspace
  have htake : body.takeWhile wanted = [] := by
    cases body with
    | nil => rfl
    | cons d body => simp [hbody d rfl]
  have hwhile : (blanks count ++ body).takeWhile wanted = blanks count := by
    rw [List.takeWhile_append_of_pos hblanks, htake, List.append_nil]
  simp [Cursor.skipWhile, Cursor.while_, Cursor.skip, hwhile]

/-- The place behind a byte order mark, blanks and a comment. -/
def behindFiller (tabs : Bool) (c : Cursor) : Cursor :=
  let c := if c.mark.column = 0 && c.peek = some '\ufeff' then c.skip 1 else c
  let c := c.skipWhile fun ch => ch = ' ' || (tabs && ch = '\t')
  if c.peek = some '#' then c.skipWhile fun ch => !isBreak ch else c

theorem skipBlank_succ (fuel : Nat) (r : TokenReader) : r.skipBlank (fuel + 1) =
    match (behindFiller (r.inFlow || !r.keyAllowed) r.cursor).break? with
    | some (_, c) => skipBlank fuel { r with cursor := c, keyAllowed := r.keyAllowed || !r.inFlow }
    | none => { r with cursor := behindFiller (r.inFlow || !r.keyAllowed) r.cursor } := rfl

theorem behindFiller_blanks (tabs : Bool) (count : Nat)
    (hbody : ∀ d ∈ body.head?, isGap d = false ∧ d ≠ '#' ∧ d ≠ '\ufeff') :
    behindFiller tabs ⟨blanks count ++ body, m⟩ = ⟨body, m.skip (blanks count)⟩ := by
  have hmark : (⟨blanks count ++ body, m⟩ : Cursor).peek ≠ some '\ufeff' := by
    intro hpeek
    cases count with
    | zero => exact (hbody _ hpeek).2.2 rfl
    | succ count => exact absurd (Option.some.inj hpeek) (by decide)
  have hhash : (⟨body, m.skip (blanks count)⟩ : Cursor).peek ≠ some '#' :=
    fun hpeek => (hbody _ hpeek).2.1 rfl
  have hstop : ∀ d ∈ body.head?, (decide (d = ' ') || (tabs && decide (d = '\t'))) = false := by
    intro d hd
    have hgap := (hbody d hd).1
    simp only [isGap, Bool.or_eq_false_iff] at hgap
    simp [hgap]
  simp only [behindFiller, hmark, decide_false, Bool.and_false, Bool.false_eq_true, if_false]
  rw [skipWhile_blanks count (by simp) hstop, if_neg hhash]

theorem break?_of_solid (hbody : Solid body) : (⟨body, m⟩ : Cursor).break? = none := by
  unfold Cursor.break?
  split
  · next heq =>
    have hbreak := (hbody '\r' (by simp [show body = _ from heq])).2.1
    exact absurd hbreak (by decide)
  · next b rest _ heq =>
    have hbreak := (hbody b (by simp [show body = _ from heq])).2.1
    exact if_neg (by simp [hbreak])
  · rfl

theorem skipBlank_blanks (hbody : Solid body) (count fuel : Nat) :
    (standing ⟨blanks count ++ body, m⟩ tokens level levels keyAllowed key).skipBlank (fuel + 1) =
      standing ⟨body, m.skip (blanks count)⟩ tokens level levels keyAllowed key := by
  have hfiller : ∀ tabs, behindFiller tabs ⟨blanks count ++ body, m⟩ =
      ⟨body, m.skip (blanks count)⟩ := by
    intro tabs
    apply behindFiller_blanks
    intro d hd
    obtain ⟨hgap, _, hhash, hmark⟩ := hbody d hd
    exact ⟨hgap, hhash, hmark⟩
  rw [skipBlank_succ]
  simp only [standing, hfiller, break?_of_solid hbody]

/-- A line end and the blanks behind it are skipped, and a key may begin there. -/
theorem skipBlank_line_end (hbody : Solid body) (count fuel : Nat) :
    (standing ⟨'\n' :: (blanks count ++ body), m⟩ tokens level levels keyAllowed key).skipBlank
        (fuel + 2) =
      standing ⟨body, m.indented count⟩ tokens level levels true key := by
  have hfiller (tabs : Bool) : behindFiller tabs ⟨'\n' :: (blanks count ++ body), m⟩ =
      ⟨'\n' :: (blanks count ++ body), m⟩ :=
    behindFiller_blanks tabs 0 (by simp [isGap])
  have hbreak : (⟨'\n' :: (blanks count ++ body), m⟩ : Cursor).break? =
      some ('\n', ⟨blanks count ++ body, m.nextLine 1⟩) := rfl
  rw [skipBlank_succ]
  simp only [standing, hfiller, hbreak, inFlow, List.isEmpty_nil, Bool.not_true, Bool.not_false,
    Bool.or_true]
  exact skipBlank_blanks hbody count fuel

theorem settle_of_skipBlank {r₁ r₂ : TokenReader}
    (hskip : r.skipBlank (r.cursor.rest.length + 1) = r₁) (hdrop : r₁.dropStaleKeys = .ok r₂) :
    r.settle = .ok (r₂.closeBlocks (r₂.cursor.mark.column + 1)) := by
  rw [settle, hskip, hdrop]
  rfl

theorem dropStaleKeys_standing {fresh : Option PossibleKey}
    (hkey : freshKey c.mark key = .ok fresh) :
    (standing c tokens level levels keyAllowed key).dropStaleKeys =
      .ok (standing c tokens level levels keyAllowed fresh) := by
  change (freshKey c.mark key >>= _) = _
  rw [hkey]
  rfl

/-- In front of something solid nothing is left to be done while a key may still come to be. -/
theorem settle_standing (hbody : Solid body) (hkey : freshKey m key = .ok key)
    (hlevel : level ≤ m.column + 1) :
    (standing ⟨body, m⟩ tokens level levels keyAllowed key).settle =
      .ok (standing ⟨body, m⟩ tokens level levels keyAllowed key) := by
  have hskip := @skipBlank_blanks tokens level levels keyAllowed key m body hbody 0 body.length
  refine (settle_of_skipBlank hskip (dropStaleKeys_standing hkey)).trans ?_
  exact congrArg Except.ok (closeBlocks_bare hlevel)

theorem arrives_line_end (hbody : Solid body) (count : Nat) (hkey : Fades key (m.line + 1)) :
    Arrives (standing ⟨'\n' :: (blanks count ++ body), m⟩ tokens level levels keyAllowed key)
      ⟨body, m.indented count⟩ tokens level levels true where
  settles := by
    apply settle_of_skipBlank (skipBlank_line_end hbody count _)
    apply dropStaleKeys_standing
    apply freshKey_of_fades
    rwa [Mark.indented_line]
  shorter := by
    simp only [standing, List.length_cons, List.length_append]
    omega

theorem arrives_blanks (hbody : Solid body) (count : Nat) (hkey : Fades key m.line) :
    Arrives (standing ⟨blanks count ++ body, m⟩ tokens level levels keyAllowed key)
      ⟨body, m.skip (blanks count)⟩ tokens level levels keyAllowed where
  settles := by
    apply settle_of_skipBlank (skipBlank_blanks hbody count _)
    apply dropStaleKeys_standing
    apply freshKey_of_fades
    rwa [(m.skip_spec (blanks count)).2.1]
  shorter := by
    simp only [standing, List.length_append]
    omega

end TokenReader

end LegacyAudit.Yaml
