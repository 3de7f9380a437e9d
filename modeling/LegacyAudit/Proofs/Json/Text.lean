import LegacyAudit.Json.Reader
import LegacyAudit.Json.Writer
import LegacyAudit.Proofs.Text.Decimal
import Mathlib.Tactic.SplitIfs

/-!
# JSON texts and their values

An indented text is that of one value only: strings are quoted, numbers end where no digit and no
exponent follows, and lists end with their bracket.

## Main definitions

- `Json.Stops` - what may stand behind a number
- `Json.readString_quoted` - a quoted string is read back
- `Json.rows` - items or members line by line
- `Json.pretty_injective` - different values have different texts
-/

namespace LegacyAudit.Json

open LegacyAudit.Text

def Stops (s : List Char) : Prop :=
  ∀ c ∈ s.head?, c.isDigit = false ∧ c ≠ 'e'

theorem stops_cons {c : Char} {s : List Char} (hdigit : c.isDigit = false) (hexponent : c ≠ 'e') :
    Stops (c :: s) := by
  intro d hd
  obtain rfl := Option.some.inj hd
  exact ⟨hdigit, hexponent⟩

/-- The end of a text that is written in front of another one can be seen. -/
def Delimits {α : Type} (write : α → List Char) (x : α) : Prop :=
  ∀ (y : α) ⦃rest rest' : List Char⦄, Stops rest → Stops rest' →
    write x ++ rest = write y ++ rest' → x = y ∧ rest = rest'

theorem readNumbered_control {n : Nat} (h : n < 0x20) (rest : List Char) :
    readNumbered ('0' :: '0' :: digitChar (n / 16) :: digitChar (n % 16) :: rest) =
      some (Char.ofNat n, rest) := by
  have hzero : digitValue? '0' = some 0 := rfl
  have hvalue : n / 16 * 16 + n % 16 = n := Nat.div_add_mod' n 16
  have hunit : readUnit ('0' :: '0' :: digitChar (n / 16) :: digitChar (n % 16) :: rest) =
      some (n, rest) := by
    simp [readUnit, numeral?, numeralFrom?, hzero, hvalue,
      digitValue?_digitChar (show n / 16 < 16 by omega),
      digitValue?_digitChar (show n % 16 < 16 by omega), show n / 16 < 16 by omega,
      show n % 16 < 16 by omega]
  rw [readNumbered, hunit]
  simp only [Option.bind_eq_bind, Option.bind_some]
  rw [if_neg (by omega), if_neg (by omega)]

theorem readString_plain {c : Char} (hquote : c ≠ '"') (hbackslash : c ≠ '\\')
    (hcontrol : ¬c.toNat < 0x20) (fuel : Nat) (done rest : List Char) :
    readString (fuel + 1) done (c :: rest) = readString fuel (c :: done) rest := by
  rw [readString.eq_def]
  dsimp only
  split
  · next h => cases h
  · next h => exact absurd (List.cons.inj h).1 hquote
  · next h => exact absurd (List.cons.inj h).1 hbackslash
  · next h => exact absurd (List.cons.inj h).1 hbackslash
  · next h =>
    obtain ⟨rfl, rfl⟩ := List.cons.inj h
    rw [if_neg hcontrol]

theorem readString_escapeChar (c : Char) (fuel : Nat) (done rest : List Char) :
    readString (fuel + 1) done (escapeChar c ++ rest) = readString fuel (c :: done) rest := by
  unfold escapeChar
  split_ifs with hquote hbackslash hfeed hreturn htab hbell hform hcontrol
  · subst hquote; rfl
  · subst hbackslash; rfl
  · subst hfeed; rfl
  · subst hreturn; rfl
  · subst htab; rfl
  · subst hbell; rfl
  · subst hform; rfl
  · simp only [List.cons_append, List.nil_append, readString, readNumbered_control hcontrol,
      Option.bind_eq_bind, Option.bind_some, Char.ofNat_toNat]
  · exact readString_plain hquote hbackslash hcontrol fuel done rest

theorem readString_quoted (s done rest : List Char) (fuel : Nat) (h : s.length < fuel) :
    readString fuel done (s.flatMap escapeChar ++ '"' :: rest) =
      some (String.ofList (done.reverse ++ s), rest) := by
  obtain ⟨fuel, rfl⟩ : ∃ n, fuel = n + 1 := ⟨fuel - 1, by omega⟩
  induction s generalizing fuel done with
  | nil => simp [readString]
  | cons c s ih =>
    rw [List.length_cons] at h
    obtain ⟨fuel, rfl⟩ : ∃ n, fuel = n + 1 := ⟨fuel - 1, by omega⟩
    rw [List.flatMap_cons, List.append_assoc, readString_escapeChar, ih (c :: done) fuel (by omega)]
    simp

theorem quote_append_inj {s t : String} {rest rest' : List Char}
    (h : quote s ++ rest = quote t ++ rest') : s = t ∧ rest = rest' := by
  have hread : ∀ (u : String) (more : List Char) (fuel : Nat), u.toList.length < fuel →
      readString fuel [] ((quote u ++ more).tail) = some (u, more) := by
    intro u more fuel hfuel
    have hquoted := readString_quoted u.toList [] more fuel hfuel
    rw [List.reverse_nil, List.nil_append, String.ofList_toList] at hquoted
    simpa [quote] using hquoted
  have hs := hread s rest (s.toList.length + t.toList.length + 1) (by omega)
  rw [h, hread t rest' _ (by omega)] at hs
  simpa [eq_comm] using hs

def signedChars (negative : Bool) (n : Nat) : List Char :=
  (if negative then ['-'] else []) ++ decimalChars n

theorem wholeChars_eq (n : Int) : wholeChars n = signedChars (decide (n < 0)) n.natAbs := by
  by_cases h : n < 0 <;> simp [wholeChars, signedChars, h]

theorem realChars_eq (d : Decimal) :
    realChars d = signedChars d.negative d.significand ++ 'e' :: wholeChars d.exponent := by
  simp [realChars, signedChars]

theorem exists_decimalChars_eq_cons (n : Nat) :
    ∃ c more, decimalChars n = c :: more ∧ c.isDigit = true := by
  obtain ⟨c, more, h⟩ := List.exists_cons_of_ne_nil (decimalChars_ne_nil n)
  exact ⟨c, more, h, isDigit_of_mem_decimalChars (n := n) c (by simp [h])⟩

theorem decimalChars_append_ne_minus {n : Nat} {rest rest' : List Char} :
    decimalChars n ++ rest ≠ '-' :: rest' := by
  obtain ⟨c, more, hn, hc⟩ := exists_decimalChars_eq_cons n
  rw [hn]
  intro h
  obtain rfl := (List.cons.inj h).1
  cases hc

theorem signedChars_append_inj {a b : Bool} {m n : Nat} {rest rest' : List Char}
    (hrest : ∀ c ∈ rest.head?, c.isDigit = false) (hrest' : ∀ c ∈ rest'.head?, c.isDigit = false)
    (h : signedChars a m ++ rest = signedChars b n ++ rest') :
    a = b ∧ m = n ∧ rest = rest' := by
  cases a <;> cases b <;> simp only [signedChars, List.nil_append, List.singleton_append,
    if_true, Bool.false_eq_true, if_false] at h
  · exact ⟨rfl, decimalChars_append_inj hrest hrest' h⟩
  · exact absurd h decimalChars_append_ne_minus
  · exact absurd h.symm decimalChars_append_ne_minus
  · exact ⟨rfl, decimalChars_append_inj hrest hrest' (List.cons.inj h).2⟩

theorem Stops.head_isDigit {s : List Char} (h : Stops s) : ∀ c ∈ s.head?, c.isDigit = false :=
  fun c hc => (h c hc).1

theorem delimits_wholeChars (m : Int) : Delimits wholeChars m := by
  intro n rest rest' hrest hrest' h
  rw [wholeChars_eq, wholeChars_eq] at h
  obtain ⟨hsign, habs, hrests⟩ :=
    signedChars_append_inj hrest.head_isDigit hrest'.head_isDigit h
  refine ⟨?_, hrests⟩
  rw [decide_eq_decide] at hsign
  omega

theorem head_exponent (s : List Char) : ∀ c ∈ ('e' :: s).head?, c.isDigit = false := by
  intro c hc
  obtain rfl := Option.some.inj hc
  rfl

theorem delimits_realChars (d : Decimal) : Delimits realChars d := by
  intro e rest rest' hrest hrest' h
  rw [realChars_eq, realChars_eq, List.append_assoc, List.append_assoc] at h
  obtain ⟨hsign, hsignificand, hexponents⟩ :=
    signedChars_append_inj (head_exponent _) (head_exponent _) h
  obtain ⟨hexponent, hrests⟩ :=
    delimits_wholeChars d.exponent e.exponent hrest hrest' (List.cons.inj hexponents).2
  obtain ⟨_, _, _⟩ := d
  obtain ⟨_, _, _⟩ := e
  exact ⟨by simp_all, hrests⟩

theorem wholeChars_ne_realChars {n : Int} {d : Decimal} {rest rest' : List Char}
    (hrest : Stops rest) : wholeChars n ++ rest ≠ realChars d ++ rest' := by
  intro h
  rw [wholeChars_eq, realChars_eq, List.append_assoc] at h
  obtain ⟨_, _, hrests⟩ := signedChars_append_inj hrest.head_isDigit (head_exponent _) h
  exact (hrest 'e' (by simp [hrests])).2 rfl

section Rows

variable {α : Type}

/-- Entries on lines of their own, up to the closing bracket. -/
def rows (level : Nat) (closing : Char) (write : α → List Char) : List α → List Char
  | [] => [closing]
  | [x] => write x ++ newline level ++ [closing]
  | x :: rest => write x ++ ',' :: newline (level + 1) ++ rows level closing write rest

theorem stops_newline (level : Nat) (s : List Char) : Stops (newline level ++ s) :=
  stops_cons rfl (by decide)

theorem rows_append_inj {level : Nat} {closing : Char} {write : α → List Char} {xs ys : List α}
    {rest rest' : List Char} (hxs : xs ≠ []) (hys : ys ≠ [])
    (hwrite : ∀ x ∈ xs, Delimits write x)
    (h : rows level closing write xs ++ rest = rows level closing write ys ++ rest') :
    xs = ys ∧ rest = rest' := by
  induction xs generalizing ys with
  | nil => exact absurd rfl hxs
  | cons x xs ih =>
    obtain ⟨y, ys, rfl⟩ := List.exists_cons_of_ne_nil hys
    have hx := hwrite x List.mem_cons_self y
    have hcomma (s : List Char) : Stops (',' :: s) := stops_cons rfl (by decide)
    cases xs with
    | nil =>
      cases ys with
      | nil =>
        simp only [rows, List.append_assoc] at h
        obtain ⟨rfl, hrests⟩ := hx (stops_newline level _) (stops_newline level _) h
        simpa using hrests
      | cons y' ys =>
        simp only [rows, List.append_assoc, List.cons_append] at h
        -- a line break on one side would be a comma on the other
        exact absurd (List.cons.inj (hx (stops_newline level _) (hcomma _) h).2).1 (by decide)
    | cons x' xs =>
      cases ys with
      | nil =>
        simp only [rows, List.append_assoc, List.cons_append] at h
        exact absurd (List.cons.inj (hx (hcomma _) (stops_newline level _) h).2).1 (by decide)
      | cons y' ys =>
        simp only [rows, List.append_assoc, List.cons_append] at h
        obtain ⟨rfl, hrows⟩ := hx (hcomma _) (hcomma _) h
        have hrows := List.append_cancel_left (List.cons.inj hrows).2
        obtain ⟨hrest, hrests⟩ := ih (List.cons_ne_nil _ _) (List.cons_ne_nil _ _)
          (fun z hz => hwrite z (List.mem_cons_of_mem _ hz)) hrows
        exact ⟨by rw [hrest], hrests⟩

/-- Entries in brackets, which stand next to each other if there are no entries. -/
theorem bracketed_append_inj {level : Nat} {opening closing : Char} (hclosing : closing ≠ '\n')
    {write : α → List Char} {xs ys : List α} {rest rest' : List Char}
    (hwrite : ∀ x ∈ xs, Delimits write x)
    (h : (if xs.isEmpty then [opening, closing]
        else opening :: newline (level + 1) ++ rows level closing write xs) ++ rest =
      (if ys.isEmpty then [opening, closing]
        else opening :: newline (level + 1) ++ rows level closing write ys) ++ rest') :
    xs = ys ∧ rest = rest' := by
  cases xs with
  | nil =>
    cases ys with
    | nil => exact ⟨rfl, List.append_cancel_left h⟩
    | cons y ys => exact absurd (List.cons.inj (List.cons.inj h).2).1 hclosing
  | cons x xs =>
    cases ys with
    | nil => exact absurd (List.cons.inj (List.cons.inj h).2).1.symm hclosing
    | cons y ys =>
      simp only [List.isEmpty_cons, Bool.false_eq_true, if_false, List.cons_append,
        List.append_assoc] at h
      exact rows_append_inj (List.cons_ne_nil _ _) (List.cons_ne_nil _ _) hwrite
        (List.append_cancel_left (List.cons.inj h).2)

end Rows

/-- A member of an object that stands at the given level. -/
def memberChars (level : Nat) (member : String × Json) : List Char :=
  quote member.1 ++ ':' :: ' ' :: prettyChars level member.2

theorem prettyItems_eq (level : Nat) (items : List Json) :
    prettyItems level items = rows level ']' (prettyChars (level + 1)) items := by
  induction items with
  | nil => rw [prettyItems, rows]
  | cons v rest ih => cases rest <;> simp_all [prettyItems, rows]

theorem prettyMembers_eq (level : Nat) (members : List (String × Json)) :
    prettyMembers level members = rows level '}' (memberChars (level + 1)) members := by
  induction members with
  | nil => rw [prettyMembers, rows]
  | cons member rest ih =>
    obtain ⟨key, v⟩ := member
    cases rest <;> simp_all [prettyMembers, rows, memberChars]

theorem delimits_memberChars {level : Nat} {member : String × Json}
    (h : Delimits (prettyChars level) member.2) : Delimits (memberChars level) member := by
  rintro ⟨key', v'⟩ rest rest' hrest hrest' heq
  obtain ⟨key, v⟩ := member
  simp only [memberChars, List.append_assoc, List.cons_append] at heq
  obtain ⟨rfl, hvalues⟩ := quote_append_inj heq
  obtain ⟨rfl, hrests⟩ := h v' hrest hrest' (List.cons.inj (List.cons.inj hvalues).2).2
  exact ⟨rfl, hrests⟩

/-- The sorts of values that can be told by the first characters of their texts. -/
inductive Opening where
  | null
  | bool (value : Bool)
  | number
  | string
  | array
  | object
  deriving DecidableEq

def opening : Json → Opening
  | .null => .null
  | .bool b => .bool b
  | .whole _ | .real _ => .number
  | .string _ => .string
  | .array _ => .array
  | .object _ => .object

/-- The sort of value that begins with a character. -/
def Opening.ofChar (c : Char) : Opening :=
  if c = 'n' then .null
  else if c = 't' then .bool true
  else if c = 'f' then .bool false
  else if c = '"' then .string
  else if c = '[' then .array
  else if c = '{' then .object
  else .number

theorem ofChar_of_isDigit {c : Char} (h : c.isDigit = true) : Opening.ofChar c = .number := by
  unfold Opening.ofChar
  split_ifs with h1 h2 h3 h4 h5 h6
  all_goals first | rfl | (subst_vars; cases h)

theorem ofChar_signedChars (negative : Bool) (n : Nat) (rest : List Char) :
    ∃ c more, signedChars negative n ++ rest = c :: more ∧ Opening.ofChar c = .number := by
  cases negative with
  | true => exact ⟨'-', _, rfl, rfl⟩
  | false =>
    obtain ⟨c, more, hn, hc⟩ := exists_decimalChars_eq_cons n
    exact ⟨c, more ++ rest, by simp [signedChars, hn], ofChar_of_isDigit hc⟩

theorem ofChar_prettyChars (level : Nat) (v : Json) (rest : List Char) :
    ∃ c more, prettyChars level v ++ rest = c :: more ∧ Opening.ofChar c = v.opening := by
  match v with
  | .null => rw [prettyChars]; exact ⟨'n', _, rfl, rfl⟩
  | .bool true => rw [prettyChars]; exact ⟨'t', _, rfl, rfl⟩
  | .bool false => rw [prettyChars]; exact ⟨'f', _, rfl, rfl⟩
  | .whole n =>
    rw [prettyChars, wholeChars_eq]
    exact ofChar_signedChars _ _ rest
  | .real d =>
    rw [prettyChars, realChars_eq, List.append_assoc]
    exact ofChar_signedChars _ _ _
  | .string s => rw [prettyChars]; exact ⟨'"', _, rfl, rfl⟩
  | .array items => rw [prettyChars]; split <;> exact ⟨'[', _, rfl, rfl⟩
  | .object members => rw [prettyChars]; split <;> exact ⟨'{', _, rfl, rfl⟩

theorem opening_eq {level : Nat} {v w : Json} {rest rest' : List Char}
    (h : prettyChars level v ++ rest = prettyChars level w ++ rest') : v.opening = w.opening := by
  obtain ⟨c, more, hv, hc⟩ := ofChar_prettyChars level v rest
  obtain ⟨d, more', hw, hd⟩ := ofChar_prettyChars level w rest'
  rw [hv, hw] at h
  rw [← hc, ← hd, (List.cons.inj h).1]

/-! Values of one sort are compared part by part; `opening_eq` rules out all others. -/

section Delimits

variable {level : Nat}

theorem delimits_null : Delimits (prettyChars level) .null := by
  intro w rest rest' _ _ h
  have hopening := opening_eq h
  cases w with
  | null => exact ⟨rfl, List.append_cancel_left h⟩
  | _ => cases hopening

theorem delimits_bool (b : Bool) : Delimits (prettyChars level) (.bool b) := by
  intro w rest rest' _ _ h
  have hopening := opening_eq h
  cases w with
  | bool b' =>
    obtain rfl := Opening.bool.inj hopening
    exact ⟨rfl, List.append_cancel_left h⟩
  | _ => cases hopening

theorem delimits_whole (n : Int) : Delimits (prettyChars level) (.whole n) := by
  intro w rest rest' hrest hrest' h
  have hopening := opening_eq h
  cases w with
  | whole m =>
    rw [prettyChars, prettyChars] at h
    obtain ⟨rfl, hrests⟩ := delimits_wholeChars n m hrest hrest' h
    exact ⟨rfl, hrests⟩
  | real d =>
    rw [prettyChars, prettyChars] at h
    exact absurd h (wholeChars_ne_realChars hrest)
  | _ => cases hopening

theorem delimits_real (d : Decimal) : Delimits (prettyChars level) (.real d) := by
  intro w rest rest' hrest hrest' h
  have hopening := opening_eq h
  cases w with
  | whole n =>
    rw [prettyChars, prettyChars] at h
    exact absurd h.symm (wholeChars_ne_realChars hrest')
  | real e =>
    rw [prettyChars, prettyChars] at h
    obtain ⟨rfl, hrests⟩ := delimits_realChars d e hrest hrest' h
    exact ⟨rfl, hrests⟩
  | _ => cases hopening

theorem delimits_string (s : String) : Delimits (prettyChars level) (.string s) := by
  intro w rest rest' _ _ h
  have hopening := opening_eq h
  cases w with
  | string t =>
    rw [prettyChars, prettyChars] at h
    obtain ⟨rfl, hrests⟩ := quote_append_inj h
    exact ⟨rfl, hrests⟩
  | _ => cases hopening

theorem delimits_array {items : List Json}
    (hitems : ∀ v ∈ items, Delimits (prettyChars (level + 1)) v) :
    Delimits (prettyChars level) (.array items) := by
  intro w rest rest' _ _ h
  have hopening := opening_eq h
  cases w with
  | array items' =>
    rw [prettyChars, prettyChars, prettyItems_eq, prettyItems_eq] at h
    obtain ⟨rfl, hrests⟩ := bracketed_append_inj (by decide) hitems h
    exact ⟨rfl, hrests⟩
  | _ => cases hopening

theorem delimits_object {members : List (String × Json)}
    (hmembers : ∀ member ∈ members, Delimits (memberChars (level + 1)) member) :
    Delimits (prettyChars level) (.object members) := by
  intro w rest rest' _ _ h
  have hopening := opening_eq h
  cases w with
  | object members' =>
    rw [prettyChars, prettyChars, prettyMembers_eq, prettyMembers_eq] at h
    obtain ⟨rfl, hrests⟩ := bracketed_append_inj (by decide) hmembers h
    exact ⟨rfl, hrests⟩
  | _ => cases hopening

end Delimits

mutual

theorem delimits_prettyChars : ∀ (v : Json) (level : Nat), Delimits (prettyChars level) v
  | .null, _ => delimits_null
  | .bool b, _ => delimits_bool b
  | .whole n, _ => delimits_whole n
  | .real d, _ => delimits_real d
  | .string s, _ => delimits_string s
  | .array items, level => delimits_array (delimits_items items (level + 1))
  | .object members, level => delimits_object (delimits_members members (level + 1))

theorem delimits_items :
    ∀ (items : List Json) (level : Nat), ∀ v ∈ items, Delimits (prettyChars level) v
  | [], _ => by simp
  | first :: rest, level => by
    intro v hv
    have hfirst := delimits_prettyChars first level
    rcases List.mem_cons.mp hv with rfl | hv
    · exact hfirst
    · exact delimits_items rest level v hv

theorem delimits_members : ∀ (members : List (String × Json)) (level : Nat),
    ∀ member ∈ members, Delimits (memberChars level) member
  | [], _ => by simp
  | (key, v) :: rest, level => by
    intro member hmember
    rcases List.mem_cons.mp hmember with rfl | hmember
    · exact delimits_memberChars (delimits_prettyChars v level)
    · exact delimits_members rest level member hmember

end

theorem pretty_injective : Function.Injective pretty := by
  intro v w h
  have hchars : prettyChars 0 v ++ [] = prettyChars 0 w ++ [] := by
    rw [List.append_nil, List.append_nil]
    exact String.ofList_injective h
  have hnil : Stops [] := by simp [Stops]
  exact (delimits_prettyChars v 0 w hnil hnil hchars).1

end LegacyAudit.Json
