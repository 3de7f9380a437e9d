import LegacyAudit.Text.Decimal

/-!
# Numerals there and back

## Main definitions

- `numeral?_decimalChars` - a decimal numeral is worth its number
- `numeralFrom?_map_digitsOnto` - the same for other bases and other forms of the digits
- `length_digitsOnto_le` - small numbers have short numerals
- `decimalChars_append_inj` - the end of a numeral can be seen
-/

namespace LegacyAudit.Text

theorem digitValue?_digitChar {n : Nat} (h : n < 16) : digitValue? (digitChar n) = some n := by
  revert n
  decide

theorem digitValue?_toUpper_digitChar {n : Nat} (h : n < 16) :
    digitValue? (digitChar n).toUpper = some n := by
  revert n
  decide

theorem digitChar_inj {m n : Nat} (hm : m < 16) (hn : n < 16) (h : digitChar m = digitChar n) :
    m = n := by
  have hvalue := digitValue?_digitChar hm
  rw [h, digitValue?_digitChar hn] at hvalue
  exact (Option.some.inj hvalue).symm

theorem isDigit_digitChar {n : Nat} (h : n < 10) : (digitChar n).isDigit = true := by
  revert n
  decide

variable {base : Nat} {f : Char → Char}

/-- Reading the digits of a number, in whatever form, and then others is reading the others behind
that number. -/
theorem numeralFrom?_map_digitsOnto (hbase : 2 ≤ base)
    (hf : ∀ d < base, digitValue? (f (digitChar d)) = some d) (n : Nat) (rest : List Char) :
    numeralFrom? base 0 ((digitsOnto base n rest).map f) = numeralFrom? base n (rest.map f) := by
  induction n, rest using digitsOnto.induct base with
  | case1 n rest h =>
    have hlt : n < base := by omega
    rw [digitsOnto, dif_pos h, List.map_cons, numeralFrom?, hf n hlt]
    simp [hlt]
  | case2 n rest h ih =>
    have hlt : n % base < base := Nat.mod_lt _ (by omega)
    rw [digitsOnto, dif_neg h, ih, List.map_cons, numeralFrom?, hf _ hlt]
    simp only [hlt, if_true]
    rw [Nat.div_add_mod']

theorem digitsOnto_ne_nil (n : Nat) (rest : List Char) : digitsOnto base n rest ≠ [] := by
  induction n, rest using digitsOnto.induct base with
  | case1 n rest h =>
    rw [digitsOnto, dif_pos h]
    simp
  | case2 n rest h ih => rwa [digitsOnto, dif_neg h]

theorem decimalChars_ne_nil (n : Nat) : decimalChars n ≠ [] :=
  digitsOnto_ne_nil n []

theorem numeral?_decimalChars (n : Nat) : numeral? 10 (decimalChars n) = some n := by
  have hvalue : numeralFrom? 10 0 ((decimalChars n).map id) = numeralFrom? 10 n ([].map id) :=
    numeralFrom?_map_digitsOnto (by omega) (fun d hd => digitValue?_digitChar (by omega)) n []
  rw [List.map_id] at hvalue
  rw [numeral?, if_neg (by simpa using decimalChars_ne_nil n), hvalue]
  rfl

theorem mem_digitsOnto (hbase : 2 ≤ base) {n : Nat} {rest : List Char} :
    ∀ c ∈ digitsOnto base n rest, c ∈ rest ∨ ∃ d < base, c = digitChar d := by
  induction n, rest using digitsOnto.induct base with
  | case1 n rest h =>
    intro c hc
    rw [digitsOnto, dif_pos h] at hc
    rcases List.mem_cons.mp hc with rfl | hc
    · exact .inr ⟨n, by omega, rfl⟩
    · exact .inl hc
  | case2 n rest h ih =>
    intro c hc
    rw [digitsOnto, dif_neg h] at hc
    rcases ih c hc with hc | hc
    · rcases List.mem_cons.mp hc with rfl | hc
      · exact .inr ⟨n % base, Nat.mod_lt _ (by omega), rfl⟩
      · exact .inl hc
    · exact .inr hc

theorem isDigit_of_mem_decimalChars {n : Nat} : ∀ c ∈ decimalChars n, c.isDigit = true := by
  intro c hc
  obtain ⟨d, hd, rfl⟩ := (mem_digitsOnto (by omega) c hc).resolve_left (by simp)
  exact isDigit_digitChar hd

theorem head_digitsOnto_ne_zero {n : Nat} (rest : List Char) (h : n ≠ 0) :
    ∃ c more, digitsOnto 10 n rest = c :: more ∧ c ≠ '0' := by
  induction n, rest using digitsOnto.induct 10 with
  | case1 n rest hn =>
    refine ⟨digitChar n, rest, by rw [digitsOnto, dif_pos hn], ?_⟩
    have hdigit : ∀ d < 10, d ≠ 0 → digitChar d ≠ '0' := by decide
    exact hdigit n (by omega) h
  | case2 n rest hn ih =>
    rw [digitsOnto, dif_neg hn]
    exact ih (by omega)

theorem length_digitsOnto_le (hbase : 2 ≤ base) {width n : Nat} (rest : List Char)
    (h : n < Nat.pow base width) (hwidth : 0 < width) :
    (digitsOnto base n rest).length ≤ width + rest.length := by
  induction n, rest using digitsOnto.induct base generalizing width with
  | case1 n rest hn =>
    rw [digitsOnto, dif_pos hn, List.length_cons]
    omega
  | case2 n rest hn ih =>
    obtain ⟨width, rfl⟩ : ∃ w, width = w + 1 := ⟨width - 1, by omega⟩
    have hdiv : n / base < Nat.pow base width := by
      rw [Nat.div_lt_iff_lt_mul (by omega)]
      exact h
    have hpos : 0 < width := by
      rcases Nat.eq_zero_or_pos width with rfl | hpos
      · have hone : Nat.pow base (0 + 1) = base := Nat.pow_one base
        omega
      · exact hpos
    rw [digitsOnto, dif_neg hn]
    have := ih hdiv hpos
    rw [List.length_cons] at this
    omega

theorem numeralFrom?_replicate_zero (hbase : 2 ≤ base) (count : Nat) (rest : List Char) :
    numeralFrom? base 0 (List.replicate count '0' ++ rest) = numeralFrom? base 0 rest := by
  have hzero : digitValue? '0' = some 0 := rfl
  induction count with
  | zero => rfl
  | succ count ih =>
    rw [List.replicate_succ, List.cons_append, numeralFrom?, hzero]
    simpa [show 0 < base by omega] using ih

/-- Where characters of a class are followed by none of it, both parts can be told. -/
theorem append_inj_of_forall {p : Char → Bool} {xs ys rest rest' : List Char}
    (hxs : ∀ c ∈ xs, p c = true) (hys : ∀ c ∈ ys, p c = true)
    (hrest : ∀ c ∈ rest.head?, p c = false) (hrest' : ∀ c ∈ rest'.head?, p c = false)
    (h : xs ++ rest = ys ++ rest') : xs = ys ∧ rest = rest' := by
  induction xs generalizing ys with
  | nil =>
    cases ys with
    | nil => exact ⟨rfl, h⟩
    | cons d ys =>
      rw [List.nil_append] at h
      have hd := hrest d (by simp [h])
      rw [hys d List.mem_cons_self] at hd
      cases hd
  | cons c xs ih =>
    cases ys with
    | nil =>
      rw [List.nil_append] at h
      have hc := hrest' c (by simp [← h])
      rw [hxs c List.mem_cons_self] at hc
      cases hc
    | cons d ys =>
      obtain ⟨rfl, htail⟩ := List.cons.inj h
      obtain ⟨rfl, hrests⟩ := ih (fun c hc => hxs c (List.mem_cons_of_mem _ hc))
        (fun c hc => hys c (List.mem_cons_of_mem _ hc)) htail
      exact ⟨rfl, hrests⟩

theorem decimalChars_append_inj {m n : Nat} {rest rest' : List Char}
    (hrest : ∀ c ∈ rest.head?, c.isDigit = false) (hrest' : ∀ c ∈ rest'.head?, c.isDigit = false)
    (h : decimalChars m ++ rest = decimalChars n ++ rest') : m = n ∧ rest = rest' := by
  obtain ⟨hdigits, hrests⟩ := append_inj_of_forall isDigit_of_mem_decimalChars
    isDigit_of_mem_decimalChars hrest hrest' h
  have hm := numeral?_decimalChars m
  rw [hdigits, numeral?_decimalChars] at hm
  exact ⟨(Option.some.inj hm).symm, hrests⟩

end LegacyAudit.Text
