import LegacyAudit.Text.Utf8
import Mathlib.Tactic.SplitIfs

/-!
# UTF-8 there and back

## Main definitions

- `decode_encode` - the bytes of a text encode that text
- `decode_eq_ok_iff` - no other bytes do
- `count_encode` - a text has as many line breaks as its bytes
-/

namespace LegacyAudit.Text

theorem toNat_toUInt8 {n : Nat} (h : n < 256) : n.toUInt8.toNat = n := by
  simp only [Nat.toUInt8, UInt8.toNat_ofNat']
  omega

theorem toNat_valid (c : Char) :
    c.toNat < 0xD800 ∨ 0xDFFF < c.toNat ∧ c.toNat < 0x110000 :=
  c.valid

/-- A byte made of `0x80` and six bits continues a sequence and holds these bits. -/
theorem continuation_toUInt8 {n : Nat} (h : n < 0x40) :
    isContinuation (0x80 + n).toUInt8 = true ∧ payload (0x80 + n).toUInt8 = n := by
  have hn : (0x80 + n).toUInt8.toNat = 0x80 + n := toNat_toUInt8 (by omega)
  constructor
  · simp [isContinuation, UInt8.le_iff_toNat_le]
    omega
  · rw [payload, hn]
    omega

/-- The second byte of a long sequence is accepted if the sequence is neither overlong nor a
surrogate nor too large. -/
theorem isSecond_toUInt8 {a n : Nat} (ha : a < 256) (hn : n < 0x40)
    (hE0 : a = 0xE0 → 0x20 ≤ n) (hED : a = 0xED → n < 0x20) (hF0 : a = 0xF0 → 0x10 ≤ n)
    (hF4 : a = 0xF4 → n < 0x10) : isSecond a.toUInt8 (0x80 + n).toUInt8 = true := by
  have hb : (0x80 + n).toUInt8.toNat = 0x80 + n := toNat_toUInt8 (by omega)
  have ha' : a.toUInt8.toNat = a := toNat_toUInt8 ha
  simp only [isSecond, isContinuation, ← UInt8.toNat_inj, UInt8.le_iff_toNat_le, ha', hb,
    UInt8.reduceToNat]
  split_ifs <;> simp <;> omega

section Sequences

variable {n : Nat} {rest : List UInt8}

theorem continuation_mod (n : Nat) : isContinuation (0x80 + n % 0x40).toUInt8 = true ∧
    payload (0x80 + n % 0x40).toUInt8 = n % 0x40 :=
  continuation_toUInt8 (by omega)

theorem nextChar_one (h : n < 0x80) : nextChar n.toUInt8 rest = .char (Char.ofNat n) 1 := by
  have hn : n.toUInt8.toNat = n := toNat_toUInt8 (by omega)
  simp [nextChar, UInt8.lt_iff_toNat_lt, hn, h]

theorem nextChar_two (h : 0x80 ≤ n ∧ n < 0x800) :
    nextChar (0xC0 + n / 0x40).toUInt8 ((0x80 + n % 0x40).toUInt8 :: rest) =
      .char (Char.ofNat n) 2 := by
  have hn : (0xC0 + n / 0x40).toUInt8.toNat = 0xC0 + n / 0x40 := toNat_toUInt8 (by omega)
  have hcode : (0xC0 + n / 0x40) % 0x20 * 0x40 + n % 0x40 = n := by omega
  simp only [nextChar, UInt8.lt_iff_toNat_lt, hn, UInt8.reduceToNat]
  rw [if_neg (by omega), if_neg (by omega), if_pos (by omega)]
  simp only [leadTwo, hn, continuation_mod, if_true, hcode]

theorem nextChar_three (h : 0x800 ≤ n ∧ n < 0x10000) (hvalid : n < 0xD800 ∨ 0xDFFF < n) :
    nextChar (0xE0 + n / 0x1000).toUInt8
        ((0x80 + n / 0x40 % 0x40).toUInt8 :: (0x80 + n % 0x40).toUInt8 :: rest) =
      .char (Char.ofNat n) 3 := by
  have hn : (0xE0 + n / 0x1000).toUInt8.toNat = 0xE0 + n / 0x1000 := toNat_toUInt8 (by omega)
  have hsecond : isSecond (0xE0 + n / 0x1000).toUInt8 (0x80 + n / 0x40 % 0x40).toUInt8 = true :=
    isSecond_toUInt8 (by omega) (by omega) (by omega) (by omega) (by omega) (by omega)
  have hcode : (0xE0 + n / 0x1000) % 0x10 * 0x1000 + n / 0x40 % 0x40 * 0x40 + n % 0x40 = n := by
    omega
  simp only [nextChar, UInt8.lt_iff_toNat_lt, hn, UInt8.reduceToNat]
  rw [if_neg (by omega), if_neg (by omega), if_neg (by omega), if_pos (by omega)]
  simp only [leadThree, hn, hsecond, continuation_mod, if_true, hcode]

theorem nextChar_four (h : 0x10000 ≤ n ∧ n < 0x110000) :
    nextChar (0xF0 + n / 0x40000).toUInt8
        ((0x80 + n / 0x1000 % 0x40).toUInt8 :: (0x80 + n / 0x40 % 0x40).toUInt8 ::
          (0x80 + n % 0x40).toUInt8 :: rest) = .char (Char.ofNat n) 4 := by
  have hn : (0xF0 + n / 0x40000).toUInt8.toNat = 0xF0 + n / 0x40000 := toNat_toUInt8 (by omega)
  have hsecond :
      isSecond (0xF0 + n / 0x40000).toUInt8 (0x80 + n / 0x1000 % 0x40).toUInt8 = true :=
    isSecond_toUInt8 (by omega) (by omega) (by omega) (by omega) (by omega) (by omega)
  have hcode : (0xF0 + n / 0x40000) % 8 * 0x40000 + n / 0x1000 % 0x40 * 0x1000 +
      n / 0x40 % 0x40 * 0x40 + n % 0x40 = n := by
    omega
  simp only [nextChar, UInt8.lt_iff_toNat_lt, hn, UInt8.reduceToNat]
  rw [if_neg (by omega), if_neg (by omega), if_neg (by omega), if_neg (by omega),
    if_pos (by omega)]
  simp only [leadFour, hn, hsecond, continuation_mod, if_true, hcode]

/-- The sequence at the front of the bytes of a character and others is that character. -/
theorem nextChar_encodeChar (c : Char) (rest : List UInt8) :
    ∃ a more, encodeChar c = a :: more ∧
      nextChar a (more ++ rest) = .char c (more.length + 1) := by
  have hvalid := toNat_valid c
  have hc : Char.ofNat c.toNat = c := Char.ofNat_toNat c
  unfold encodeChar
  generalize c.toNat = n at *
  subst hc
  dsimp only
  split_ifs with h1 h2 h3
  · exact ⟨_, _, rfl, nextChar_one h1⟩
  · exact ⟨_, _, rfl, nextChar_two (by omega)⟩
  · exact ⟨_, _, rfl, nextChar_three (by omega) (by omega)⟩
  · exact ⟨_, _, rfl, nextChar_four (by omega)⟩

end Sequences

theorem toNat_ofNat {n : Nat} (h : n < 0xD800 ∨ 0xDFFF < n ∧ n < 0x110000) :
    (Char.ofNat n).toNat = n := by
  have hvalid : n.isValidChar := h
  rw [Char.ofNat, dif_pos hvalid]
  rfl

theorem toUInt8_eq {n : Nat} {b : UInt8} (h : n = b.toNat) : n.toUInt8 = b := by
  rw [h]
  exact UInt8.ofNat_toNat

theorem payload_of_isContinuation {b : UInt8} (h : isContinuation b = true) :
    b.toNat = 0x80 + payload b ∧ payload b < 0x40 := by
  simp only [isContinuation, Bool.and_eq_true, decide_eq_true_eq, UInt8.le_iff_toNat_le,
    UInt8.reduceToNat] at h
  rw [payload]
  omega

/-- The second byte of a long sequence continues it, within the bounds that the first one sets. -/
theorem bounds_of_isSecond {a b : UInt8} (h : isSecond a b = true) :
    isContinuation b = true ∧ (a.toNat = 0xE0 → 0x20 ≤ payload b) ∧
      (a.toNat = 0xED → payload b < 0x20) ∧ (a.toNat = 0xF0 → 0x10 ≤ payload b) ∧
      (a.toNat = 0xF4 → payload b < 0x10) := by
  simp only [isSecond, isContinuation, ← UInt8.toNat_inj, UInt8.le_iff_toNat_le,
    UInt8.reduceToNat, payload] at h ⊢
  split_ifs at h <;> simp only [Bool.and_eq_true, decide_eq_true_eq] at h ⊢ <;> omega

section Leads

variable {a : UInt8} {rest : List UInt8} {c : Char} {width : Nat}

theorem eq_encodeChar_of_leadTwo (ha : 0xC2 ≤ a.toNat ∧ a.toNat < 0xE0)
    (h : leadTwo a rest = .char c width) :
    a :: rest = encodeChar c ++ rest.drop (width - 1) := by
  unfold leadTwo at h
  split at h
  · cases h
  · next b rest =>
    split_ifs at h with hb
    obtain ⟨rfl, rfl⟩ := Lead.char.inj h
    obtain ⟨hb, hb'⟩ := payload_of_isContinuation hb
    rw [encodeChar, toNat_ofNat (by omega)]
    rw [if_neg (by omega), if_pos (by omega), toUInt8_eq (b := a) (by omega),
      toUInt8_eq (b := b) (by omega)]
    rfl

theorem eq_encodeChar_of_leadThree (ha : 0xE0 ≤ a.toNat ∧ a.toNat < 0xF0)
    (h : leadThree a rest = .char c width) :
    a :: rest = encodeChar c ++ rest.drop (width - 1) := by
  unfold leadThree at h
  split at h
  · cases h
  · next b rest =>
    split_ifs at h with hb
    split at h
    · cases h
    · next d rest =>
      split_ifs at h with hd
      obtain ⟨rfl, rfl⟩ := Lead.char.inj h
      -- the bounds of the second byte keep out overlong forms and surrogates
      obtain ⟨hb, hE0, hED, -, -⟩ := bounds_of_isSecond hb
      obtain ⟨hb, hb'⟩ := payload_of_isContinuation hb
      obtain ⟨hd, hd'⟩ := payload_of_isContinuation hd
      rw [encodeChar, toNat_ofNat (by omega)]
      rw [if_neg (by omega), if_neg (by omega), if_pos (by omega),
        toUInt8_eq (b := a) (by omega), toUInt8_eq (b := b) (by omega),
        toUInt8_eq (b := d) (by omega)]
      rfl

theorem eq_encodeChar_of_leadFour (ha : 0xF0 ≤ a.toNat ∧ a.toNat < 0xF5)
    (h : leadFour a rest = .char c width) :
    a :: rest = encodeChar c ++ rest.drop (width - 1) := by
  unfold leadFour at h
  split at h
  · cases h
  · next b rest =>
    split_ifs at h with hb
    split at h
    · cases h
    · next d rest =>
      split_ifs at h with hd
      split at h
      · cases h
      · next e rest =>
        split_ifs at h with he
        obtain ⟨rfl, rfl⟩ := Lead.char.inj h
        -- here they keep out overlong forms and what lies beyond the last code point
        obtain ⟨hb, -, -, hF0, hF4⟩ := bounds_of_isSecond hb
        obtain ⟨hb, hb'⟩ := payload_of_isContinuation hb
        obtain ⟨hd, hd'⟩ := payload_of_isContinuation hd
        obtain ⟨he, he'⟩ := payload_of_isContinuation he
        rw [encodeChar, toNat_ofNat (by omega)]
        rw [if_neg (by omega), if_neg (by omega), if_neg (by omega),
          toUInt8_eq (b := a) (by omega), toUInt8_eq (b := b) (by omega),
          toUInt8_eq (b := d) (by omega), toUInt8_eq (b := e) (by omega)]
        rfl

theorem eq_encodeChar_of_nextChar (h : nextChar a rest = .char c width) :
    a :: rest = encodeChar c ++ rest.drop (width - 1) := by
  simp only [nextChar, UInt8.lt_iff_toNat_lt, UInt8.reduceToNat] at h
  split_ifs at h with h1 h2 h3 h4 h5
  · obtain ⟨rfl, rfl⟩ := Lead.char.inj h
    simp [encodeChar, toNat_ofNat (n := a.toNat) (by omega), h1]
  · exact eq_encodeChar_of_leadTwo ⟨by omega, h3⟩ h
  · exact eq_encodeChar_of_leadThree ⟨by omega, h4⟩ h
  · exact eq_encodeChar_of_leadFour ⟨by omega, h5⟩ h

end Leads

theorem decodeLoop_encodeChars (s : List Char) (index : Nat) (done : List Char) :
    decodeLoop index done (encodeChars s) = .ok (done.reverse ++ s) := by
  induction s generalizing index done with
  | nil => simp [encodeChars, decodeLoop]
  | cons c s ih =>
    obtain ⟨a, more, hbytes, hnext⟩ := nextChar_encodeChar c (encodeChars s)
    have hcons : encodeChars (c :: s) = a :: (more ++ encodeChars s) := by
      rw [encodeChars, List.flatMap_cons, hbytes]
      rfl
    rw [hcons, decodeLoop, hnext]
    simp [ih]

theorem decode_encode (s : String) : decode (encode s) = .ok s := by
  rw [decode, decodeChars, encode, decodeLoop_encodeChars]
  simp [Except.map]

theorem eq_encodeChars_of_decodeLoop {index : Nat} {done : List Char} {bytes : List UInt8}
    {s : List Char} (h : decodeLoop index done bytes = .ok s) :
    ∃ t, s = done.reverse ++ t ∧ bytes = encodeChars t := by
  induction index, done, bytes using decodeLoop.induct with
  | case1 index done =>
    rw [decodeLoop] at h
    exact ⟨[], by simpa using (Except.ok.inj h).symm, rfl⟩
  | case2 index done a rest c width hnext ih =>
    rw [decodeLoop, hnext] at h
    obtain ⟨t, rfl, hbytes⟩ := ih h
    refine ⟨c :: t, by simp, ?_⟩
    rw [eq_encodeChar_of_nextChar hnext, hbytes]
    rfl
  | case3 index done a rest length hnext =>
    rw [decodeLoop, hnext] at h
    cases h

theorem decode_eq_ok_iff {bytes : List UInt8} {s : String} :
    decode bytes = .ok s ↔ encode s = bytes := by
  constructor
  · intro h
    cases hchars : decodeChars bytes with
    | error e => simp [decode, hchars, Except.map] at h
    | ok t =>
      obtain ⟨_, rfl, hbytes⟩ := eq_encodeChars_of_decodeLoop hchars
      simp only [decode, hchars, Except.map, Except.ok.injEq] at h
      subst h
      simp [encode, hbytes]
  · rintro rfl
    exact decode_encode s

theorem count_encodeChar (c : Char) : (encodeChar c).count 10 = [c].count '\n' := by
  have hbreak : c = '\n' ↔ c.toNat = 10 := by
    rw [← Char.toNat_inj]
    rfl
  have hvalid := toNat_valid c
  have hbyte {k : Nat} (h : k < 256) : k.toUInt8 = 10 ↔ k = 10 := by
    rw [← UInt8.toNat_inj, toNat_toUInt8 h]
    rfl
  have hlead {k : Nat} (h : 10 < k ∧ k < 256) : k.toUInt8 ≠ 10 := by
    rw [Ne, hbyte h.2]
    omega
  have hcontinuation (k : Nat) : (0x80 + k % 0x40).toUInt8 ≠ 10 :=
    hlead (by omega)
  unfold encodeChar
  dsimp only
  split_ifs with h1 h2 h3
  · simp only [List.count_singleton, beq_iff_eq, hbyte (show c.toNat < 256 by omega), hbreak]
  -- several bytes: neither the first one nor the others are a line break
  all_goals
    rw [List.count_eq_zero.mpr, List.count_eq_zero.mpr]
    · rw [List.mem_singleton, eq_comm, hbreak]
      omega
    · simp only [List.mem_cons, List.not_mem_nil, or_false, fun k => Ne.symm (hcontinuation k)]
      exact Ne.symm (hlead (by omega))

theorem count_encode (s : String) : (encode s).count 10 = s.toList.count '\n' := by
  rw [encode, encodeChars]
  induction s.toList with
  | nil => rfl
  | cons c s ih =>
    rw [List.flatMap_cons, List.count_append, ih, count_encodeChar, ← List.count_append]
    rfl

end LegacyAudit.Text
