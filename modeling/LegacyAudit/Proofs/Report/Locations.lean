import LegacyAudit.Proofs.Text.Decimal
import LegacyAudit.Result.Attached

/-!
# Reading locations

The location of a finding is a filename, a colon and lines, with nothing quoted. A filename may hold
colons, hyphens and digits of its own. The lines hold no colon, so the last colon of a location is
the one in front of them, and they hold a hyphen only if there are two of them. So a location can be
read back.

## Main definitions

- `splitAtLast?` - the parts of a text around the last occurrence of a character
- `LineSpan.read?` - the lines that a text stands for
- `LineSpan.read?_text` - the text of lines stands for them
- `locationText_inj` - different files or lines have different locations
- `FindingDraft.location_attach` - the location of a finding tells its file and its lines
-/

namespace LegacyAudit

open LegacyAudit.Text

/-- What stands in front of the last occurrence of `separator` in a text, and what stands behind
it. -/
def splitAtLast? (separator : Char) : List Char → Option (List Char × List Char)
  | [] => none
  | c :: rest =>
    match splitAtLast? separator rest with
    | some (before, after) => some (c :: before, after)
    | none => if c = separator then some ([], rest) else none

section

variable {separator : Char} {text before after : List Char}

theorem splitAtLast?_of_notMem (h : separator ∉ text) : splitAtLast? separator text = none := by
  induction text with
  | nil => rfl
  | cons c rest ih =>
    obtain ⟨hc, hrest⟩ := List.ne_and_not_mem_of_not_mem_cons h
    rw [splitAtLast?, ih hrest]
    exact if_neg hc.symm

theorem splitAtLast?_append (h : separator ∉ after) :
    splitAtLast? separator (before ++ separator :: after) = some (before, after) := by
  induction before with
  | nil =>
    rw [List.nil_append, splitAtLast?, splitAtLast?_of_notMem h]
    exact if_pos rfl
  | cons c before ih => rw [List.cons_append, splitAtLast?, ih]

end

/-- The word of 64 bits that a decimal numeral is worth, if it fits into one. -/
def readWord? (text : List Char) : Option UInt64 := do
  let n ← numeral? 10 text
  if n < UInt64.size then some (.ofNat n) else none

/-- The lines that a text stands for: a number, or two numbers with a hyphen between them. -/
def LineSpan.read? (text : List Char) : Option LineSpan :=
  match splitAtLast? '-' text with
  | none => (readWord? text).map .line
  | some (first, last) => do
    let first ← readWord? first
    let last ← readWord? last
    some (.range first last)

theorem notMem_decimalChars {c : Char} (hc : c.isDigit = false) (n : Nat) : c ∉ decimalChars n := by
  intro h
  rw [isDigit_of_mem_decimalChars c h] at hc
  cases hc

theorem readWord?_decimalChars (n : UInt64) : readWord? (decimalChars n.toNat) = some n := by
  have hlt : n.toNat < UInt64.size := n.toNat_lt
  rw [readWord?, numeral?_decimalChars, Option.bind_eq_bind, Option.bind_some, if_pos hlt,
    UInt64.ofNat_toNat]

namespace LineSpan

theorem toList_text_line (number : UInt64) :
    (line number).text.toList = decimalChars number.toNat := by
  rw [text, decimal, String.toList_ofList]

theorem toList_text_range (first last : UInt64) :
    (range first last).text.toList =
      decimalChars first.toNat ++ '-' :: decimalChars last.toNat := by
  simp [text, decimal]

theorem read?_text (lines : LineSpan) : read? lines.text.toList = some lines := by
  cases lines with
  | line number =>
    rw [toList_text_line, read?, splitAtLast?_of_notMem (notMem_decimalChars rfl _)]
    simp only [readWord?_decimalChars, Option.map_some]
  | range first last =>
    rw [toList_text_range, read?, splitAtLast?_append (notMem_decimalChars rfl _)]
    simp only [readWord?_decimalChars, Option.bind_eq_bind, Option.bind_some]

theorem colon_notMem_text (lines : LineSpan) : ':' ∉ lines.text.toList := by
  have hdigits := notMem_decimalChars (c := ':') rfl
  cases lines with
  | line number =>
    rw [toList_text_line]
    exact hdigits _
  | range first last =>
    rw [toList_text_range, List.mem_append, List.mem_cons]
    rintro (h | h | h)
    · exact hdigits _ h
    · cases h
    · exact hdigits _ h

theorem text_injective : Function.Injective text := by
  intro a b h
  have hread := read?_text a
  rw [h, read?_text b] at hread
  exact (Option.some.inj hread).symm

end LineSpan

theorem splitAtLast?_locationText (filename : String) (lines : LineSpan) :
    splitAtLast? ':' (locationText filename lines).toList =
      some (filename.toList, lines.text.toList) := by
  have hlocation : (locationText filename lines).toList =
      filename.toList ++ ':' :: lines.text.toList := by
    simp [locationText]
  rw [hlocation, splitAtLast?_append lines.colon_notMem_text]

theorem locationText_inj {filename filename' : String} {lines lines' : LineSpan} :
    locationText filename lines = locationText filename' lines' ↔
      filename = filename' ∧ lines = lines' := by
  constructor
  · intro h
    have hsplit := splitAtLast?_locationText filename lines
    rw [h, splitAtLast?_locationText] at hsplit
    obtain ⟨hname, htext⟩ := Prod.mk.inj (Option.some.inj hsplit)
    exact ⟨(String.toList_inj.mp hname).symm,
      (LineSpan.text_injective (String.toList_inj.mp htext)).symm⟩
  · rintro ⟨rfl, rfl⟩
    rfl

/-- The part of a location in front of its last colon is the filename, and what is behind it reads
as the lines. Findings that are attached to whatever jobs have the same location if and only if they
have the same lines in the same file. -/
theorem FindingDraft.location_attach (d d' : FindingDraft) (id id' : JobId)
    (filename filename' : String) :
    (∃ lines, splitAtLast? ':' (d.attach id filename).location.toList =
        some (filename.toList, lines) ∧ LineSpan.read? lines = some d.lines) ∧
      ((d.attach id filename).location = (d'.attach id' filename').location ↔
        filename = filename' ∧ d.lines = d'.lines) := by
  refine ⟨⟨d.lines.text.toList, ?_, ?_⟩, ?_⟩
  · exact splitAtLast?_locationText filename d.lines
  · exact d.lines.read?_text
  · exact locationText_inj

/-- A filename may look like a location. -/
example : splitAtLast? ':' "a:1-2:3".toList = some ("a:1-2".toList, ['3']) := by
  decide

end LegacyAudit
