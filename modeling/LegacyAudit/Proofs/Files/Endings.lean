import LegacyAudit.Proofs.Files.Paths
import Mathlib.Data.List.TakeWhile

/-!
# What paths end in

The last component of a path stands behind a slash or at its front, and only slashes and single dots
come after it. A path has such a component unless it consists of these alone. The last dot of a name
divides it, unless it is the first character.

## Main definitions

- `Path.EndsIn` - the last component of a path
- `Path.IsBare` - a path without components other than the root and the current directory
- `Path.fileName?_of_endsIn`, `Path.fileName?_of_isBare` - the file name in either case
- `Path.IsUndivided` - a name without a dot behind its first character
- `Path.extension?_append`, `Path.stem_append` - the two parts of any other name
- `Path.stem_eq_iff` - what a name is without its extension
-/

namespace LegacyAudit.Path

open LegacyAudit.Text

/-- The text can stand in front of the last component: it is empty or ends in a slash. -/
def IsDirectory (text : List Char) : Prop :=
  text = [] ∨ ∃ path, text = path ++ ['/']

/-- The text can stand behind the last component: it consists of slashes, each of them alone or with
one dot behind it. -/
inductive Trails : List Char → Prop
  | nil : Trails []
  | slash {rest : List Char} : Trails rest → Trails ('/' :: rest)
  | dot {rest : List Char} : Trails rest → Trails ('/' :: '.' :: rest)

/-- The text is a component wherever it stands. -/
structure IsComponent (text : List Char) : Prop where
  ne_nil : text ≠ []
  ne_dot : text ≠ ['.']
  slash_notMem : '/' ∉ text

def EndsIn (path last : List Char) : Prop :=
  ∃ directory tail, IsDirectory directory ∧ IsComponent last ∧ Trails tail ∧
    path = directory ++ last ++ tail

/-- The path consists of slashes and single dots. -/
def IsBare (path : List Char) : Prop :=
  ∃ lead tail, (lead = [] ∨ lead = ['.']) ∧ Trails tail ∧ path = lead ++ tail

/-- No dot stands behind the first character. -/
def IsUndivided (name : List Char) : Prop :=
  '.' ∉ name.tail

def HasStem (name before : List Char) : Prop :=
  IsUndivided name ∧ before = name ∨
    before ≠ [] ∧ ∃ extension, '.' ∉ extension ∧ name = before ++ '.' :: extension

variable {path last part tail name before after : List Char}

theorem exists_splitAtEvery (separator : Char) (text : List Char) :
    ∃ first more, splitAtEvery separator text = first :: more := by
  cases text with
  | nil => exact ⟨_, _, rfl⟩
  | cons c rest =>
    rw [splitAtEvery]
    split
    · exact ⟨_, _, rfl⟩
    · split
      · exact ⟨_, _, rfl⟩
      · exact ⟨_, _, rfl⟩

theorem splitAtEvery_append_separator (separator : Char) (text rest : List Char) :
    splitAtEvery separator (text ++ separator :: rest) =
      splitAtEvery separator text ++ splitAtEvery separator rest := by
  induction text with
  | nil => simp [splitAtEvery]
  | cons c text ih =>
    obtain ⟨first, more, hsplit⟩ := exists_splitAtEvery separator text
    rw [List.cons_append, splitAtEvery, splitAtEvery, ih, hsplit]
    split <;> rfl

theorem splitAtEvery_trails (hpart : '/' ∉ part) (htail : Trails tail) :
    ∃ pieces, splitAtEvery '/' (part ++ tail) = part :: pieces ∧
      pieces.filterMap (component? false) = [] := by
  induction htail generalizing part with
  | nil => exact ⟨[], by rw [List.append_nil, splitAtEvery_of_notMem hpart], rfl⟩
  | slash _ ih =>
    obtain ⟨pieces, hsplit, hnone⟩ := ih List.not_mem_nil
    rw [List.nil_append] at hsplit
    exact ⟨[] :: pieces, by rw [splitAtEvery_append hpart, hsplit], hnone⟩
  | dot _ ih =>
    obtain ⟨pieces, hsplit, hnone⟩ := ih (by simp : '/' ∉ ['.'])
    rw [List.singleton_append] at hsplit
    exact ⟨['.'] :: pieces, by rw [splitAtEvery_append hpart, hsplit], hnone⟩

theorem component?_of_isComponent (h : IsComponent last) (leading : Bool) :
    component? leading last = some (if last = ['.', '.'] then .parent else .name last) := by
  rw [component?, if_neg h.ne_nil, if_neg h.ne_dot]
  split <;> rfl

theorem getLast?_componentsOf (h : EndsIn path last) :
    (componentsOf path).getLast? = some (if last = ['.', '.'] then .parent else .name last) := by
  obtain ⟨directory, tail, hdirectory, hlast, htail, rfl⟩ := h
  obtain ⟨pieces, hsplit, hnone⟩ := splitAtEvery_trails hlast.slash_notMem htail
  rcases hdirectory with rfl | ⟨above, rfl⟩
  · obtain ⟨first, others, rfl⟩ := List.exists_cons_of_ne_nil hlast.ne_nil
    have hfirst : (first :: others ++ tail).head? ≠ some '/' := by
      rintro hslash
      obtain rfl : first = '/' := by simpa using hslash
      exact hlast.slash_notMem List.mem_cons_self
    rw [List.nil_append, componentsOf, hsplit]
    simp only [hnone, if_neg hfirst, component?_of_isComponent hlast]
    rfl
  · obtain ⟨first, more, habove⟩ := exists_splitAtEvery '/' above
    rw [componentsOf, List.append_assoc, List.append_assoc, List.singleton_append,
      splitAtEvery_append_separator, hsplit, habove, List.cons_append]
    simp only [List.filterMap_append, List.filterMap_cons, hnone,
      component?_of_isComponent hlast, ← List.append_assoc, List.getLast?_concat]

theorem EndsIn.unique {other : List Char} (h : EndsIn path last) (hother : EndsIn path other) :
    last = other := by
  have hsame := (getLast?_componentsOf h).symm.trans (getLast?_componentsOf hother)
  split_ifs at hsame <;> simp_all

theorem lastName?_componentsOf (h : EndsIn path last) :
    lastName? (componentsOf path) = if last = ['.', '.'] then none else some last := by
  rw [lastName?, getLast?_componentsOf h]
  by_cases hdots : last = ['.', '.']
  · simp only [if_pos hdots]
  · simp only [if_neg hdots]

theorem lastName?_of_isBare (h : IsBare path) : lastName? (componentsOf path) = none := by
  obtain ⟨lead, tail, hlead, htail, rfl⟩ := h
  have hslash : '/' ∉ lead := by rcases hlead with rfl | rfl <;> simp
  obtain ⟨pieces, hsplit, hnone⟩ := splitAtEvery_trails hslash htail
  rw [componentsOf, hsplit]
  rcases hlead with rfl | rfl
  · simp only [hnone]
    split <;> rfl
  · simp only [hnone]
    rfl

theorem IsComponent.cons {c : Char} (hc : c ≠ '/') (hrest : '/' ∉ part)
    (hdot : c = '.' → part ≠ []) : IsComponent (c :: part) where
  ne_nil := List.cons_ne_nil _ _
  ne_dot h := by
    obtain ⟨rfl, rfl⟩ := List.cons.inj h
    exact hdot rfl rfl
  slash_notMem h := by
    rcases List.mem_cons.mp h with rfl | hmem
    · exact hc rfl
    · exact hrest hmem

theorem endsIn_or_isBare (path : List Char) : (∃ last, EndsIn path last) ∨ IsBare path := by
  induction path with
  | nil => exact .inr ⟨[], [], .inl rfl, .nil, rfl⟩
  | cons c rest ih =>
    rcases ih with ⟨last, directory, tail, hdirectory, hlast, htail, rfl⟩ |
      ⟨lead, tail, hlead, htail, rfl⟩
    · -- the component stays the last one; without a directory it may begin earlier
      left
      rcases hdirectory with rfl | ⟨above, rfl⟩
      · by_cases hslash : c = '/'
        · exact ⟨last, ['/'], tail, .inr ⟨[], rfl⟩, hlast, htail, by simp [hslash]⟩
        · exact ⟨c :: last, [], tail, .inl rfl,
            .cons hslash hlast.slash_notMem fun _ => hlast.ne_nil, htail, rfl⟩
      · exact ⟨last, c :: (above ++ ['/']), tail, .inr ⟨c :: above, rfl⟩, hlast, htail, rfl⟩
    · by_cases hslash : c = '/'
      · subst hslash
        rcases hlead with rfl | rfl
        · exact .inr ⟨[], _, .inl rfl, .slash htail, rfl⟩
        · exact .inr ⟨[], _, .inl rfl, .dot htail, rfl⟩
      · by_cases hdot : c = '.' ∧ lead = []
        · obtain ⟨rfl, rfl⟩ := hdot
          exact .inr ⟨['.'], tail, .inr rfl, htail, rfl⟩
        · have hnotMem : '/' ∉ lead := by rcases hlead with rfl | rfl <;> simp
          exact .inl ⟨c :: lead, [], tail, .inl rfl,
            .cons hslash hnotMem fun hc hnil => hdot ⟨hc, hnil⟩, htail, rfl⟩

variable {filename : String}

theorem fileName?_of_endsIn (h : EndsIn filename.toList last) (hlast : last ≠ ['.', '.']) :
    fileName? filename = some last := by
  rw [fileName?, components, lastName?_componentsOf h, if_neg hlast]

theorem fileName?_of_endsIn_parent (h : EndsIn filename.toList ['.', '.']) :
    fileName? filename = none := by
  rw [fileName?, components, lastName?_componentsOf h, if_pos rfl]

theorem fileName?_of_isBare (h : IsBare filename.toList) : fileName? filename = none :=
  lastName?_of_isBare h

theorem beforeLastDot?_of_notMem (h : '.' ∉ name) : beforeLastDot? name = none := by
  have hnone : name.reverse.dropWhile (· ≠ '.') = [] := by
    rw [List.dropWhile_eq_nil_iff]
    intro c hc
    simpa using fun hdot : c = '.' => h (hdot ▸ List.mem_reverse.mp hc)
  rw [beforeLastDot?, hnone]

section

variable (before : List Char) (h : '.' ∉ after)
include h

theorem ne_dot_of_mem_reverse : ∀ c ∈ after.reverse, decide (c ≠ '.') = true := by
  intro c hc
  simpa using fun hdot : c = '.' => h (hdot ▸ List.mem_reverse.mp hc)

theorem beforeLastDot?_append : beforeLastDot? (before ++ '.' :: after) = some before := by
  have hdrop : (before ++ '.' :: after).reverse.dropWhile (· ≠ '.') = '.' :: before.reverse := by
    rw [List.reverse_append, List.reverse_cons, List.append_assoc,
      List.dropWhile_append_of_pos (ne_dot_of_mem_reverse h)]
    exact List.dropWhile_cons_of_neg (by simp)
  rw [beforeLastDot?, hdrop]
  simp

theorem afterLastDot_append : afterLastDot (before ++ '.' :: after) = after := by
  rw [afterLastDot, List.reverse_append, List.reverse_cons, List.append_assoc,
    List.takeWhile_append_of_pos (ne_dot_of_mem_reverse h)]
  simp

theorem extension?_append (hbefore : before ≠ []) :
    extension? (before ++ '.' :: after) = some after := by
  rw [extension?, beforeLastDot?_append before h, afterLastDot_append before h]
  split <;> simp_all

theorem stem_append (hbefore : before ≠ []) : stem (before ++ '.' :: after) = before := by
  rw [stem, beforeLastDot?_append before h]
  split <;> simp_all

end

theorem isUndivided_or_divided (name : List Char) :
    IsUndivided name ∨
      ∃ before after, before ≠ [] ∧ '.' ∉ after ∧ name = before ++ '.' :: after := by
  by_cases h : '.' ∈ name.tail
  · right
    cases name with
    | nil => simp at h
    | cons first rest =>
      obtain ⟨back, front, hrest, hback⟩ := List.eq_append_cons_of_mem (List.mem_reverse.mpr h)
      refine ⟨first :: front.reverse, back.reverse, List.cons_ne_nil _ _, by simpa using hback, ?_⟩
      rw [List.tail_cons] at hrest
      rw [← List.reverse_reverse rest, hrest]
      simp
  · exact .inl h

theorem IsUndivided.beforeLastDot? (h : IsUndivided name) :
    beforeLastDot? name = none ∨ beforeLastDot? name = some [] := by
  cases name with
  | nil => exact .inl rfl
  | cons c rest =>
    by_cases hdot : c = '.'
    · subst hdot
      exact .inr (beforeLastDot?_append [] h)
    · exact .inl (beforeLastDot?_of_notMem (by simpa [IsUndivided, Ne.symm hdot] using h))

theorem IsUndivided.extension?_eq (h : IsUndivided name) : extension? name = none := by
  rcases h.beforeLastDot? with hname | hname <;> rw [extension?, hname]

theorem IsUndivided.stem_eq (h : IsUndivided name) : stem name = name := by
  rcases h.beforeLastDot? with hname | hname <;> rw [stem, hname]

theorem stem_eq_iff : stem name = before ↔ HasStem name before := by
  constructor
  · rintro rfl
    rcases isUndivided_or_divided name with hundivided | ⟨before, after, hbefore, hafter, rfl⟩
    · exact .inl ⟨hundivided, hundivided.stem_eq⟩
    · rw [stem_append before hafter hbefore]
      exact .inr ⟨hbefore, after, hafter, rfl⟩
  · rintro (⟨hundivided, rfl⟩ | ⟨hbefore, after, hafter, rfl⟩)
    · exact hundivided.stem_eq
    · exact stem_append before hafter hbefore

theorem stem_eq_self_iff : stem name = name ↔ IsUndivided name := by
  constructor
  · intro h
    rcases stem_eq_iff.mp h with ⟨hundivided, _⟩ | ⟨_, extension, _, hname⟩
    · exact hundivided
    · exact absurd (congrArg List.length hname) (by simp)
  · exact IsUndivided.stem_eq

end LegacyAudit.Path
