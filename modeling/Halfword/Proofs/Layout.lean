import Mathlib.Data.List.Basic
import Mathlib.Data.List.TakeWhile
import Halfword.Source.Line

/-!
# Text that is read back as words

The reading of a line undoes its writing in two layers: escaped markers are ordinary characters
again (`dropComment_escape`), and words set apart by blanks and commas are found again
(`words_joined`). About words everything follows from one equation, `words_append_separator`: a
separator splits the words of a text in two.
-/

namespace Halfword

/-- A list is made of pieces without separators, joined at separators. -/
theorem separator_induction {α : Type} {p : α → Bool} {motive : List α → Prop}
    (piece : ∀ s, (∀ a ∈ s, p a = false) → motive s)
    (join : ∀ s a t, p a = true → motive s → motive t → motive (s ++ a :: t)) (s : List α) :
    motive s := by
  -- What stands in front of `s` since the last separator is generalised.
  have build (front : List α) (free : ∀ a ∈ front, p a = false) : motive (front ++ s) := by
    induction s generalizing front with
    | nil =>
      rw [List.append_nil]
      exact piece front free
    | cons a s ih =>
      cases separates : p a with
      | true => exact join front a s separates (piece front free) (ih [] (List.forall_mem_nil _))
      | false =>
        rw [← List.singleton_append, ← List.append_assoc]
        apply ih
        exact List.forall_mem_append.2 ⟨free, List.forall_mem_singleton.2 separates⟩
  exact build [] (List.forall_mem_nil _)

/-- No piece of a split list holds a separator. -/
theorem not_of_mem_splitOnP {α : Type} {p : α → Bool} {s w : List α} (member : w ∈ s.splitOnP p) :
    ∀ a ∈ w, p a = false := by
  induction s using separator_induction (p := p) with
  | piece s free =>
    rw [List.splitOnP_eq_singleton free] at member
    obtain rfl := List.mem_singleton.1 member
    exact free
  | join s a t separates front back =>
    rw [List.splitOnP_append_cons s t separates] at member
    rcases List.mem_append.1 member with inFront | behind
    · exact front inFront
    · exact back behind

namespace Text

/-- Trimming takes blanks from the two ends and nothing else. -/
theorem trim_split (s : List Char) : ∃ front back, s = front ++ trim s ++ back ∧
    (∀ c ∈ front, isBlank c = true) ∧ ∀ c ∈ back, isBlank c = true := by
  refine ⟨s.takeWhile isBlank, ((trimLeft s).reverse.takeWhile isBlank).reverse, ?_, ?_, ?_⟩
  · have right : trim s ++ ((trimLeft s).reverse.takeWhile isBlank).reverse = trimLeft s := by
      rw [trim, trimRight, ← List.reverse_append, List.takeWhile_append_dropWhile,
        List.reverse_reverse]
    rw [List.append_assoc, right, trimLeft, List.takeWhile_append_dropWhile]
  · intro c member
    exact List.mem_takeWhile_imp member
  · intro c member
    exact List.mem_takeWhile_imp (List.mem_reverse.1 member)

theorem trimLeft_append {front s : List Char} (blank : ∀ c ∈ front, isBlank c = true)
    (first : ∃ c ∈ s.head?, isBlank c = false) : trimLeft (front ++ s) = s := by
  rw [trimLeft, List.dropWhile_append_of_pos blank]
  cases s with
  | nil =>
    obtain ⟨c, none, -⟩ := first
    cases none
  | cons c s =>
    obtain ⟨d, head, filled⟩ := first
    obtain rfl := Option.some.inj head
    exact List.dropWhile_cons_of_neg (Bool.eq_false_iff.1 filled)

theorem trimRight_append {s back : List Char} (blank : ∀ c ∈ back, isBlank c = true)
    (last : ∃ c ∈ s.getLast?, isBlank c = false) : trimRight (s ++ back) = s := by
  have left : trimLeft (back.reverse ++ s.reverse) = s.reverse := by
    apply trimLeft_append
    · intro c member
      exact blank c (List.mem_reverse.1 member)
    · rwa [List.head?_reverse]
  rw [trimRight, List.reverse_append, ← trimLeft, left, List.reverse_reverse]

end Text

namespace Source

theorem escape_cons (markers : List Char) (c : Char) (s : List Char) :
    escape markers (c :: s) =
      if markers.contains c then '\\' :: c :: escape markers s else c :: escape markers s := by
  simp only [escape, List.flatMap_cons]
  split <;> rfl

/-- A character that is no backslash starts a comment if it is a marker, and is kept if not. -/
theorem dropComment_cons {markers : List Char} {c : Char} (plain : c ≠ '\\') (s : List Char) :
    dropComment markers (c :: s) =
      if markers.contains c then [] else c :: dropComment markers s :=
  dropComment.eq_4 _ _ _ (by simp [plain]) (by simp [plain])

/-- A backslash is kept where no marker follows it. -/
theorem dropComment_backslash {markers s : List Char} (plain : ∀ c ∈ s.head?, c ∉ markers) :
    dropComment markers ('\\' :: s) = '\\' :: dropComment markers s := by
  cases s with
  | nil => rfl
  | cons c s =>
    have follows : ¬markers.contains c = true := by simpa using plain c rfl
    rw [dropComment, if_neg follows]

/-- No escaped text starts with a marker. -/
theorem head_escape_not_marker {markers : List Char} (kept : '\\' ∉ markers) (s : List Char) :
    ∀ c ∈ (escape markers s).head?, c ∉ markers := by
  intro c first
  cases s with
  | nil => cases first
  | cons d s =>
    rw [escape_cons] at first
    split at first
    case isTrue =>
      obtain rfl := Option.some.inj first
      exact kept
    case isFalse plain =>
      obtain rfl := Option.some.inj first
      simpa using plain

/-- An escaped text in front of another is the text again, unless it ends in a backslash that makes
a marker behind it an ordinary character. -/
theorem dropComment_escape_append {markers s rest : List Char}
    (closed : s.getLast? = some '\\' → ∀ c ∈ rest.head?, c ∉ markers) :
    dropComment markers (escape markers s ++ rest) = s ++ dropComment markers rest := by
  induction s with
  | nil => rfl
  | cons c s ih =>
    have ih := ih fun last => closed (by rw [List.getLast?_cons, last]; rfl)
    rw [escape_cons]
    split
    case isTrue marker =>
      rw [List.cons_append, List.cons_append, dropComment, if_pos marker, ih, List.cons_append]
    case isFalse plain =>
      rw [List.cons_append, List.cons_append]
      by_cases backslash : c = '\\'
      · -- A backslash that is no marker is kept, since what follows it is no marker either.
        subst backslash
        have follows : ∀ d ∈ (escape markers s ++ rest).head?, d ∉ markers := by
          cases s with
          | nil => exact closed rfl
          | cons d s =>
            rw [List.head?_append_of_ne_nil]
            · exact head_escape_not_marker (by simpa using plain) (d :: s)
            · rw [escape_cons]
              split <;> exact List.cons_ne_nil _ _
        rw [dropComment_backslash follows, ih]
      · rw [dropComment_cons backslash, if_neg plain, ih]

/-- Dropping the comment of an escaped text gives the text, with no comment to drop. -/
theorem dropComment_escape (markers s : List Char) : dropComment markers (escape markers s) = s := by
  have whole : dropComment markers (escape markers s ++ []) = s ++ dropComment markers [] :=
    dropComment_escape_append fun _ => nofun
  rwa [List.append_nil, dropComment, List.append_nil] at whole

theorem escape_of_free {markers s : List Char} (free : ∀ c ∈ s, c ∉ markers) :
    escape markers s = s := by
  induction s with
  | nil => rfl
  | cons c s ih =>
    have plain : ¬markers.contains c = true := by simpa using free c List.mem_cons_self
    rw [escape_cons, if_neg plain, ih fun d member => free d (List.mem_cons_of_mem c member)]

/-- A text without markers has no comment. -/
theorem dropComment_of_free {markers s : List Char} (free : ∀ c ∈ s, c ∉ markers) :
    dropComment markers s = s := by
  have whole := dropComment_escape markers s
  rwa [escape_of_free free] at whole

/-- A word: not empty, and without separators. -/
structure IsWord (w : List Char) : Prop where
  filled : w ≠ []
  joined : ∀ c ∈ w, isSeparator c = false

theorem words_nil : words [] = [] := by
  simp [words]

/-- A separator splits the words of a text in two. -/
theorem words_append_separator (s : List Char) {c : Char} (hc : isSeparator c = true)
    (t : List Char) : words (s ++ c :: t) = words s ++ words t := by
  rw [words, List.splitOnP_append_cons s t hc, List.filter_append]
  rfl

theorem words_cons_separator {c : Char} (hc : isSeparator c = true) (t : List Char) :
    words (c :: t) = words t := by
  simpa [words_nil] using words_append_separator [] hc t

theorem words_of_isWord {w : List Char} (h : IsWord w) : words w = [w] := by
  rw [words, List.splitOnP_eq_singleton h.joined]
  simpa using h.filled

/-- The words of a text are words. -/
theorem isWord_of_mem_words {s w : List Char} (member : w ∈ words s) : IsWord w := by
  obtain ⟨piece, filled⟩ := List.mem_filter.1 member
  exact ⟨by simpa using filled, not_of_mem_splitOnP piece⟩

/-- Separators in front of a text belong to no word. -/
theorem words_separators_append {s : List Char} (hs : ∀ c ∈ s, isSeparator c = true)
    (t : List Char) : words (s ++ t) = words t := by
  induction s with
  | nil => rfl
  | cons c s ih =>
    rw [List.cons_append, words_cons_separator (hs c List.mem_cons_self)]
    exact ih fun d member => hs d (List.mem_cons_of_mem c member)

theorem words_of_separators {s : List Char} (hs : ∀ c ∈ s, isSeparator c = true) : words s = [] := by
  have none := words_separators_append hs []
  rwa [List.append_nil, words_nil] at none

/-- Separators at the end of a text belong to no word. -/
theorem words_append_separators (s : List Char) {t : List Char}
    (ht : ∀ c ∈ t, isSeparator c = true) : words (s ++ t) = words s := by
  cases t with
  | nil => rw [List.append_nil]
  | cons c t =>
    have rest : words t = [] := words_of_separators fun d member => ht d (List.mem_cons_of_mem c member)
    rw [words_append_separator s (ht c List.mem_cons_self), rest, List.append_nil]

theorem words_trim (s : List Char) : words (Text.trim s) = words s := by
  obtain ⟨front, back, split, hf, hb⟩ := Text.trim_split s
  have separator {c : Char} (blank : Text.isBlank c = true) : isSeparator c = true := by
    rw [isSeparator, blank, Bool.true_or]
  conv => rhs; rw [split]
  rw [words_append_separators _ fun c member => separator (hb c member),
    words_separators_append fun c member => separator (hf c member)]

/-- Words with a blank after the first and a comma and a blank after each other are found again. -/
theorem words_joined {first : List Char} (hf : IsWord first) {rest : List (List Char)}
    (hr : ∀ w ∈ rest, IsWord w) :
    words (first ++ ' ' :: [',', ' '].intercalate rest) = first :: rest := by
  rw [words_append_separator first (by decide), words_of_isWord hf, List.singleton_append]
  congr 1
  induction rest with
  | nil => exact words_nil
  | cons w rest ih =>
    have hw := words_of_isWord (hr w List.mem_cons_self)
    cases rest with
    | nil => rw [List.intercalate_singleton, hw]
    | cons v rest =>
      have tail := ih fun u member => hr u (List.mem_cons_of_mem w member)
      have blank : words ([' '] ++ [',', ' '].intercalate (v :: rest)) = v :: rest := by
        rw [words_separators_append (List.all_eq_true.1 (by decide)), tail]
      rw [List.intercalate_cons_cons, List.append_assoc, List.cons_append,
        words_append_separator w (by decide), hw, blank, List.singleton_append]

/-- A label is a name and a colon. -/
theorem labelName?_eq_some_iff {s name : List Char} :
    labelName? s = some name ↔ s = name ++ [':'] ∧ name ≠ [] ∧ ∀ c ∈ name, isNameChar c = true := by
  constructor
  · intro h
    simp only [labelName?] at h
    split at h
    case isFalse => cases h
    case isTrue colon =>
      obtain ⟨last, filled, chars⟩ := colon
      obtain rfl := Option.some.inj h
      exact ⟨(List.dropLast_append_getLast? ':' last).symm, filled, List.all_eq_true.1 chars⟩
  · rintro ⟨rfl, filled, chars⟩
    have chars : name.all isNameChar = true := List.all_eq_true.2 chars
    simp [labelName?, filled, chars]

theorem IsWord.of_label {name : List Char} (chars : ∀ c ∈ name, isNameChar c = true) :
    IsWord (name ++ [':']) := by
  constructor
  case filled => simp
  case joined =>
    intro c member
    rcases List.mem_append.1 member with inName | colon
    · have plain := chars c inName
      simp only [isNameChar, Bool.and_eq_true, Bool.not_eq_true'] at plain
      exact plain.1
    · obtain rfl := List.mem_singleton.1 colon
      decide

/-- A text of more than one word is no label. -/
theorem labelName?_trim_of_words {s first second : List Char} {rest : List (List Char)}
    (h : words s = first :: second :: rest) : labelName? (Text.trim s) = none := by
  cases label : labelName? (Text.trim s) with
  | none => rfl
  | some name =>
    obtain ⟨split, -, chars⟩ := labelName?_eq_some_iff.1 label
    have one := words_of_isWord (IsWord.of_label chars)
    rw [← split, words_trim, h] at one
    simp at one

theorem Line.ofText_eq_label_iff {s : List Char} {name : String} :
    Line.ofText s = .label name ↔ labelName? (Text.trim s) = some name.toList := by
  unfold Line.ofText
  split
  case h_1 found label =>
    rw [label, Line.label.injEq, Option.some.injEq]
    constructor
    · rintro rfl
      exact String.toList_ofList.symm
    · rintro rfl
      exact String.ofList_toList
  case h_2 none =>
    rw [none]
    split <;> simp

/-- The mnemonic and the operands of an instruction line are its words. -/
theorem Line.words_of_ofText {s : List Char} {mnemonic : String} {operands : List String}
    (h : Line.ofText s = .instruction mnemonic operands) :
    words s = (mnemonic :: operands).map String.toList := by
  unfold Line.ofText at h
  split at h
  case h_1 => cases h
  case h_2 =>
    split at h
    case h_1 => cases h
    case h_2 first rest found =>
      obtain ⟨rfl, rfl⟩ := Line.instruction.inj h
      rw [← found, List.map_map]
      simp

theorem Line.isWord_of_ofText_instruction {s : List Char} {mnemonic : String}
    {operands : List String} (h : Line.ofText s = .instruction mnemonic operands) :
    ∀ operand ∈ operands, IsWord operand.toList := by
  intro operand member
  apply isWord_of_mem_words (s := s)
  rw [Line.words_of_ofText h]
  exact List.mem_map_of_mem (List.mem_cons_of_mem mnemonic member)

/-- The name of a label is a word. -/
theorem Line.isWord_of_ofText_label {s : List Char} {name : String}
    (h : Line.ofText s = .label name) : IsWord name.toList := by
  obtain ⟨-, filled, chars⟩ := labelName?_eq_some_iff.1 (Line.ofText_eq_label_iff.1 h)
  refine ⟨filled, fun c member => ?_⟩
  exact (IsWord.of_label chars).joined c (List.mem_append_left _ member)

/-- A text with its markers escaped is read as the text itself. -/
theorem Line.read_escape (markers s : List Char) :
    Line.read markers (String.ofList (escape markers s)) = Line.ofText s := by
  rw [Line.read, String.toList_ofList, dropComment_escape]

theorem Line.ofText_of_words {s first second : List Char} {rest : List (List Char)}
    (h : words s = first :: second :: rest) :
    Line.ofText s =
      .instruction (String.ofList first) ((second :: rest).map String.ofList) := by
  simp only [Line.ofText, labelName?_trim_of_words h, h, List.map_cons]

end Source

end Halfword
