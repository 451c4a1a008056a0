import Halfword.Proofs.Comments
import Halfword.Proofs.SecondPass

/-!
# The source column of the listing

A listing shows each line as written, comment included, without the blanks around it. Where no
marker is blank, these blanks take no part in the reading: in front they start no comment, and
behind the text they follow it or its comment (`dropComment_append_blanks`), also behind a
backslash, which looks at the next character. So the shown text is read as the line was and gives
the word beside it.
-/

namespace Halfword

namespace Text

theorem trimRight_append_blanks (s : List Char) {back : List Char}
    (hb : ∀ c ∈ back, isBlank c = true) : trimRight (s ++ back) = trimRight s := by
  have blank : ∀ c ∈ back.reverse, isBlank c = true :=
    fun c member => hb c (List.mem_reverse.1 member)
  rw [trimRight, List.reverse_append, List.dropWhile_append_of_pos blank, trimRight]

/-- Blanks around a text are trimmed with those of the text. -/
theorem trim_between {front back : List Char} (hf : ∀ c ∈ front, isBlank c = true)
    (hb : ∀ c ∈ back, isBlank c = true) (s : List Char) : trim (front ++ s ++ back) = trim s := by
  rw [trim, trim, trimLeft, List.append_assoc, List.dropWhile_append_of_pos hf,
    List.dropWhile_append]
  split
  case isTrue none =>
    rw [List.dropWhile_eq_nil_iff.2 hb, trimLeft, List.isEmpty_iff.1 none]
  case isFalse => rw [trimRight_append_blanks _ hb, trimLeft]

end Text

namespace Source

/-- Blanks around a text without comments do not change its line. -/
theorem Line.ofText_between {front back : List Char} (hf : ∀ c ∈ front, Text.isBlank c = true)
    (hb : ∀ c ∈ back, Text.isBlank c = true) (s : List Char) :
    Line.ofText (front ++ s ++ back) = Line.ofText s := by
  have trimmed := Text.trim_between hf hb s
  have sameWords : words (front ++ s ++ back) = words s := by
    rw [← words_trim, trimmed, words_trim]
  rw [Line.ofText, Line.ofText, trimmed, sameWords]

section Solid

variable {markers : List Char} (solid : ∀ c ∈ markers, Text.isBlank c = false)
include solid

theorem not_marker_of_isBlank {c : Char} (blank : Text.isBlank c = true) : c ∉ markers := by
  intro marker
  rw [solid c marker] at blank
  cases blank

/-- Blanks behind a text are kept, or dropped with its comment. -/
theorem dropComment_append_blanks {back : List Char} (hb : ∀ c ∈ back, Text.isBlank c = true)
    (s : List Char) :
    ∃ kept, dropComment markers (s ++ back) = dropComment markers s ++ kept ∧
      ∀ c ∈ kept, Text.isBlank c = true := by
  have free : ∀ c ∈ back, c ∉ markers := fun c member => not_marker_of_isBlank solid (hb c member)
  -- The last two cases of the recursion are those of a first character that is no backslash.
  have ordinary {c : Char} {rest : List Char} (alone : c = '\\' → rest = [] → False)
      (followed : ∀ d t, c = '\\' → rest = d :: t → False) : c ≠ '\\' := by
    intro backslash
    cases rest with
    | nil => exact alone backslash rfl
    | cons d t => exact followed d t backslash rfl
  fun_induction dropComment markers s with
  | case1 => exact ⟨back, dropComment_of_free free, hb⟩
  | case2 =>
    refine ⟨back, ?_, hb⟩
    have follows : ∀ c ∈ back.head?, c ∉ markers := fun c first => free c (List.mem_of_head? first)
    rw [List.singleton_append, dropComment_backslash follows, dropComment_of_free free]
  | case3 c rest marker ih =>
    obtain ⟨kept, split, blank⟩ := ih
    refine ⟨kept, ?_, blank⟩
    rw [List.cons_append, List.cons_append, dropComment, if_pos marker, split, List.cons_append]
  | case4 c rest plain ih =>
    obtain ⟨kept, split, blank⟩ := ih
    refine ⟨kept, ?_, blank⟩
    rw [List.cons_append, List.cons_append, dropComment, if_neg plain, ← List.cons_append, split,
      List.cons_append]
  | case5 c rest alone followed marker =>
    refine ⟨[], ?_, List.forall_mem_nil _⟩
    rw [List.cons_append, dropComment_cons (ordinary alone followed), if_pos marker,
      List.append_nil]
  | case6 c rest alone followed plain ih =>
    obtain ⟨kept, split, blank⟩ := ih
    refine ⟨kept, ?_, blank⟩
    rw [List.cons_append, dropComment_cons (ordinary alone followed), if_neg plain, split,
      List.cons_append]

/-- Trimming a text does not change how it is read. -/
theorem Line.read_trim (text : String) :
    Line.read markers (String.ofList (Text.trim text.toList)) = Line.read markers text := by
  obtain ⟨front, back, split, hf, hb⟩ := Text.trim_split text.toList
  obtain ⟨kept, behind, hk⟩ := dropComment_append_blanks solid hb (Text.trim text.toList)
  have whole : dropComment markers text.toList =
      front ++ dropComment markers (Text.trim text.toList) ++ kept := by
    have free : ∀ c ∈ front, c ∉ markers :=
      fun c member => not_marker_of_isBlank solid (hf c member)
    have plain : '\\' ∉ front := by
      intro member
      exact absurd (hf _ member) (by decide)
    conv => lhs; rw [split]
    rw [List.append_assoc, dropComment_append_of_free free plain, behind, List.append_assoc]
  rw [Line.read, Line.read, String.toList_ofList, whole, Line.ofText_between hf hk]

end Solid

end Source

open Source

/-- The source column of a listing reproduces its words. Without a blank among the markers, a text
is read as it is without the blanks around it. So each entry shows a line of the source that way,
and the shown text is read as an instruction line whose statement, with the labels of the program,
is the word of the entry. -/
theorem listed_source_reproduces_word {markers : List Char}
    (solid : ∀ c ∈ markers, Text.isBlank c = false) :
    (∀ text : String,
      Line.read markers (String.ofList (Text.trim text.toList)) = Line.read markers text) ∧
    ∀ source, ∀ e ∈ (assemble markers source).listing,
      (∃ text, ⟨e.line, text⟩ ∈ numberLines source ∧ e.source.toList = Text.trim text.toList) ∧
      ∃ mnemonic operands statement i,
        Line.read markers e.source = .instruction mnemonic operands ∧
        (∀ line, Statement.readAt line mnemonic operands = .ok statement) ∧
        statement.resolve (assemble markers source).symbols = .ok i ∧ i.toWord = e.word := by
  refine ⟨Line.read_trim solid, fun source e listed => ?_⟩
  obtain ⟨index, l, found, encoded⟩ := Assembly.mem_listing_iff.1 listed
  obtain ⟨s, i, hs, hi, rfl⟩ := InstructionLine.encode_eq_ok_iff.1 encoded
  obtain ⟨numbered, read⟩ := LexedLine.read_of_mem_instructions (List.mem_of_getElem? found)
  refine ⟨⟨l.source.text, numbered, String.toList_ofList⟩, l.mnemonic, l.operands, s, i, ?_, ?_, hi,
    rfl⟩
  · rw [Line.read_trim solid, read]
  · intro line
    exact Outcome.ofReading_eq_ok_iff.2 (Outcome.ofReading_eq_ok_iff.1 hs)

/-- A wide blank in front of a branch, and blanks behind the backslash that ends its label. -/
theorem listed_source_reproduces_word_backslash :
    (∀ c ∈ defaultMarkers, Text.isBlank c = false) ∧
    ∃ e ∈ (assemble defaultMarkers "a\\:\n\u3000b a\\ \t\nbeq a\\ ; back").listing,
      e.source = "b a\\" ∧ e.word = 0x0009#16 ∧
      ∃ mnemonic operands statement i,
        Line.read defaultMarkers e.source = .instruction mnemonic operands ∧
        (∀ line, Statement.readAt line mnemonic operands = .ok statement) ∧
        statement.resolve
          (assemble defaultMarkers "a\\:\n\u3000b a\\ \t\nbeq a\\ ; back").symbols = .ok i ∧
        i.toWord = e.word := by
  have solid : ∀ c ∈ defaultMarkers, Text.isBlank c = false := by
    intro c marker
    rcases List.mem_pair.1 marker with rfl | rfl <;> decide
  have listed : (⟨2, 0#16, ⟨.b, .always, .directBranch 0#16⟩, "b a\\"⟩ : Entry) ∈
      (assemble defaultMarkers "a\\:\n\u3000b a\\ \t\nbeq a\\ ; back").listing := by
    decide +kernel
  have shown := (listed_source_reproduces_word solid).2 _ _ listed
  exact ⟨solid, _, listed, rfl, by decide, shown.2⟩

end Halfword
