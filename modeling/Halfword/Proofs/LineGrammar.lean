import Halfword.Proofs.Layout

/-!
# The grammar of lines

A line without its comment is blank, a label or an instruction, and the text decides which. The
words of an instruction are the maximal runs of its text without separators. The runs of a text obey
the same equation as its words, a separator splits them in two (`runAt_append_separator`), and on
that the two are shown to be the same by induction on the pieces between separators
(`areRuns_words`).
-/

namespace Halfword.Source

/-- A word between the texts `before` and `after` that cannot be extended to either side: there is
a separator or nothing. -/
structure IsRun (before run after : List Char) : Prop extends IsWord run where
  left : ∀ c ∈ before.getLast?, isSeparator c = true
  right : ∀ c ∈ after.head?, isSeparator c = true

/-- A maximal run of a text, with the number of characters before it. -/
def RunAt (s : List Char) (start : Nat) (run : List Char) : Prop :=
  ∃ before after, s = before ++ run ++ after ∧ before.length = start ∧ IsRun before run after

/-- Words that are the maximal runs of a text, from left to right. -/
def AreRuns (s : List Char) (ws : List (List Char)) : Prop :=
  ∃ places : List (Nat × List Char), places.map Prod.snd = ws ∧
    (places.map Prod.fst).Pairwise (· < ·) ∧
    ∀ start run, (start, run) ∈ places ↔ RunAt s start run

/-- A label's text: blanks around a name and a colon. -/
structure IsLabelText (s name : List Char) : Prop where
  filled : name ≠ []
  chars : ∀ c ∈ name, Text.isBlank c = false ∧ c ≠ ',' ∧ c ≠ ':'
  text : ∃ front back, s = front ++ (name ++ [':']) ++ back ∧
    (∀ c ∈ front, Text.isBlank c = true) ∧ ∀ c ∈ back, Text.isBlank c = true

/-- What it means that a line is what the grammar makes of a text without comments. -/
structure Line.Matches (line : Line) (s : List Char) : Prop where
  /-- The line is blank just if the text has no character but blanks and commas. -/
  blank : line = .blank ↔ ∀ c ∈ s, Text.isBlank c = true ∨ c = ','
  /-- The line is a label just if the text is the label's name and a colon between blanks. -/
  label : ∀ name : String, line = .label name ↔ IsLabelText s name.toList
  /-- In all other cases the line is an instruction. Its mnemonic and operands are the maximal runs
  of the text, so they are words and hold all characters that are no separators. -/
  instruction : (¬∀ c ∈ s, Text.isBlank c = true ∨ c = ',') → (∀ name, ¬IsLabelText s name) →
    ∃ mnemonic operands, line = .instruction mnemonic operands ∧
      AreRuns s ((mnemonic :: operands).map String.toList) ∧
      (∀ w ∈ (mnemonic :: operands).map String.toList, IsWord w) ∧
      ((mnemonic :: operands).map String.toList).flatten = s.filter fun c => !isSeparator c

theorem RunAt.start_le {s run : List Char} {start : Nat} (h : RunAt s start run) :
    start ≤ s.length := by
  obtain ⟨before, after, rfl, rfl, -⟩ := h
  simp only [List.length_append]
  omega

/-- A text without separators is its only run. -/
theorem runAt_of_joined {s run : List Char} {start : Nat}
    (joined : ∀ c ∈ s, isSeparator c = false) :
    RunAt s start run ↔ s ≠ [] ∧ start = 0 ∧ run = s := by
  constructor
  · rintro ⟨before, after, rfl, rfl, ⟨filled, -⟩, left, right⟩
    have front : before = [] := by
      rw [← List.getLast?_eq_none_iff, Option.eq_none_iff_forall_ne_some]
      intro c last
      have inside := joined c (by simp [List.mem_of_getLast? last])
      exact Bool.false_ne_true (inside.symm.trans (left c last))
    have back : after = [] := by
      rw [← List.head?_eq_none_iff, Option.eq_none_iff_forall_ne_some]
      intro c head
      have inside := joined c (by simp [List.mem_of_head? head])
      exact Bool.false_ne_true (inside.symm.trans (right c head))
    subst front back
    simpa using filled
  · rintro ⟨filled, rfl, rfl⟩
    exact ⟨[], [], by simp, rfl, ⟨filled, joined⟩, nofun, nofun⟩

/-- An element outside a part of a list stands before the part or behind it. -/
theorem beside_of_notMem {α : Type} {s t before part after : List α} {c : α} (outside : c ∉ part)
    (split : s ++ c :: t = before ++ part ++ after) :
    (∃ middle, s = before ++ part ++ middle ∧ after = middle ++ c :: t) ∨
      ∃ middle, before = s ++ c :: middle ∧ t = middle ++ part ++ after := by
  rcases List.append_eq_append_iff.1 split with ⟨middle, inside, found⟩ | behind
  · cases middle with
    | nil => exact .inl ⟨[], by simp [inside], found.symm⟩
    | cons d middle =>
      obtain ⟨rfl, rfl⟩ := List.cons.inj found
      -- The first element behind `s` is in `before` and not in the part.
      rcases List.append_eq_append_iff.1 inside with ⟨rest, -, rfl⟩ | ⟨rest, rfl, found⟩
      · exact absurd (List.mem_append_right rest List.mem_cons_self) outside
      · cases rest with
        | nil =>
          rw [List.nil_append] at found
          exact absurd (found ▸ List.mem_cons_self) outside
        | cons d rest =>
          obtain ⟨rfl, rfl⟩ := List.cons.inj found
          exact .inr ⟨rest, rfl, rfl⟩
  · exact .inl behind

/-- Only the text up to the next separator decides where a run ends. -/
theorem isRun_append_separator {before run s t : List Char} {c : Char}
    (hc : isSeparator c = true) : IsRun before run (s ++ c :: t) ↔ IsRun before run s := by
  cases s with
  | nil =>
    constructor
    · rintro ⟨word, left, -⟩
      exact ⟨word, left, nofun⟩
    · rintro ⟨word, left, -⟩
      refine ⟨word, left, fun d first => ?_⟩
      obtain rfl := Option.some.inj first
      exact hc
  | cons d s => exact ⟨fun h => ⟨h.1, h.2, h.3⟩, fun h => ⟨h.1, h.2, h.3⟩⟩

/-- Only the text behind the last separator decides where a run starts. -/
theorem isRun_separator_append {s before run after : List Char} {c : Char}
    (hc : isSeparator c = true) : IsRun (s ++ c :: before) run after ↔ IsRun before run after := by
  have last : (s ++ c :: before).getLast? = before.getLast?.or (some c) := by
    rw [List.getLast?_append_cons, List.getLast?_cons]
    cases before.getLast? <;> rfl
  constructor
  · rintro ⟨word, left, right⟩
    refine ⟨word, fun d final => left d ?_, right⟩
    rw [last, Option.mem_def.1 final]
    rfl
  · rintro ⟨word, left, right⟩
    refine ⟨word, fun d final => ?_, right⟩
    rw [last] at final
    cases ended : before.getLast? with
    | none =>
      rw [ended] at final
      obtain rfl := Option.some.inj final
      exact hc
    | some e =>
      rw [ended] at final
      obtain rfl := Option.some.inj final
      exact left e ended

/-- A separator splits the runs of a text in two. -/
theorem runAt_append_separator {s t run : List Char} {c : Char} {start : Nat}
    (hc : isSeparator c = true) :
    RunAt (s ++ c :: t) start run ↔
      RunAt s start run ∨ ∃ rest, RunAt t rest run ∧ start = s.length + 1 + rest := by
  constructor
  · rintro ⟨before, after, split, rfl, isRun⟩
    have outside : c ∉ run := by
      intro inside
      exact Bool.false_ne_true ((isRun.joined c inside).symm.trans hc)
    rcases beside_of_notMem outside split with ⟨middle, rfl, rfl⟩ | ⟨middle, rfl, rfl⟩
    · exact .inl ⟨before, middle, rfl, rfl, (isRun_append_separator hc).1 isRun⟩
    · refine .inr ⟨_, ⟨middle, after, rfl, rfl, (isRun_separator_append hc).1 isRun⟩, ?_⟩
      simp only [List.length_append, List.length_cons]
      omega
  · rintro (⟨before, after, rfl, rfl, isRun⟩ | ⟨rest, ⟨before, after, rfl, rfl, isRun⟩, rfl⟩)
    · refine ⟨before, after ++ c :: t, by simp, rfl, (isRun_append_separator hc).2 isRun⟩
    · refine ⟨s ++ c :: before, after, by simp, ?_, (isRun_separator_append hc).2 isRun⟩
      simp only [List.length_append, List.length_cons]
      omega

theorem AreRuns.append_separator {s t : List Char} {ws ws' : List (List Char)} {c : Char}
    (front : AreRuns s ws) (hc : isSeparator c = true) (back : AreRuns t ws') :
    AreRuns (s ++ c :: t) (ws ++ ws') := by
  obtain ⟨places, rfl, ordered, runs⟩ := front
  obtain ⟨places', rfl, ordered', runs'⟩ := back
  -- The runs of `t` start behind `s` and the separator, later than all runs of `s`.
  refine ⟨places ++ places'.map fun p => (s.length + 1 + p.1, p.2), ?_, ?_, ?_⟩
  · rw [List.map_append, List.map_map]
    rfl
  · rw [List.pairwise_map] at ordered ordered' ⊢
    rw [List.pairwise_append, List.pairwise_map]
    refine ⟨ordered, ordered'.imp fun earlier => Nat.add_lt_add_left earlier _, ?_⟩
    intro p member q later
    have early : p.1 ≤ s.length := ((runs p.1 p.2).1 member).start_le
    obtain ⟨q', -, rfl⟩ := List.mem_map.1 later
    change p.1 < s.length + 1 + q'.1
    omega
  · intro start run
    have behind : (start, run) ∈ places'.map (fun p => (s.length + 1 + p.1, p.2)) ↔
        ∃ rest, RunAt t rest run ∧ start = s.length + 1 + rest := by
      rw [List.mem_map]
      constructor
      · rintro ⟨⟨rest, run'⟩, member, same⟩
        obtain ⟨rfl, rfl⟩ := Prod.mk.inj same
        exact ⟨rest, (runs' rest run').1 member, rfl⟩
      · rintro ⟨rest, runAt, rfl⟩
        exact ⟨(rest, run), (runs' rest run).2 runAt, rfl⟩
    rw [runAt_append_separator hc, List.mem_append, runs, behind]

/-- A text is made of words and empty texts, joined at separators. -/
theorem word_induction {motive : List Char → Prop} (empty : motive [])
    (word : ∀ w, IsWord w → motive w)
    (join : ∀ s c t, isSeparator c = true → motive s → motive t → motive (s ++ c :: t))
    (s : List Char) : motive s := by
  induction s using separator_induction (p := isSeparator) with
  | piece s joined =>
    by_cases filled : s = []
    · rwa [filled]
    · exact word s ⟨filled, joined⟩
  | join s c t separates front back => exact join s c t separates front back

/-- The words of a text are its maximal runs, from left to right. -/
theorem areRuns_words (s : List Char) : AreRuns s (words s) := by
  induction s using word_induction with
  | empty =>
    refine ⟨[], words_nil.symm, .nil, fun start run => ?_⟩
    simp [runAt_of_joined (List.forall_mem_nil _)]
  | word w isWord =>
    refine ⟨[(0, w)], (words_of_isWord isWord).symm, by simp, fun start run => ?_⟩
    simp [runAt_of_joined isWord.joined, isWord.filled]
  | join s c t separates front back =>
    rw [words_append_separator s separates t]
    exact front.append_separator separates back

/-- The words of a text hold its characters in order, apart from the separators. -/
theorem flatten_words (s : List Char) : (words s).flatten = s.filter fun c => !isSeparator c := by
  induction s using word_induction with
  | empty =>
    rw [words_nil]
    rfl
  | word w isWord =>
    have kept : w.filter (fun c => !isSeparator c) = w :=
      List.filter_eq_self.2 fun c member => by rw [isWord.joined c member, Bool.not_false]
    rw [kept, words_of_isWord isWord, List.flatten_singleton]
  | join s c t separates front back =>
    rw [words_append_separator s separates t, List.flatten_append, front, back, List.filter_append,
      List.filter_cons_of_neg (by simp [separates])]

theorem words_eq_nil_iff {s : List Char} : words s = [] ↔ ∀ c ∈ s, isSeparator c = true := by
  constructor
  · intro none c member
    have nothing := flatten_words s
    rw [none, List.flatten_nil, eq_comm, List.filter_eq_nil_iff] at nothing
    simpa using nothing c member
  · exact words_of_separators

theorem isSeparator_iff {c : Char} : isSeparator c = true ↔ Text.isBlank c = true ∨ c = ',' := by
  rw [isSeparator, Bool.or_eq_true, beq_iff_eq]

theorem isNameChar_iff {c : Char} :
    isNameChar c = true ↔ Text.isBlank c = false ∧ c ≠ ',' ∧ c ≠ ':' := by
  simp [isNameChar, isSeparator, and_assoc]

/-- The trimmed text is a name and a colon just if these stand between blanks. -/
theorem labelName?_trim_iff {s name : List Char} :
    labelName? (Text.trim s) = some name ↔ IsLabelText s name := by
  rw [labelName?_eq_some_iff]
  constructor
  · rintro ⟨colon, filled, chars⟩
    obtain ⟨front, back, split, hf, hb⟩ := Text.trim_split s
    rw [colon] at split
    exact ⟨filled, fun c member => isNameChar_iff.1 (chars c member), front, back, split, hf, hb⟩
  · rintro ⟨filled, chars, front, back, rfl, hf, hb⟩
    refine ⟨?_, filled, fun c member => isNameChar_iff.2 (chars c member)⟩
    rw [Text.trim, List.append_assoc, Text.trimLeft_append hf, Text.trimRight_append hb]
    · exact ⟨':', by simp, by decide⟩
    · obtain ⟨c, rest, rfl⟩ := List.exists_cons_of_ne_nil filled
      exact ⟨c, rfl, (chars c List.mem_cons_self).1⟩

/-- A line is blank just if its text has no words: a label has one. -/
theorem Line.ofText_eq_blank_iff {s : List Char} : Line.ofText s = .blank ↔ words s = [] := by
  unfold Line.ofText
  split
  case h_1 name label =>
    obtain ⟨colon, -, chars⟩ := labelName?_eq_some_iff.1 label
    rw [← words_trim, colon, words_of_isWord (IsWord.of_label chars)]
    simp
  case h_2 =>
    rw [← List.map_eq_nil_iff (f := String.ofList)]
    split <;> simp [*]

/-- Every text is read as the grammar says. Once its comment is gone, it is blank if nothing but
blanks and commas is left, a label if a name and a colon are left between blanks, and otherwise an
instruction of all its maximal runs. -/
theorem line_follows_grammar (markers : List Char) (text : String) :
    (Line.read markers text).Matches (dropComment markers text.toList) := by
  rw [Line.read]
  generalize dropComment markers text.toList = s
  have blank : Line.ofText s = .blank ↔ ∀ c ∈ s, Text.isBlank c = true ∨ c = ',' := by
    simp only [Line.ofText_eq_blank_iff, words_eq_nil_iff, isSeparator_iff]
  have label (name : String) : Line.ofText s = .label name ↔ IsLabelText s name.toList := by
    rw [Line.ofText_eq_label_iff, labelName?_trim_iff]
  refine ⟨blank, label, fun filled unlabelled => ?_⟩
  cases read : Line.ofText s with
  | blank => exact absurd (blank.1 read) filled
  | label name => exact absurd ((label name).1 read) (unlabelled name.toList)
  | instruction mnemonic operands =>
    refine ⟨mnemonic, operands, rfl, ?_⟩
    rw [← Line.words_of_ofText read]
    exact ⟨areRuns_words s, fun w member => isWord_of_mem_words member, flatten_words s⟩

/-- A colon alone, doubled or before a comma makes no label, and wide blanks are blanks. -/
example :
    Line.read defaultMarkers " : ; empty" = .instruction ":" [] ∧
    Line.read defaultMarkers "a::" = .instruction "a::" [] ∧
    Line.read defaultMarkers "a:," = .instruction "a:" [] ∧
    Line.read defaultMarkers "\u2003a:\u0085" = .label "a" ∧
    Line.read defaultMarkers ",\u3000,\n" = .blank := by
  decide +kernel

end Halfword.Source
