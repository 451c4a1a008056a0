import Halfword.Proofs.Layout

/-!
# Escaped markers and comments

Behind an escaped text the comment is dropped as if it stood alone (`dropComment_escape_append`), so
a marker there starts a comment and the text before it is given back. Only the backslash is a marker
that starts no comment: it is kept, or the marker behind it is (`dropComment_backslash_ne_nil`).
-/

namespace Halfword.Source

/-- A marker other than the backslash starts a comment. -/
theorem dropComment_marker {markers : List Char} {c : Char} (marker : c ∈ markers)
    (plain : c ≠ '\\') (t : List Char) : dropComment markers (c :: t) = [] := by
  rw [dropComment_cons plain, if_pos (List.contains_iff_mem.2 marker)]

/-- A backslash starts no comment, be it a marker or not. -/
theorem dropComment_backslash_ne_nil (markers t : List Char) :
    dropComment markers ('\\' :: t) ≠ [] := by
  cases t with
  | nil => exact List.cons_ne_nil _ _
  | cons c t =>
    rw [dropComment]
    split <;> exact List.cons_ne_nil _ _

/-- A text without markers and backslashes is kept whatever stands behind it. -/
theorem dropComment_append_of_free {markers s : List Char} (free : ∀ c ∈ s, c ∉ markers)
    (plain : '\\' ∉ s) (rest : List Char) :
    dropComment markers (s ++ rest) = s ++ dropComment markers rest := by
  have closed : s.getLast? = some '\\' → ∀ c ∈ rest.head?, c ∉ markers :=
    fun last => absurd (List.mem_of_getLast? last) plain
  rw [← dropComment_escape_append closed, escape_of_free free]

/-- Dropping the comment undoes escaping, whatever the markers are. A text with a backslash before
each of its markers is given back, alone and in front of a comment that any marker but the backslash
starts, unless the text ends in a backslash. -/
theorem dropping_comment_undoes_escaping (markers s : List Char) :
    dropComment markers (escape markers s) = s ∧
    ∀ c ∈ markers, c ≠ '\\' → s.getLast? ≠ some '\\' →
      ∀ t, dropComment markers (escape markers s ++ c :: t) = s := by
  refine ⟨dropComment_escape markers s, ?_⟩
  intro c marker plain closed t
  rw [dropComment_escape_append fun last => absurd last closed, dropComment_marker marker plain,
    List.append_nil]

/-- Markers with the backslash, a letter and a blank among them. -/
theorem dropping_comment_undoes_escaping_mixed :
    escape ['\\', 'r', ' ', ';'] "b r\\x; y".toList = "b\\ \\r\\\\x\\;\\ y".toList ∧
    dropComment ['\\', 'r', ' ', ';'] "b\\ \\r\\\\x\\;\\ y".toList = "b r\\x; y".toList ∧
    dropComment ['\\', 'r', ' ', ';'] ("b\\ \\r\\\\x\\;\\ y".toList ++ 'r' :: "est".toList) =
      "b r\\x; y".toList := by
  have escaped : escape ['\\', 'r', ' ', ';'] "b r\\x; y".toList =
      "b\\ \\r\\\\x\\;\\ y".toList := by
    decide
  have undone := dropping_comment_undoes_escaping ['\\', 'r', ' ', ';'] "b r\\x; y".toList
  rw [escaped] at undone
  exact ⟨escaped, undone.1, undone.2 'r' (by decide) (by decide) (by decide) _⟩

/-- Every marker but the backslash starts a comment. Behind a text without markers and backslashes it
hides the rest of the line, so that the line is read as the text alone. The text is all that is kept
of the line just if the marker is not the backslash. -/
theorem marker_starts_comment_unless_backslash {markers : List Char} {c : Char}
    (marker : c ∈ markers) {s : String} (free : ∀ d ∈ s.toList, d ∉ markers)
    (plain : '\\' ∉ s.toList) (t : String) :
    (c ≠ '\\' → Line.read markers (s ++ String.singleton c ++ t) = Line.read markers s) ∧
    (dropComment markers (s ++ String.singleton c ++ t).toList = s.toList ↔ c ≠ '\\') := by
  have split : dropComment markers (s ++ String.singleton c ++ t).toList =
      s.toList ++ dropComment markers (c :: t.toList) := by
    rw [String.toList_append, String.toList_append, String.toList_singleton, List.append_assoc,
      List.singleton_append, dropComment_append_of_free free plain]
  have kept : dropComment markers (s ++ String.singleton c ++ t).toList = s.toList ↔ c ≠ '\\' := by
    rw [split, List.append_right_eq_self]
    constructor
    · rintro nothing rfl
      exact dropComment_backslash_ne_nil markers t.toList nothing
    · intro other
      exact dropComment_marker marker other t.toList
  refine ⟨fun other => ?_, kept⟩
  rw [Line.read, Line.read, kept.2 other, dropComment_of_free free]

/-- A marker that is doubled, with text behind it. -/
theorem marker_starts_comment_unless_backslash_slash :
    '/' ∈ ['/', '\\'] ∧
    Line.read ['/', '\\'] ("b x " ++ String.singleton '/' ++ "/ jump") =
      Line.read ['/', '\\'] "b x " ∧
    dropComment ['/', '\\'] ("b x " ++ String.singleton '/' ++ "/ jump").toList = "b x ".toList := by
  have marker : '/' ∈ ['/', '\\'] := by decide
  have free : ∀ d ∈ "b x ".toList, d ∉ ['/', '\\'] := by simp
  have starts := marker_starts_comment_unless_backslash marker free (by decide) "/ jump"
  exact ⟨marker, starts.1 (by decide), starts.2.2 (by decide)⟩

/-- A backslash that is a marker hides nothing, though no marker stands behind it. -/
theorem backslash_marker_starts_no_comment :
    '\\' ∈ ['\\'] ∧ (∀ d ∈ "b x ".toList, d ∉ ['\\']) ∧ '\\' ∉ "b x ".toList ∧
    Line.read ['\\'] ("b x " ++ String.singleton '\\' ++ " jump") ≠
      Line.read ['\\'] "b x " := by
  refine ⟨by decide, by simp, by decide, ?_⟩
  decide +kernel

end Halfword.Source
