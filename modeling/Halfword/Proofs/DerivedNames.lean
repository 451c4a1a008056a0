import Halfword.Proofs.InputSafety

/-!
# The name of an image without a chosen path

A file name is divided at its last dot into a stem and an extension (`Path.Divided`), and the name
of an image is meant to be the stem with an ending of its own (`imageName`). A binary image has that
name (`derivedName_bin`). A hexadecimal one gets its ending in the place of an extension
(`derivedName_hex`), and the stem may still have one: the ending is added only if the stem has no
dot behind its first character (`Path.withExtension_of_undotted`). Otherwise the last part of the
stem is lost (`Path.withExtension_of_parted`), and a stem that is `.` or `..` takes no ending at
all.
-/

namespace Halfword.Command

namespace Path

/-- A text that names a file. -/
structure IsName (name : String) : Prop where
  filled : name ≠ ""
  slashless : '/' ∉ name.toList
  notHere : name ≠ "."
  notUp : name ≠ ".."

theorem fileName?_of_components {path name : String} {parent : List Component}
    (named : components path = parent ++ [.name name]) : fileName? path = some name := by
  rw [fileName?_eq_some_iff, named, List.getLast?_concat]

theorem isName_of_fileName? {path name : String} (named : fileName? path = some name) :
    IsName name := by
  obtain ⟨member, component⟩ := Volume.part_of_fileName? named
  obtain ⟨filled, slashless⟩ := Volume.filled_of_mem_parts member
  refine ⟨filled, slashless, ?_, ?_⟩
  · rintro rfl
    exact absurd component (by decide)
  · rintro rfl
    exact absurd component (by decide)

/-- A path without slashes ends in a name just if it is that name. -/
theorem IsName.fileName?_eq_iff {path name : String} (isName : IsName name)
    (slashless : '/' ∉ path.toList) : fileName? path = some name ↔ path = name := by
  constructor
  · exact Volume.eq_of_fileName?_of_slashless slashless
  · rintro rfl
    have component := ofPart?_eq_name isName.filled isName.notHere isName.notUp
    rw [fileName?_eq_some_iff, components_eq, Volume.parts_of_slashless isName.filled slashless]
    simp [component]

/-- A file name with its stem and its extension. The last dot divides them, unless it is the first
character. -/
inductive Divided : String → String → Option String → Prop where
  | whole (name : String) (undotted : '.' ∉ name.toList.tail) : Divided name name none
  | parted (stem extension : String) (filled : stem ≠ "") (last : '.' ∉ extension.toList) :
      Divided (stem ++ "." ++ extension) stem (some extension)

theorem toList_parted (stem extension : String) :
    (stem ++ "." ++ extension).toList = stem.toList ++ '.' :: extension.toList := by
  simp

/-- What is divided by a dot has one behind its first character. -/
theorem dot_mem_tail_parted {stem : String} (filled : stem ≠ "") (extension : String) :
    '.' ∈ (stem ++ "." ++ extension).toList.tail := by
  have filled : stem.toList ≠ [] := by simpa using filled
  rw [toList_parted, List.tail_append_of_ne_nil filled]
  simp

/-- A list is divided at the last place of a member. -/
theorem eq_append_cons_of_mem_last {α : Type} {a : α} {l : List α} (member : a ∈ l) :
    ∃ before after, l = before ++ a :: after ∧ a ∉ after := by
  obtain ⟨after, before, split, last⟩ := List.eq_append_cons_of_mem (List.mem_reverse.2 member)
  refine ⟨before.reverse, after.reverse, ?_, by simpa using last⟩
  rw [← List.reverse_reverse l, split]
  simp

theorem exists_divided (name : String) : ∃ stem extension, Divided name stem extension := by
  by_cases dotted : '.' ∈ name.toList.tail
  · obtain ⟨before, after, split, last⟩ := eq_append_cons_of_mem_last dotted
    have filled : name.toList ≠ [] := fun empty => by simp [empty] at dotted
    obtain ⟨c, rest, first⟩ := List.exists_cons_of_ne_nil filled
    rw [first, List.tail_cons] at split
    obtain rfl : name = String.ofList (c :: before) ++ "." ++ String.ofList after := by
      apply String.toList_inj.1
      rw [first, split, toList_parted, String.toList_ofList, String.toList_ofList, List.cons_append]
    exact ⟨_, _, .parted _ _ (by simp) (by simpa using last)⟩
  · exact ⟨name, none, .whole name dotted⟩

theorem splitExtension_of_undotted {name : List Char} (undotted : '.' ∉ name.tail) :
    splitExtension name = (name, none) := by
  obtain plain | ⟨stem, extension, -, rfl, filled, -⟩ := splitExtension_cases name
  · exact plain
  · rw [List.tail_append_of_ne_nil filled] at undotted
    exact absurd (by simp) undotted

theorem splitExtension_append {stem extension : List Char} (filled : stem ≠ [])
    (last : '.' ∉ extension) (notUp : stem ++ '.' :: extension ≠ ['.', '.']) :
    splitExtension (stem ++ '.' :: extension) = (stem, some extension) := by
  have after : ∀ c ∈ extension.reverse, (c != '.') = true := by
    intro c member
    rw [bne_iff_ne]
    rintro rfl
    exact last (List.mem_reverse.1 member)
  have divided : (stem ++ '.' :: extension).reverse.span (· != '.') =
      (extension.reverse, '.' :: stem.reverse) := by
    rw [List.reverse_append, List.reverse_cons, List.append_assoc, List.span_eq_takeWhile_dropWhile,
      List.takeWhile_append_of_pos after, List.dropWhile_append_of_pos after]
    simp
  have both : ¬(stem.reverse = [] ∨ stem ++ '.' :: extension = ['.', '.']) := by
    rintro (empty | up)
    · exact filled (List.reverse_eq_nil_iff.1 empty)
    · exact notUp up
  simp only [splitExtension, divided, if_neg both, List.reverse_reverse]

/-- The stem of a file name, and whether it has an extension, are what it is divided into. -/
theorem Divided.eq {name stem : String} {extension : Option String}
    (divided : Divided name stem extension) (notUp : name ≠ "..") :
    Path.stem name = stem ∧ hasExtension name = extension.isSome := by
  cases divided with
  | whole _ undotted =>
    rw [Path.stem, hasExtension, splitExtension_of_undotted undotted, String.ofList_toList]
    exact ⟨rfl, rfl⟩
  | parted _ extension filled last =>
    have filled : stem.toList ≠ [] := by simpa using filled
    have notUp : stem.toList ++ '.' :: extension.toList ≠ ['.', '.'] := by
      intro up
      rw [← toList_parted] at up
      exact notUp (String.toList_inj.1 up)
    rw [Path.stem, hasExtension, toList_parted, splitExtension_append filled last notUp,
      String.ofList_toList]
    exact ⟨rfl, rfl⟩

/-- An ending is added to a name that has no dot behind its first character. -/
theorem withExtension_of_undotted {name : String} (notHere : name ≠ ".")
    (undotted : '.' ∉ name.toList.tail) (ending : String) :
    withExtension name ending = name ++ "." ++ ending := by
  have notUp : name ≠ ".." := by
    rintro rfl
    exact undotted (by decide)
  obtain ⟨stem, -⟩ := (Divided.whole name undotted).eq notUp
  have regular : ¬(name = "." ∨ name = "..") := by
    rintro (here | up)
    · exact notHere here
    · exact notUp up
  rw [withExtension, if_neg regular, stem]

/-- An ending takes the place of an extension. -/
theorem withExtension_of_parted {name front inner : String}
    (divided : Divided name front (some inner)) (notUp : name ≠ "..") (ending : String) :
    withExtension name ending = front ++ "." ++ ending := by
  obtain ⟨stem, -⟩ := divided.eq notUp
  have regular : ¬(name = "." ∨ name = "..") := by
    rintro (rfl | up)
    · generalize here : "." = name at divided
      cases divided with
      | parted _ _ filled =>
        have dotted := dot_mem_tail_parted filled inner
        rw [← here] at dotted
        exact absurd dotted (by decide)
    · exact notUp up
  rw [withExtension, if_neg regular, stem]

/-- A name that has a dot behind its first character, or is `.`, is a special name or has an
extension. -/
theorem dots_or_parted {name : String} (dotted : name = "." ∨ '.' ∈ name.toList.tail) :
    (name = "." ∨ name = "..") ∨ name ≠ ".." ∧ ∃ front inner, Divided name front (some inner) := by
  by_cases dots : name = "." ∨ name = ".."
  · exact .inl dots
  · rw [not_or] at dots
    refine .inr ⟨dots.2, ?_⟩
    obtain ⟨front, inner, divided⟩ := exists_divided name
    cases divided with
    | whole _ undotted => exact absurd (dotted.resolve_left dots.1) undotted
    | parted _ inner filled last => exact ⟨front, inner, .parted front inner filled last⟩

end Path

/-- The name that the stem and the extension of an input give its image: the stem with an ending,
but in binary the stem alone if the input has an extension. -/
def imageName : ImageFormat → String → Option String → String
  | .hex, stem, _ => stem ++ ".hex"
  | .bin, stem, none => stem ++ ".bin"
  | .bin, stem, some _ => stem

/-- The choice of a name for the image of an input in the directory `parent`: the name itself, but
not that of an input in the working directory. -/
def choice (parent : List Component) (name image : String) : Except Failure String :=
  if (parent = [] ∨ parent = [.here]) ∧ image = name then .error (.wouldOverwrite image)
  else .ok image

theorem choice_of_ne {name image : String} (differ : image ≠ name) (parent : List Component) :
    choice parent name image = .ok image :=
  if_neg fun refused => differ refused.2

theorem eq_of_choice_eq_ok {parent : List Component} {name image path : String}
    (chosen : choice parent name image = .ok path) : image = path := by
  unfold choice at chosen
  split at chosen
  case isTrue => cases chosen
  case isFalse => exact Except.ok.inj chosen

theorem Options.imagePath_eq_choice {o : Options} {parent : List Component} {name : String}
    (derived : o.output = none) (named : Path.components o.input = parent ++ [.name name]) :
    o.imagePath = choice parent name (derivedName o.format name) := by
  have last := Path.fileName?_of_components named
  have isName := Path.isName_of_fileName? last
  have here : Path.inWorkingDirectory o.input = true ↔ parent = [] ∨ parent = [.here] := by
    rw [Path.inWorkingDirectory, named, List.getLast?_concat, List.dropLast_concat]
    exact decide_eq_true_iff
  rw [imagePath_derived derived last]
  exact if_congr
    (and_congr here (isName.fileName?_eq_iff (slash_notMem_derivedName o.format isName.slashless)))
    rfl rfl

section Divided

variable {name stem : String} {extension : Option String} (isName : Path.IsName name)
  (divided : Path.Divided name stem extension)
include isName divided

theorem derivedName_hex : derivedName .hex name = Path.withExtension stem "hex" := by
  rw [derivedName, (divided.eq isName.notUp).1]

/-- A binary image has the name that the stem and the extension give it. -/
theorem derivedName_bin : derivedName .bin name = imageName .bin stem extension := by
  obtain ⟨stemmed, extended⟩ := divided.eq isName.notUp
  simp only [derivedName, stemmed, extended]
  cases divided with
  | whole _ undotted =>
    exact (Path.withExtension_of_undotted isName.notHere undotted "bin").trans
      (String.append_assoc ..)
  | parted => rfl

/-- So has a hexadecimal one, if the stem has no dot behind its first character. -/
theorem derivedName_hex_of_undotted (notHere : stem ≠ ".") (undotted : '.' ∉ stem.toList.tail) :
    derivedName .hex name = imageName .hex stem extension := by
  rw [derivedName_hex isName divided, Path.withExtension_of_undotted notHere undotted,
    String.append_assoc]
  rfl

/-- A stem that takes no ending is the whole name of the image, and it is not the input's. -/
theorem derivedName_hex_of_dots (dots : stem = "." ∨ stem = "..") :
    derivedName .hex name = stem ∧ stem ≠ name := by
  constructor
  · rw [derivedName_hex isName divided, Path.withExtension, if_pos dots]
  · rintro rfl
    rcases dots with here | up
    · exact isName.notHere here
    · exact isName.notUp up

/-- A stem with an extension loses it to the ending, and the image has another name than the input. -/
theorem derivedName_hex_of_parted (notUp : stem ≠ "..") {front inner : String}
    (again : Path.Divided stem front (some inner)) :
    derivedName .hex name = front ++ ".hex" ∧ front ++ ".hex" ≠ name := by
  constructor
  · rw [derivedName_hex isName divided, Path.withExtension_of_parted again notUp,
      String.append_assoc]
    rfl
  · intro same
    cases again with
    | parted _ _ filled =>
      cases divided with
      | whole _ undotted => exact undotted (Path.dot_mem_tail_parted filled inner)
      | parted _ extension =>
        -- Two dots follow `front` in the input's name, and one in that of the image.
        have texts := congrArg String.toList same
        rw [Path.toList_parted, Path.toList_parted, String.toList_append,
          List.append_assoc] at texts
        have endings := List.append_cancel_left texts
        have dot : '.' ∈ ['h', 'e', 'x'] := by
          have tails : ['h', 'e', 'x'] = inner.toList ++ '.' :: extension.toList :=
            List.tail_eq_of_cons_eq endings
          rw [tails]
          simp
        exact absurd dot (by decide)

end Divided

/-- Without a chosen path, an image has the name that the stem and the extension of its input give
it, and the run stops if that is the name of an input in the working directory. There is one
exception: a hexadecimal image of an input whose stem is `.` or has a dot behind its first
character. Then `.` and `..` are left as they are, any other stem loses its own extension, and the
run never stops for the name. -/
theorem derived_name_adds_ending_to_undotted_stem (o : Options) (parent : List Component)
    (name : String) (derived : o.output = none)
    (named : Path.components o.input = parent ++ [.name name]) :
    (∃ stem extension, Path.Divided name stem extension) ∧
    ∀ stem extension, Path.Divided name stem extension →
      (o.imagePath = choice parent name (imageName o.format stem extension) ↔
        ¬(o.format = .hex ∧ (stem = "." ∨ '.' ∈ stem.toList.tail))) ∧
      (o.format = .hex → stem = "." ∨ stem = ".." → o.imagePath = .ok stem) ∧
      ∀ front inner, o.format = .hex → stem ≠ ".." → Path.Divided stem front (some inner) →
        o.imagePath = .ok (front ++ ".hex") := by
  refine ⟨Path.exists_divided name, fun stem extension divided => ?_⟩
  have isName := Path.isName_of_fileName? (Path.fileName?_of_components named)
  have path := Options.imagePath_eq_choice derived named
  have ofDots (hex : o.format = .hex) (dots : stem = "." ∨ stem = "..") :
      o.imagePath = .ok stem := by
    obtain ⟨image, differ⟩ := derivedName_hex_of_dots isName divided dots
    rw [path, hex, image, choice_of_ne differ]
  have ofParted (front inner : String) (hex : o.format = .hex) (notUp : stem ≠ "..")
      (again : Path.Divided stem front (some inner)) : o.imagePath = .ok (front ++ ".hex") := by
    obtain ⟨image, differ⟩ := derivedName_hex_of_parted isName divided notUp again
    rw [path, hex, image, choice_of_ne differ]
  refine ⟨⟨?_, ?_⟩, ofDots, ofParted⟩
  · rintro rule ⟨hex, dotted⟩
    rw [hex] at rule
    rcases Path.dots_or_parted dotted with dots | ⟨notUp, front, inner, again⟩
    · have same := eq_of_choice_eq_ok (rule.symm.trans (ofDots hex dots))
      simpa [imageName] using congrArg String.length same
    · have same := eq_of_choice_eq_ok (rule.symm.trans (ofParted front inner hex notUp again))
      cases again with
      | parted =>
        have lengths := congrArg String.length same
        have dot : ".".length = 1 := by decide
        simp only [imageName, String.length_append] at lengths
        omega
  · intro regular
    rw [path]
    cases format : o.format with
    | bin => rw [derivedName_bin isName divided]
    | hex =>
      have undotted : ¬(stem = "." ∨ '.' ∈ stem.toList.tail) := fun dotted =>
        regular ⟨format, dotted⟩
      rw [not_or] at undotted
      rw [derivedName_hex_of_undotted isName divided undotted.1 undotted.2]

/-- A hidden file in the working directory by its path: its dot belongs to the stem, and the ending
is added to that. -/
theorem derived_name_adds_ending_to_undotted_stem_hidden :
    let o : Options := ⟨"./.boot.s", none, .hex, Source.defaultMarkers, false, false, 0⟩
    Path.components o.input = [.here] ++ [.name ".boot.s"] ∧
    Path.Divided ".boot.s" ".boot" (some "s") ∧ o.imagePath = .ok ".boot.hex" := by
  intro o
  have named : Path.components o.input = [.here] ++ [.name ".boot.s"] := by decide
  have divided : Path.Divided ".boot.s" ".boot" (some "s") :=
    .parted ".boot" "s" (by decide) (by decide)
  obtain ⟨-, every⟩ := derived_name_adds_ending_to_undotted_stem o [.here] ".boot.s" rfl named
  exact ⟨named, divided, (every ".boot" (some "s") divided).1.2 (by decide)⟩

/-- The stem of an input that loses its own extension: two versions of a program have images of one
name. -/
theorem dotted_stem_loses_extension :
    let options (input : String) : Options :=
      ⟨input, none, .hex, Source.defaultMarkers, false, false, 0⟩
    Path.components "prog.v2.s" = [] ++ [.name "prog.v2.s"] ∧
    Path.Divided "prog.v2.s" "prog.v2" (some "s") ∧
    choice [] "prog.v2.s" (imageName .hex "prog.v2" (some "s")) = .ok "prog.v2.hex" ∧
    (options "prog.v2.s").imagePath = .ok "prog.hex" ∧
    (options "prog.v1.s").imagePath = .ok "prog.hex" := by
  exact ⟨by decide, .parted "prog.v2" "s" (by decide) (by decide), by decide, by decide, by decide⟩

end Halfword.Command
