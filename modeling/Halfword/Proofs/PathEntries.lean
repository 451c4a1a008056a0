import Mathlib.Data.List.TakeDrop
import Halfword.Command.Session
import Halfword.Proofs.Layout
import Halfword.Proofs.FileCreation

/-!
# What a path says and where it leads

The text of a path gives components and the tree gives directories, and the two readings of a path
have to agree where the choice of an output path relies on them. The components of a path are those
of the parts that the tree is walked by, after what tells a path that starts at the root or with `.`
(`Path.components_eq`). So the name in the directory entry that a path leads to is the name at its
end (`Volume.fileName?_of_place`), and a path with no other component leads into the working
directory (`Volume.location_of_inWorkingDirectory`). The converse fails: `a/../b` leads there too.
For an input in the working directory by the text of its path, comparing names therefore tells
whether a derived name leads to the input (`Volume.sameEntry_derivedName_iff`).
-/

namespace Halfword.Command

namespace Path

/-- What a path starts with besides its parts, told from its text between slashes. -/
def anchor : List (List Char) → List Component
  | [] :: _ :: _ => [.root]
  | ['.'] :: _ => [.here]
  | _ => []

/-- The component of a part of a path. -/
def ofPart? (part : String) : Option Component := component? part.toList

theorem filterMap_component? (pieces : List (List Char)) :
    pieces.filterMap component? =
      ((pieces.filter fun part => !part.isEmpty).map String.ofList).filterMap ofPart? := by
  rw [List.filterMap_map, List.filterMap_filter]
  congr 1
  funext piece
  cases piece <;> simp [component?, ofPart?]

theorem components_eq (path : String) :
    components path =
      anchor (path.toList.splitOn '/') ++ (Volume.parts path).filterMap ofPart? := by
  rw [Volume.parts, ← filterMap_component?]
  unfold components
  cases path.toList.splitOn '/' with
  | nil => rfl
  | cons first rest =>
    -- Only at the front do an empty piece and `.` say something.
    by_cases empty : first = []
    · cases rest <;> simp [empty, anchor, component?]
    · by_cases dot : first = ['.']
      · simp [dot, anchor, component?]
      · have plain : anchor (first :: rest) = [] := by
          unfold anchor
          split <;> simp_all
        rw [plain]
        cases component : component? first <;> simp [empty, dot, component]

/-- A path that begins with a slash starts at the root. -/
theorem anchor_of_absolute {path : String} (slash : path.toList.head? = some '/') :
    anchor (path.toList.splitOn '/') = [.root] := by
  obtain ⟨rest, split⟩ := List.head?_eq_some_iff.1 slash
  have pieces : ('/' :: rest).splitOn '/' = [] :: rest.splitOn '/' :=
    List.splitOn_append_cons_self [] rest
  rw [split, pieces]
  cases tail : rest.splitOn '/' with
  | nil => exact absurd tail (List.splitOn_ne_nil '/' rest)
  | cons => rfl

theorem ofPart?_eq_name {part : String} (filled : part ≠ "") (notHere : part ≠ ".")
    (notUp : part ≠ "..") : ofPart? part = some (.name part) := by
  have silent : ¬(part.toList = [] ∨ part.toList = ['.']) := by
    rintro (same | same)
    · exact filled (String.toList_inj.1 same)
    · exact notHere (String.toList_inj.1 same)
  have inner : part.toList ≠ ['.', '.'] := fun same => notUp (String.toList_inj.1 same)
  rw [ofPart?, component?, if_neg silent, if_neg inner, String.ofList_toList]

/-- Only `.` says nothing among the parts of a path. -/
theorem eq_dot_of_ofPart?_eq_none {part : String} (filled : part ≠ "")
    (silent : ofPart? part = none) : part = "." := by
  by_contra notHere
  by_cases up : part = ".."
  · subst up
    exact absurd silent (by decide)
  · rw [ofPart?_eq_name filled notHere up] at silent
    cases silent

theorem eq_of_ofPart?_eq_name {part name : String} (named : ofPart? part = some (.name name)) :
    part = name := by
  unfold ofPart? component? at named
  split at named
  case isTrue => cases named
  case isFalse =>
    split at named
    case isTrue => cases named
    case isFalse =>
      cases named
      exact String.ofList_toList.symm

theorem ofPart?_ne_here (part : String) : ofPart? part ≠ some .here := by
  unfold ofPart? component?
  split
  · exact nofun
  · split <;> simp

/-- A name is a stem alone, or a stem and an extension with a dot between them. -/
theorem splitExtension_cases (name : List Char) :
    splitExtension name = (name, none) ∨ ∃ stem extension,
      splitExtension name = (stem, some extension) ∧ name = stem ++ '.' :: extension ∧
      stem ≠ [] ∧ '.' ∉ extension := by
  unfold splitExtension
  split
  case h_1 => exact .inl rfl
  case h_2 after dot before divided =>
    split
    case isTrue => exact .inl rfl
    case isFalse both =>
      rw [List.span_eq_takeWhile_dropWhile] at divided
      obtain ⟨taken, rest⟩ := Prod.mk.inj divided
      have stops := List.head?_dropWhile_not (· != '.') name.reverse
      rw [rest, List.head?_cons] at stops
      obtain rfl : dot = '.' := by simpa using stops
      have whole : after ++ '.' :: before = name.reverse := by
        rw [← taken, ← rest]
        exact List.takeWhile_append_dropWhile
      refine .inr ⟨before.reverse, after.reverse, rfl, ?_, ?_, ?_⟩
      · rw [← List.reverse_reverse name, ← whole]
        simp
      · simpa using fun empty => both (.inl empty)
      · intro inside
        rw [List.mem_reverse, ← taken] at inside
        simpa using List.mem_takeWhile_imp inside

/-- The characters of a stem are characters of the name. -/
theorem mem_of_mem_stem {name : String} {c : Char} (member : c ∈ (stem name).toList) :
    c ∈ name.toList := by
  rw [stem, String.toList_ofList] at member
  obtain plain | ⟨stem, extension, split, whole, -⟩ := splitExtension_cases name.toList
  · rwa [plain] at member
  · rw [split] at member
    rw [whole]
    exact List.mem_append_left _ member

theorem slash_notMem_withExtension {name extension : String} (slashless : '/' ∉ name.toList)
    (ending : '/' ∉ extension.toList) : '/' ∉ (withExtension name extension).toList := by
  unfold withExtension
  split
  case isTrue => exact slashless
  case isFalse =>
    simp only [String.toList_append, List.mem_append, not_or]
    exact ⟨⟨fun slash => slashless (mem_of_mem_stem slash), by decide⟩, ending⟩

theorem fileName?_eq_some_iff {path name : String} :
    fileName? path = some name ↔ (components path).getLast? = some (.name name) := by
  unfold fileName?
  split
  case h_1 text last => simp [last]
  case h_2 other =>
    simp only [reduceCtorEq, false_iff]
    exact other name

end Path

/-- A derived name stays in the directory: it holds a slash only if the name it is derived from
does. -/
theorem slash_notMem_derivedName (format : ImageFormat) {name : String}
    (slashless : '/' ∉ name.toList) : '/' ∉ (derivedName format name).toList := by
  have stem : '/' ∉ (Path.stem name).toList := fun slash => slashless (Path.mem_of_mem_stem slash)
  cases format with
  | hex => exact Path.slash_notMem_withExtension stem (by decide)
  | bin =>
    simp only [derivedName]
    split
    · exact stem
    · exact Path.slash_notMem_withExtension stem (by decide)

namespace Volume

deriving instance DecidableEq for Place

/-- Two paths lead to the same entry of the same directory. -/
def SameEntry (v : Volume) (path other : String) : Prop :=
  ∃ location name, v.place path = .ok (.entry location name) ∧
    v.place other = .ok (.entry location name)

/-- A part of a path is a nonempty text between slashes. -/
theorem filled_of_mem_parts {path part : String} (member : part ∈ parts path) :
    part ≠ "" ∧ '/' ∉ part.toList := by
  obtain ⟨piece, kept, rfl⟩ := List.mem_map.1 member
  obtain ⟨between, filled⟩ := List.mem_filter.1 kept
  rw [List.splitOn_eq_splitOnP] at between
  constructor
  · intro empty
    rw [String.ofList_eq_empty_iff.1 empty] at filled
    cases filled
  · rw [String.toList_ofList]
    intro slash
    exact absurd (not_of_mem_splitOnP between '/' slash) (by decide)

/-- A path without slashes is its only part. -/
theorem parts_of_slashless {path : String} (filled : path ≠ "") (slashless : '/' ∉ path.toList) :
    parts path = [path] := by
  have kept : path.toList.isEmpty = false := by simpa using filled
  rw [parts, List.splitOn_eq_singleton slashless]
  simp [kept]

/-- The name at the end of a path is one of its parts, and that part is a name. -/
theorem part_of_fileName? {path name : String} (named : Path.fileName? path = some name) :
    name ∈ parts path ∧ Path.ofPart? name = some (.name name) := by
  have last := List.mem_of_getLast? (Path.fileName?_eq_some_iff.1 named)
  rw [Path.components_eq] at last
  cases List.mem_append.1 last with
  | inl start =>
    unfold Path.anchor at start
    split at start <;> simp at start
  | inr member =>
    obtain ⟨part, present, component⟩ := List.mem_filterMap.1 member
    obtain rfl := Path.eq_of_ofPart?_eq_name component
    exact ⟨present, component⟩

theorem mem_parts_of_fileName? {path name : String} (named : Path.fileName? path = some name) :
    name ∈ parts path := (part_of_fileName? named).1

theorem eq_of_fileName?_of_slashless {path name : String} (slashless : '/' ∉ path.toList)
    (named : Path.fileName? path = some name) : path = name := by
  have filled : path ≠ "" := by
    rintro rfl
    have unnamed : Path.fileName? "" = none := by decide
    cases unnamed.symm.trans named
  have member := mem_parts_of_fileName? named
  rw [parts_of_slashless filled slashless] at member
  exact (List.mem_singleton.1 member).symm

/-- Where a path leads when it leads to an entry: there is a last part that is a name, and the parts
before it lead to the directory. -/
theorem place_eq_entry {v : Volume} {path name : String} {location : Location}
    (placed : v.place path = .ok (.entry location name)) :
    ∃ front, parts path = front ++ [name] ∧ name ≠ "." ∧ name ≠ ".." ∧
      v.enterAll (v.origin path) front = .ok location := by
  unfold place at placed
  split at placed
  case isTrue => cases placed
  case isFalse =>
    split at placed
    case isTrue => cases placed
    case isFalse =>
      split at placed
      case h_1 => cases placed
      case h_2 last ended =>
        obtain ⟨front, split⟩ := List.getLast?_eq_some_iff.1 ended
        obtain ⟨entered, walked, placed⟩ := bind_eq_ok_iff.1 placed
        split at placed
        case isTrue => cases placed
        case isFalse plain =>
          cases placed
          rw [split, List.dropLast_concat] at walked
          exact ⟨front, split, fun same => plain (.inl same), fun same => plain (.inr same), walked⟩

/-- A path without slashes names an entry of the working directory. -/
theorem place_of_slashless (v : Volume) {path : String} (named : Path.fileName? path = some path)
    (slashless : '/' ∉ path.toList) (short : path.utf8ByteSize ≤ pathMax) :
    v.place path = .ok (.entry v.workingDirectory path) := by
  have filled : path ≠ "" := (filled_of_mem_parts (mem_parts_of_fileName? named)).1
  have plain : ¬(path = "." ∨ path = "..") := by
    rintro (rfl | rfl) <;> exact absurd named (by decide)
  have relative : v.origin path = v.workingDirectory := by
    apply if_neg
    intro slash
    exact slashless (List.mem_of_mem_head? slash)
  rw [place, if_neg filled, if_neg (Nat.not_lt.2 short), parts_of_slashless filled slashless]
  apply bind_eq_ok_iff.2
  exact ⟨v.workingDirectory, congrArg Except.ok relative, if_neg plain⟩

theorem enterAll_of_dots (v : Volume) (location : Location) {front : List String}
    (dots : ∀ part ∈ front, part = ".") : v.enterAll location front = .ok location := by
  induction front with
  | nil => rfl
  | cons part front ih =>
    have dot : v.enter location part = .ok location := if_pos (dots part List.mem_cons_self)
    simp only [enterAll, List.foldlM_cons]
    apply bind_eq_ok_iff.2
    exact ⟨location, dot, ih fun p member => dots p (List.mem_cons_of_mem part member)⟩

section Entry

variable {v : Volume} {path name : String} {location : Location}
  (placed : v.place path = .ok (.entry location name))
include placed

/-- The components of a path that leads to an entry end in its name. -/
theorem components_of_place :
    ∃ front, v.enterAll (v.origin path) front = .ok location ∧
      (∀ part ∈ front, part ≠ "") ∧
      Path.components path =
        (Path.anchor (path.toList.splitOn '/') ++ front.filterMap Path.ofPart?) ++
          [.name name] := by
  obtain ⟨front, split, notHere, notUp, walked⟩ := place_eq_entry placed
  have filled (part : String) (member : part ∈ front ++ [name]) : part ≠ "" :=
    (filled_of_mem_parts (split ▸ member)).1
  have last := Path.ofPart?_eq_name (filled name (by simp)) notHere notUp
  refine ⟨front, walked, fun part member => filled part (List.mem_append_left _ member), ?_⟩
  rw [Path.components_eq, split, List.filterMap_append, List.append_assoc]
  simp [last]

/-- The name in the entry that a path leads to is the name at the end of the path. -/
theorem fileName?_of_place : Path.fileName? path = some name := by
  obtain ⟨front, -, -, components⟩ := components_of_place placed
  rw [Path.fileName?_eq_some_iff, components, List.getLast?_concat]

/-- A path with nothing but `.` before its name leads into the working directory. -/
theorem location_of_inWorkingDirectory (here : Path.inWorkingDirectory path = true) :
    location = v.workingDirectory := by
  obtain ⟨front, walked, filled, components⟩ := components_of_place placed
  have parent : Path.anchor (path.toList.splitOn '/') ++ front.filterMap Path.ofPart? = [] ∨
      Path.anchor (path.toList.splitOn '/') ++ front.filterMap Path.ofPart? = [.here] := by
    rw [Path.inWorkingDirectory, components, List.getLast?_concat, List.dropLast_concat] at here
    exact of_decide_eq_true here
  have relative : v.origin path = v.workingDirectory := by
    apply if_neg
    intro slash
    rw [Path.anchor_of_absolute slash] at parent
    simp at parent
  -- No part gives the component `.`, so one in the parent is what the path starts with.
  have silent : front.filterMap Path.ofPart? = [] := by
    cases parent with
    | inl none => exact (List.append_eq_nil_iff.1 none).2
    | inr dot =>
      obtain ⟨-, said⟩ | ⟨-, silent⟩ := List.append_eq_singleton_iff.1 dot
      · have member : Component.here ∈ front.filterMap Path.ofPart? := by simp [said]
        obtain ⟨part, -, component⟩ := List.mem_filterMap.1 member
        exact absurd component (Path.ofPart?_ne_here part)
      · exact silent
  have dots (part : String) (member : part ∈ front) : part = "." :=
    Path.eq_dot_of_ofPart?_eq_none (filled part member)
      (List.filterMap_eq_nil_iff.1 silent part member)
  rw [relative, enterAll_of_dots v _ dots] at walked
  exact (Except.ok.inj walked).symm

end Entry

/-- A path that can be read leads to an entry, whose name is not too long. -/
theorem place_of_readText {v : Volume} {path source : String}
    (read : v.readText path = .ok source) :
    ∃ location name, v.place path = .ok (.entry location name) ∧ name.utf8ByteSize ≤ nameMax := by
  obtain ⟨content, read, -⟩ := bind_eq_ok_iff.1 read
  obtain ⟨location, name, placed, looked, -⟩ := read_eq_ok_iff.1 read
  exact ⟨location, name, placed, (find_eq_ok_iff.1 looked).1⟩

/-- For an input in the working directory by the text of its path, the derived name is that of the
input just if it leads to the input. -/
theorem sameEntry_derivedName_iff {v : Volume} {path source name : String} (format : ImageFormat)
    (read : v.readText path = .ok source) (here : Path.inWorkingDirectory path = true)
    (named : Path.fileName? path = some name) :
    v.SameEntry path (derivedName format name) ↔
      Path.fileName? (derivedName format name) = some name := by
  obtain ⟨location, entry, placed, short⟩ := place_of_readText read
  obtain rfl : entry = name := Option.some.inj ((fileName?_of_place placed).symm.trans named)
  have slashless := slash_notMem_derivedName format
    (filled_of_mem_parts (mem_parts_of_fileName? named)).2
  constructor
  · rintro ⟨location', name', leads, leads'⟩
    rw [placed] at leads
    cases leads
    exact fileName?_of_place leads'
  · intro same
    have whole := eq_of_fileName?_of_slashless slashless same
    rw [whole] at same slashless ⊢
    have working := location_of_inWorkingDirectory placed here
    refine ⟨location, entry, placed, ?_⟩
    rw [working]
    exact place_of_slashless v same slashless (short.trans (by decide))

end Volume

end Halfword.Command
