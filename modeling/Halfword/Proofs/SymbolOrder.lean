import Mathlib.Data.List.Nodup
import Halfword.Proofs.FirstPass

/-!
# The order of a symbol list

A table yields its labels in an order of its own, and sorting them gives one list whatever that
order is. The comparison alone would not do: it orders labels by address and name and says nothing
of their lines. What makes it decide is that each label stands in the table under its own name
(`SymbolTable.Keyed`), which the first pass keeps (`Scan.keyed_ofLines`). So no two labels have the
same name (`SymbolTable.Keyed.nodup_names`), and two labels that come before each other are the
same.
-/

namespace Halfword

open Source

/-- The code points of a text. -/
def codePoints (s : String) : List Nat := s.toList.map Char.toNat

theorem codePoints_lt {s t : String} (less : s < t) : codePoints s < codePoints t :=
  List.map_lt (fun _ _ less => less) (String.lt_iff.1 less)

namespace Label

/-- Whether a label has its place before another: its address is lower, or the addresses are the
same and its name comes first by code points. -/
def Precedes (a b : Label) : Prop :=
  a.address.toNat < b.address.toNat ∨ a.address = b.address ∧ codePoints a.name < codePoints b.name

theorem le_iff {a b : Label} :
    a.le b = true ↔ a.address.toNat < b.address.toNat ∨
      a.address.toNat = b.address.toNat ∧ a.name ≤ b.name := by
  simp [le, BitVec.lt_def, BitVec.toNat_inj]

theorem le_trans (a b c : Label) (first : a.le b = true) (second : b.le c = true) :
    a.le c = true := by
  rw [le_iff] at first second ⊢
  rcases first with low | ⟨same, names⟩
  · left
    omega
  · rcases second with low | ⟨same', names'⟩
    · left
      omega
    · exact .inr ⟨same.trans same', String.le_trans names names'⟩

theorem le_total (a b : Label) : (a.le b || b.le a) = true := by
  rw [Bool.or_eq_true, le_iff, le_iff]
  rcases Nat.lt_trichotomy a.address.toNat b.address.toNat with low | same | low
  · exact .inl (.inl low)
  · rcases String.le_total a.name b.name with names | names
    · exact .inl (.inr ⟨same, names⟩)
    · exact .inr (.inr ⟨same.symm, names⟩)
  · exact .inr (.inl low)

/-- Labels that come before each other have the same name. -/
theorem name_eq_of_le {a b : Label} (first : a.le b = true) (second : b.le a = true) :
    a.name = b.name := by
  rw [le_iff] at first second
  rcases first with low | ⟨same, names⟩
  · omega
  · rcases second with low | ⟨-, names'⟩
    · omega
    · exact String.le_antisymm names names'

/-- Among labels of different names the order is strict. -/
theorem precedes_of_le {a b : Label} (less : a.le b = true) (differ : a.name ≠ b.name) :
    a.Precedes b := by
  rcases le_iff.1 less with low | ⟨same, names⟩
  · exact .inl low
  · refine .inr ⟨BitVec.eq_of_toNat_eq same, codePoints_lt ?_⟩
    apply Classical.byContradiction
    intro other
    exact differ (String.le_antisymm names (String.not_lt.1 other))

theorem pairwise_mergeSort (labels : List Label) :
    (labels.mergeSort le).Pairwise fun a b => a.le b = true :=
  List.pairwise_mergeSort le_trans le_total labels

end Label

namespace SymbolTable

/-- Each label of the table stands under its own name. -/
def Keyed (table : SymbolTable) : Prop :=
  ∀ name label, table.get? name = some label → label.name = name

variable {table : SymbolTable}

theorem mem_toList_iff {name : String} {label : Label} :
    (name, label) ∈ table.labels.toList ↔ table.get? name = some label :=
  Std.TreeMap.mem_toList_iff_getElem?_eq_some

namespace Keyed

section Entries

variable {entries : List (String × Label)} (keyed : table.Keyed)
  (yielded : entries.Perm table.labels.toList)
include keyed yielded

/-- The labels that a table yields are those that are bound. -/
theorem mem_labels_iff {label : Label} :
    label ∈ entries.map Prod.snd ↔ table.get? label.name = some label := by
  rw [List.mem_map]
  constructor
  · rintro ⟨⟨name, label⟩, member, rfl⟩
    have bound := mem_toList_iff.1 (yielded.mem_iff.1 member)
    rwa [keyed name label bound]
  · intro bound
    exact ⟨(label.name, label), yielded.mem_iff.2 (mem_toList_iff.2 bound), rfl⟩

theorem nodup_names : ((entries.map Prod.snd).map Label.name).Nodup := by
  have names : (entries.map Prod.snd).map Label.name = entries.map Prod.fst := by
    rw [List.map_map]
    refine List.map_congr_left fun p member => ?_
    exact keyed p.1 p.2 (mem_toList_iff.1 (yielded.mem_iff.1 member))
  rw [names, (yielded.map Prod.fst).nodup_iff, Std.TreeMap.map_fst_toList_eq_keys]
  exact Std.TreeMap.nodup_keys

end Entries

/-- The labels of a table have one sorted order, whatever order they are yielded in. -/
theorem mergeSort_eq_sorted {entries : List (String × Label)} (keyed : table.Keyed)
    (yielded : entries.Perm table.labels.toList) :
    (entries.map Prod.snd).mergeSort Label.le = table.sorted := by
  rw [sorted, values_eq_map_snd]
  refine List.Perm.eq_of_pairwise ?_ (Label.pairwise_mergeSort _) (Label.pairwise_mergeSort _) ?_
  · intro a b member member' first second
    have bound := (keyed.mem_labels_iff yielded).1 (List.mem_mergeSort.1 member)
    have bound' := (keyed.mem_labels_iff (.refl _)).1 (List.mem_mergeSort.1 member')
    rw [Label.name_eq_of_le first second] at bound
    exact Option.some.inj (bound.symm.trans bound')
  · exact (List.mergeSort_perm _ _).trans
      ((yielded.map Prod.snd).trans (List.mergeSort_perm _ _).symm)

theorem mem_sorted_iff (keyed : table.Keyed) {label : Label} :
    label ∈ table.sorted ↔ table.get? label.name = some label := by
  rw [← keyed.mergeSort_eq_sorted (.refl _), List.mem_mergeSort, keyed.mem_labels_iff (.refl _)]

theorem nodup_names_sorted (keyed : table.Keyed) : (table.sorted.map Label.name).Nodup := by
  rw [← keyed.mergeSort_eq_sorted (.refl _), ((List.mergeSort_perm _ _).map Label.name).nodup_iff]
  exact keyed.nodup_names (.refl _)

/-- Each label of the sorted list has its place before all that follow it. -/
theorem pairwise_sorted (keyed : table.Keyed) : table.sorted.Pairwise Label.Precedes := by
  have differ : table.sorted.Pairwise fun a b => a.name ≠ b.name :=
    List.pairwise_map.1 keyed.nodup_names_sorted
  exact (Label.pairwise_mergeSort _).imp₂ (fun _ _ => Label.precedes_of_le) differ

end Keyed

end SymbolTable

/-- The first pass binds each label under its own name. -/
theorem Scan.keyed_ofLines (lines : List NumberedLine) : (ofLines lines).table.Keyed := by
  intro name label bound
  obtain ⟨-, first⟩ := get?_ofLines_eq_some_iff.1 bound
  obtain ⟨before, l, after, -, -, -, rfl⟩ := firstLabel?_eq_some_iff.1 first
  rfl

/-- The sorted symbol list is canonical. In whatever order the table of a program yields its
entries, sorting them gives the same list. It holds each bound label exactly once and no other
label, and it is strictly increasing by address and then by the code points of the name. -/
theorem sorted_symbols_are_canonical (lines : List NumberedLine) (entries : List (String × Label))
    (yielded : entries.Perm (Scan.ofLines lines).table.labels.toList) :
    let table := (Scan.ofLines lines).table
    (entries.map Prod.snd).mergeSort Label.le = table.sorted ∧
    (∀ name label, table.get? name = some label → table.sorted.count label = 1) ∧
    (∀ label ∈ table.sorted, table.get? label.name = some label) ∧
    table.sorted.Pairwise Label.Precedes := by
  intro table
  have keyed : table.Keyed := Scan.keyed_ofLines lines
  refine ⟨keyed.mergeSort_eq_sorted yielded, ?_, fun label => keyed.mem_sorted_iff.1,
    keyed.pairwise_sorted⟩
  intro name label bound
  have member : label ∈ table.sorted := keyed.mem_sorted_iff.2 (keyed name label bound ▸ bound)
  exact List.count_eq_one_of_mem keyed.nodup_names_sorted.of_map member

/-- Two labels at one address are listed by name, behind one at a lower address. The entries come in
another order than that of their definitions and than that of their names. -/
theorem sorted_symbols_are_canonical_three :
    let lines : List NumberedLine :=
      [⟨1, .label "b"⟩, ⟨2, .instruction "add" []⟩, ⟨3, .label "z"⟩, ⟨4, .label "a"⟩]
    let table := (Scan.ofLines lines).table
    let sorted : List Label := [⟨"b", 0#16, 1⟩, ⟨"a", 1#16, 4⟩, ⟨"z", 1#16, 3⟩]
    [("b", (⟨"b", 0#16, 1⟩ : Label)), ("a", ⟨"a", 1#16, 4⟩), ("z", ⟨"z", 1#16, 3⟩)].Perm
      table.labels.toList ∧ table.sorted = sorted ∧ sorted.Pairwise Label.Precedes := by
  intro lines table sorted
  have yielded : [("b", (⟨"b", 0#16, 1⟩ : Label)), ("a", ⟨"a", 1#16, 4⟩),
      ("z", ⟨"z", 1#16, 3⟩)].Perm table.labels.toList := by
    decide +kernel
  obtain ⟨same, -, -, increasing⟩ := sorted_symbols_are_canonical lines _ yielded
  have kept : sorted.mergeSort Label.le = sorted :=
    List.mergeSort_of_pairwise (by decide +kernel)
  rw [← same] at increasing
  exact ⟨yielded, same.symm.trans kept, kept ▸ increasing⟩

end Halfword
