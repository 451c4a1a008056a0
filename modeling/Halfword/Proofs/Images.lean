import Mathlib.Algebra.Group.Nat.Defs
import Halfword.Image
import Halfword.Proofs.Numerals
import Halfword.Proofs.LineEndings

/-!
# Reading an image

Both formats of an image can be read without knowing how it was written: a binary image as pairs of
bytes, a hexadecimal one as a text with a number on each line. Reading gives the words back
(`ImageFormat.read?_bytes`). For the binary image this is so because two bytes make up a word; for
the hexadecimal one because no digit ends a line, so the lines of the text are those of the words
(`ImageFormat.lines_hex`), and four digits reach up to the largest word.
-/

namespace Halfword

namespace ImageFormat

/-- The words of consecutive pairs of bytes, the high byte first. -/
def readPairs? : List UInt8 → Option (List Word)
  | [] => some []
  | [_] => none
  | high :: low :: rest =>
    (readPairs? rest).map fun words => (high.toBitVec ++ low.toBitVec) :: words

/-- The digits of a hexadecimal image. -/
def digits : List Char := "0123456789ABCDEF".toList

/-- The word that a line denotes: four digits, read as a number of base sixteen. -/
def readLine? (line : List Char) : Option Word :=
  if line.length = 4 ∧ line.all digits.contains then
    (Numeral.value? 16 line).map fun n => BitVec.ofNat 16 n
  else none

/-- The characters of a text of single bytes. -/
def characters (bytes : List UInt8) : List Char := bytes.map fun b => Char.ofNat b.toNat

/-- The words of an image. -/
def read? : ImageFormat → List UInt8 → Option (List Word)
  | bin, bytes => readPairs? bytes
  | hex, bytes => (Text.lines (characters bytes)).mapM readLine?

/-- The two bytes of a word make up the word. -/
theorem high_append_low (w : Word) :
    (UInt8.ofNat (w.toNat / 256)).toBitVec ++ (UInt8.ofNat (w.toNat % 256)).toBitVec = w := by
  have bound := w.isLt
  apply BitVec.eq_of_toNat_eq
  rw [BitVec.toNat_append, ← Nat.shiftLeft_add_eq_or_of_lt (BitVec.isLt _), Nat.shiftLeft_eq]
  simp only [UInt8.toNat_toBitVec, UInt8.toNat_ofNat']
  omega

theorem readPairs?_bytes (words : List Word) : readPairs? (bin.bytes words) = some words := by
  induction words with
  | nil => rfl
  | cons w words ih =>
    have first : bin.bytes (w :: words) =
        UInt8.ofNat (w.toNat / 256) :: UInt8.ofNat (w.toNat % 256) :: bin.bytes words := rfl
    rw [first, readPairs?, ih, Option.map_some, high_append_low]

theorem mem_digits_of_mem_fixedDigits {width n : Nat} {c : Char}
    (member : c ∈ Numeral.fixedDigits 16 width n) : c ∈ digits := by
  have table : ∀ d < 16, Numeral.digit d ∈ digits := by decide
  obtain ⟨d, small, rfl⟩ := Numeral.exists_digit_of_mem_fixedDigits (by decide) member
  exact table d small

/-- The digits of a word are a line of the image, and the line denotes the word. -/
theorem readLine?_fixedDigits (w : Word) :
    readLine? (Numeral.fixedDigits 16 4 w.toNat) = some w := by
  have number : Numeral.value? 16 (Numeral.fixedDigits 16 4 w.toNat) = some w.toNat := by
    have written : Numeral.Digits 16 (Numeral.fixedDigits 16 4 w.toNat) (w.toNat % 16 ^ 4) :=
      Numeral.digits_fixedDigits (by decide) (by decide) 3 w.toNat
    have small : w.toNat < 16 ^ 4 := w.isLt
    rw [Nat.mod_eq_of_lt small] at written
    exact (Numeral.value?_eq_some_iff (by decide)).2 written
  have all : (Numeral.fixedDigits 16 4 w.toNat).all digits.contains = true := by
    rw [List.all_eq_true]
    intro c member
    exact List.contains_iff_mem.2 (mem_digits_of_mem_fixedDigits member)
  rw [readLine?, if_pos ⟨Numeral.length_fixedDigits .., all⟩, number, Option.map_some,
    BitVec.ofNat_toNat, BitVec.setWidth_eq]

/-- The characters of a word in a hexadecimal image are its digits and a line feed. -/
theorem characters_wordBytes (w : Word) :
    characters (hex.wordBytes w) = Numeral.fixedDigits 16 4 w.toNat ++ ['\n'] := by
  have table : (digits ++ ['\n']).all fun c => Char.ofNat (UInt8.ofNat c.toNat).toNat == c := by
    decide
  rw [characters, wordBytes, List.map_map]
  refine (List.map_congr_left fun c member => ?_).trans (List.map_id _)
  apply eq_of_beq
  apply List.all_eq_true.1 table c
  rcases List.mem_append.1 member with digit | feed
  · exact List.mem_append_left _ (mem_digits_of_mem_fixedDigits digit)
  · exact List.mem_append_right _ feed

/-- The lines of a hexadecimal image are the digits of its words. -/
theorem lines_hex (words : List Word) :
    Text.lines (characters (hex.bytes words)) =
      words.map fun w => Numeral.fixedDigits 16 4 w.toNat := by
  induction words with
  | nil => exact Text.lines_nil
  | cons w words ih =>
    have first : characters (hex.bytes (w :: words)) =
        Numeral.fixedDigits 16 4 w.toNat ++ '\n' :: characters (hex.bytes words) := by
      have split : hex.bytes (w :: words) = hex.wordBytes w ++ hex.bytes words := List.flatMap_cons
      rw [split, characters, List.map_append, ← characters, characters_wordBytes, List.append_assoc]
      rfl
    have unbroken : '\n' ∉ Numeral.fixedDigits 16 4 w.toNat := fun feed =>
      absurd (mem_digits_of_mem_fixedDigits feed) (by decide)
    have closed : (Numeral.fixedDigits 16 4 w.toNat).getLast? ≠ some '\r' := fun last =>
      absurd (mem_digits_of_mem_fixedDigits (List.mem_of_getLast? last)) (by decide)
    rw [first, Text.lines_append_newline unbroken, Text.dropReturn_of_closed closed, ih,
      List.map_cons]

theorem mapM_readLine? (words : List Word) :
    (words.map fun w => Numeral.fixedDigits 16 4 w.toNat).mapM readLine? = some words := by
  induction words with
  | nil => rfl
  | cons w words ih =>
    rw [List.map_cons, List.mapM_cons, readLine?_fixedDigits, ih]
    rfl

/-- Reading an image gives back its words. -/
theorem read?_bytes (format : ImageFormat) (words : List Word) :
    format.read? (format.bytes words) = some words := by
  cases format with
  | bin => exact readPairs?_bytes words
  | hex => rw [read?, lines_hex, mapM_readLine?]

end ImageFormat

open ImageFormat in
/-- Both formats of an image are lossless. A binary image has two bytes for each word and is read
back as pairs of bytes. A hexadecimal image has five bytes for each word; its lines are as many as
the words, each of them four digits, and it is read back as their numbers. So the words of an image
are determined by its bytes in either format. -/
theorem images_are_lossless (words : List Word) :
    (bin.bytes words).length = 2 * words.length ∧
    bin.read? (bin.bytes words) = some words ∧
    (hex.bytes words).length = 5 * words.length ∧
    (Text.lines (characters (hex.bytes words))).length = words.length ∧
    (∀ line ∈ Text.lines (characters (hex.bytes words)),
      line.length = 4 ∧ ∀ c ∈ line, c ∈ digits) ∧
    hex.read? (hex.bytes words) = some words ∧
    ∀ (format : ImageFormat) (others : List Word),
      format.bytes others = format.bytes words → others = words := by
  refine ⟨?_, bin.read?_bytes words, ?_, ?_, ?_, hex.read?_bytes words, ?_⟩
  · rw [length_bytes, Nat.mul_comm]
    rfl
  · rw [length_bytes, Nat.mul_comm]
    rfl
  · rw [lines_hex, List.length_map]
  · rw [lines_hex]
    intro line member
    obtain ⟨w, -, rfl⟩ := List.mem_map.1 member
    exact ⟨Numeral.length_fixedDigits .., fun _ => mem_digits_of_mem_fixedDigits⟩
  · intro format others same
    have back := format.read?_bytes others
    rw [same, format.read?_bytes words] at back
    exact (Option.some.inj back).symm

/-- Small words keep their zeros in front, so that the words behind them are found. -/
example :
    ImageFormat.bin.bytes [0x0001#16, 0xABCD#16] = [0x00, 0x01, 0xAB, 0xCD] ∧
    ImageFormat.hex.bytes [0x0001#16, 0xABCD#16] = "0001\nABCD\n".toUTF8.toList := by
  decide +kernel

end Halfword
