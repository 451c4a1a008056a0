import Halfword.Text.Numeral
import Halfword.Isa.Instruction

/-!
# Program images

The words of a program as the bytes of a file: two bytes for each word, the high one first, or a
line of four hexadecimal digits for each word.
-/

namespace Halfword

/-- How words are laid out in a file. -/
inductive ImageFormat where
  | bin | hex
  deriving DecidableEq

namespace ImageFormat

/-- The name of a format on the command line, and the extension of its files. -/
def text : ImageFormat → String
  | bin => "bin"
  | hex => "hex"

/-- The format of a name. -/
def ofText? (name : String) : Option ImageFormat := [bin, hex].find? fun f => f.text == name

/-- The bytes of a word. -/
def wordBytes : ImageFormat → Word → List UInt8
  | bin, w => [UInt8.ofNat (w.toNat / 256), UInt8.ofNat (w.toNat % 256)]
  | hex, w => (Numeral.fixedDigits 16 4 w.toNat ++ ['\n']).map fun c => UInt8.ofNat c.toNat

/-- The bytes of a program. -/
def bytes (format : ImageFormat) (words : List Word) : List UInt8 := words.flatMap format.wordBytes

/-- How many bytes a word takes. -/
def wordSize : ImageFormat → Nat
  | bin => 2
  | hex => 5

theorem length_wordBytes (format : ImageFormat) (w : Word) :
    (format.wordBytes w).length = format.wordSize := by
  cases format <;> simp [wordBytes, wordSize]

theorem length_bytes (format : ImageFormat) (words : List Word) :
    (format.bytes words).length = words.length * format.wordSize := by
  induction words with
  | nil => simp [bytes]
  | cons w words ih =>
    rw [bytes, List.flatMap_cons, List.length_append, length_wordBytes, ← bytes, ih,
      List.length_cons, Nat.add_mul, Nat.one_mul, Nat.add_comm]

end ImageFormat

end Halfword
