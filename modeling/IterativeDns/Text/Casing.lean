/-!
# Letter case

Two case rules meet in this library.

* Domain names compare without regard to the case of ASCII letters; every other character,
  however it may be cased elsewhere, counts as itself (`lower`, `sameLetters`).
* Mnemonics are read from text in the full upper-case form of each character. Only characters
  whose upper-case form is written in ASCII can become part of a mnemonic, so those are the
  ones `upperForm` maps; among them are a dotless i, a long s and the Latin ligatures.
-/

namespace IterativeDns.Text

/-! ### Names -/

/-- The text with its ASCII letters in lower case. -/
def lower (s : String) : List Char :=
  s.toList.map Char.toLower

/-- Two texts differ at most in the case of ASCII letters. -/
def sameLetters (a b : String) : Bool :=
  lower a == lower b

theorem sameLetters_iff {a b : String} : sameLetters a b = true ↔ lower a = lower b := by
  simp [sameLetters]

/-! ### Mnemonics -/

/-- The upper-case form of a character, as far as it is ASCII text; any other character stays
itself, and then neither it nor its upper-case form is a letter of a mnemonic. -/
def upperForm (c : Char) : List Char :=
  match c with
  | 'ı' => ['I']
  | 'ſ' => ['S']
  | 'ß' => ['S', 'S']
  | 'ﬀ' => ['F', 'F']
  | 'ﬁ' => ['F', 'I']
  | 'ﬂ' => ['F', 'L']
  | 'ﬃ' => ['F', 'F', 'I']
  | 'ﬄ' => ['F', 'F', 'L']
  | 'ﬅ' => ['S', 'T']
  | 'ﬆ' => ['S', 'T']
  | c => [c.toUpper]

/-- The text in upper case, for comparison with mnemonics. -/
def upper (s : String) : List Char :=
  s.toList.flatMap upperForm

end IterativeDns.Text
