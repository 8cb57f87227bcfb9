import IterativeDns.Text.Blank
import IterativeDns.Text.Casing

/-!
# Domain names as text

A name is text with dots between its labels and no dot after the last one; the root is the
empty text. Two names are the same when they differ at most in the case of ASCII letters.

* `normalize` makes a name out of what somebody typed: blanks around it and one closing dot
  do not belong to it. It is applied once; what stands before that dot stays as it is.
* `pieces` and `join` go between a name and its labels.
* `zones` lists the name and its ancestors, the root last; `isWithin` tests for an ancestor
  without listing them.
-/

namespace IterativeDns.Name

open Text

/-! ### Closing dots -/

/-- The text without one dot at its end. -/
def stripDotChars (cs : List Char) : List Char :=
  if cs.getLast? = some '.' then cs.dropLast else cs

def stripDot (s : String) : String :=
  String.ofList (stripDotChars s.toList)

/-- The text without any dots at its end. -/
def stripAllDots (s : String) : String :=
  String.ofList (s.toList.reverse.dropWhile (· == '.')).reverse

/-- The name meant by a text: without the blanks around it, then without one closing dot. -/
def normalize (s : String) : String :=
  stripDot (trim s)

@[simp] theorem toList_stripDot (s : String) : (stripDot s).toList = stripDotChars s.toList := by
  simp [stripDot]

@[simp] theorem toList_normalize (s : String) :
    (normalize s).toList = stripDotChars (trimChars s.toList) := by
  simp [normalize]

/-! ### Labels -/

/-- The parts of a text between its dots; there is always one more than there are dots. -/
def pieces : List Char → List (List Char)
  | [] => [[]]
  | c :: cs =>
    if c = '.' then [] :: pieces cs
    else match pieces cs with
      | [] => [[c]]
      | p :: ps => (c :: p) :: ps

/-- The texts with dots between them. -/
def join : List (List Char) → List Char
  | [] => []
  | [p] => p
  | p :: ps => p ++ '.' :: join ps

/-- The labels of a name: its non-empty parts. -/
def labels (name : String) : List String :=
  ((pieces name.toList).filter fun p => !p.isEmpty).map String.ofList

theorem pieces_ne_nil (cs : List Char) : pieces cs ≠ [] := by
  cases cs with
  | nil => simp [pieces]
  | cons c cs =>
    simp only [pieces]
    split
    · simp
    · split <;> simp

theorem join_pieces (cs : List Char) : join (pieces cs) = cs := by
  induction cs with
  | nil => rfl
  | cons c cs ih =>
    simp only [pieces]
    cases h : pieces cs with
    | nil => exact absurd h (pieces_ne_nil cs)
    | cons p ps =>
      rw [h] at ih
      split
      · next hc => subst hc; rw [← ih]; rfl
      · rw [← ih]
        cases ps <;> rfl

/-! ### Zones -/

/-- The non-empty ends of a text that begin right after a dot, longest first. -/
def endsAfterDot : List Char → List (List Char)
  | [] => []
  | c :: cs => if c = '.' ∧ cs ≠ [] then cs :: endsAfterDot cs else endsAfterDot cs

/-- The name followed by its ancestors, each the part after a dot of the name; the root is
last and listed once. -/
def zoneChars (cs : List Char) : List (List Char) :=
  (if cs = [] then [] else [cs]) ++ endsAfterDot cs ++ [[]]

def zones (name : String) : List String :=
  (zoneChars name.toList).map String.ofList

/-- The name is the zone's own name or ends in a dot and the zone's name, letter case aside.
Everything is within the root. -/
def isWithin (name zone : String) : Bool :=
  zone.toList.isEmpty || lower name == lower zone || ('.' :: lower zone).isSuffixOf (lower name)

example : zones "www.example.com" = ["www.example.com", "example.com", "com", ""] := by decide
example : zones "a." = ["a.", ""] := by decide
example : isWithin "NS1.Example.com" "example.COM" = true := by decide
example : isWithin "ns1.badexample.com" "example.com" = false := by decide

end IterativeDns.Name
