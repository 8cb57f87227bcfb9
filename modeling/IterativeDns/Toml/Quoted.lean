/-!
# Texts in quotes

A text can be written in TOML between double quotes, where a backslash starts an escape, or
between single quotes, where every character stands for itself; tripled quotes of either kind
allow line breaks. `quote` chooses the first of these forms that needs no escapes, and double
quotes with escapes where there is none.
-/

namespace IterativeDns.Toml

/-- The length of the longest run of a character. -/
def longestRun (c : Char) (cs : List Char) : Nat :=
  (cs.foldl (fun (run, longest) d =>
    let run := if d = c then run + 1 else 0
    (run, max longest run)) (0, 0)).2

/-- Characters that can only be written as escapes. -/
def needsEscape (c : Char) : Bool :=
  (c.toNat < 0x20 && c != '\t' && c != '\n') || c.toNat == 0x7F

/-- A digit of a code point in an escape. -/
def codeDigit (n : Nat) : Char :=
  "0123456789ABCDEF".toList.getD n '0'

/-- The escape that writes a control character. -/
def controlEscape (c : Char) : List Char :=
  match c with
  | '\x08' => ['\\', 'b']
  | '\t' => ['\\', 't']
  | '\n' => ['\\', 'n']
  | '\x0c' => ['\\', 'f']
  | '\r' => ['\\', 'r']
  | c => ['\\', 'u', '0', '0', codeDigit (c.toNat / 16), codeDigit (c.toNat % 16)]

/-- The characters between double quotes, or between tripled ones if `long`. `quotes` is the
number of double quotes right before; tripled ones leave two of them as they are. Tabs may stand
for themselves too, but are escaped as well. -/
def escapeFrom (long : Bool) : (quotes : Nat) → List Char → List Char
  | _, [] => []
  | quotes, '"' :: cs =>
    if quotes < (if long then 2 else 0) then '"' :: escapeFrom long (quotes + 1) cs
    else '\\' :: '"' :: escapeFrom long 0 cs
  | _, '\\' :: cs => '\\' :: '\\' :: escapeFrom long 0 cs
  | _, c :: cs =>
    if c == '\n' && long then c :: escapeFrom long 0 cs
    else if needsEscape c || c == '\n' || c == '\t' then controlEscape c ++ escapeFrom long 0 cs
    else c :: escapeFrom long 0 cs

/-- A text between tripled quotes. A line break right after the opening ones does not count, so
one is put there if the text has line breaks. -/
def tripled (quote : Char) (cs body : List Char) : List Char :=
  let marks := [quote, quote, quote]
  marks ++ (if cs.contains '\n' then ['\n'] else []) ++ body ++ marks

/-- A text as it is written in a document. -/
def quoteChars (cs : List Char) : List Char :=
  let escapes := cs.any needsEscape
  let backslash := cs.contains '\\'
  let newline := cs.contains '\n'
  let doubles := longestRun '"' cs
  let singles := longestRun '\'' cs
  if !escapes && !backslash && !newline && doubles = 0 then '"' :: escapeFrom false 0 cs ++ ['"']
  else if !escapes && !newline && singles = 0 then '\'' :: cs ++ ['\'']
  else if !escapes && !backslash && doubles ≤ 2 then tripled '"' cs (escapeFrom true 0 cs)
  else if !escapes && singles ≤ 2 then tripled '\'' cs cs
  else if newline then tripled '"' cs (escapeFrom true 0 cs)
  else '"' :: escapeFrom false 0 cs ++ ['"']

def quote (s : String) : String :=
  String.ofList (quoteChars s.toList)

end IterativeDns.Toml
