/-
Text as a message shows it.

Two forms are needed. `quoteString` and `quoteRune` put a text between
quotes so that it can be told apart from what surrounds it: what is
printable stays as it is, in any script. `escapeToAscii` has no quotes
and leaves nothing but printable ASCII; it shows a stretch of source that
is no token, where any character at all may turn up.

Both write a code point that must not be shown as `\u` and its
hexadecimal digits in braces.
-/
import GoSource.Text.Unprintable
import GoSource.Text.Extender

namespace GoSource.Text

/-- The escape that names a code point. -/
def codePointEscape (c : Char) : List Char :=
  ['\\', 'u', '\x7b'] ++ Nat.toDigits 16 c.toNat ++ ['\x7d']

-- =============================================================== quoted

/-- A character inside quotes of the given kind. Only the quote that
encloses it is escaped; the other kind stands for itself. -/
def quoteChar (quote c : Char) : List Char :=
  if c = '\x00' then ['\\', '0']
  else if c = '\t' then ['\\', 't']
  else if c = '\r' then ['\\', 'r']
  else if c = '\n' then ['\\', 'n']
  else if c = '\\' || c = quote then ['\\', c]
  else if isExtender c || isUnprintable c then codePointEscape c
  else [c]

/-- A text between double quotes. -/
def quoteString (s : String) : String :=
  .ofList ('\x22' :: s.toList.flatMap (quoteChar '\x22') ++ ['\x22'])

/-- A character between single quotes. -/
def quoteRune (c : Char) : String :=
  .ofList ('\x27' :: quoteChar '\x27' c ++ ['\x27'])

-- ================================================================ ASCII

/-- A character in printable ASCII. Both quotes are escaped, since the
result stands in none. -/
def escapeCharToAscii (c : Char) : List Char :=
  if c = '\t' then ['\\', 't']
  else if c = '\r' then ['\\', 'r']
  else if c = '\n' then ['\\', 'n']
  else if c = '\\' || c = '\x22' || c = '\x27' then ['\\', c]
  else if ' ' ≤ c && c ≤ '~' then [c]
  else codePointEscape c

def escapeToAscii (s : String) : String :=
  .ofList (s.toList.flatMap escapeCharToAscii)

end GoSource.Text
