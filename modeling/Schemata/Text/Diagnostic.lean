/-!
# Texts inside messages

A message shows a text between quotes, with control characters spelled out, so that the reader of a
log sees where the text begins and ends.
-/
namespace Schemata.Text

/-- The last two hexadecimal digits of a character's code, in lower case. -/
def hexPair (c : Char) : List Char :=
  [Nat.digitChar (c.toNat / 16), Nat.digitChar (c.toNat % 16)]

/-- Single quotes, unless the text has a single quote and no double quote. -/
def quoteFor (text : List Char) : Char :=
  if text.contains '\x27' && !text.contains '\x22' then '\x22' else '\x27'

/-- A character of a shown text: the quote in use, backslashes and control characters are
escaped. -/
def shownChar (quote c : Char) : List Char :=
  if c = '\\' ∨ c = quote then ['\\', c]
  else if c = '\n' then ['\\', 'n']
  else if c = '\r' then ['\\', 'r']
  else if c = '\t' then ['\\', 't']
  else if c.toNat < 32 ∨ c.toNat = 127 then '\\' :: 'x' :: hexPair c
  else [c]

def shown (text : String) : String :=
  let quote := quoteFor text.toList
  String.ofList (quote :: text.toList.flatMap (shownChar quote) ++ [quote])

example : shown "it's" = "\"it's\"" := by decide
example : shown "a\n'\"" = "'a\\n\\'\"'" := by decide

end Schemata.Text
