import StyleSync.Numeric.Digits
import StyleSync.Text.Visible

/-! # Texts in messages

A message shows a text between quotes. Quotes, backslashes and line ends in it are escaped with a
backslash, and what does not show on its own is written as its code point in braces.
-/

set_option autoImplicit false

namespace StyleSync.Text

/-- A character between quotes. -/
def quotedChar (c : Char) : List Char :=
  if c = '\x00' then ['\\', '0']
  else if c = '\t' then ['\\', 't']
  else if c = '\r' then ['\\', 'r']
  else if c = '\n' then ['\\', 'n']
  else if c = '\\' then ['\\', '\\']
  else if c = '"' then ['\\', '"']
  else if isVisible c then [c]
  else '\\' :: 'u' :: '\x7b' :: (numeral 16 c.toNat ++ ['\x7d'])

/-- A text between quotes. -/
def quoted (text : String) : String :=
  "\"" ++ String.ofList (text.toList.flatMap quotedChar) ++ "\""

end StyleSync.Text
