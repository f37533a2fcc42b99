import Realm.Text.Extending
import Realm.Text.Invisible

/-!
# Quoted text

Text is shown between double quotes. Quotes and backslashes are escaped, the usual control
characters have a letter of their own, and every other character that would not be visible, or
would merge with the one before it, is shown as its code point in braces.
-/

namespace Realm.Text

/-- The digits of a code point, in base sixteen with lower-case letters. -/
def codePointDigits (c : Char) : String := String.ofList (Nat.toDigits 16 c.toNat)

def escapeChar (c : Char) : String :=
  if c = '"' then "\\\""
  else if c = '\\' then "\\\\"
  else if c = '\n' then "\\n"
  else if c = '\r' then "\\r"
  else if c = '\t' then "\\t"
  else if c = '\x00' then "\\0"
  else if CodeRange.hold extending c || CodeRange.hold invisible c then
    "\\u\x7b" ++ codePointDigits c ++ "\x7d"
  else c.toString

def quoted (text : String) : String :=
  "\"" ++ String.join (text.toList.map escapeChar) ++ "\""

/-- A list of texts, each quoted, between square brackets. -/
def quotedList (texts : List String) : String :=
  "[" ++ String.intercalate ", " (texts.map quoted) ++ "]"

end Realm.Text
