import ObjectLang.Text.ExtendingMark
import ObjectLang.Text.Unprintable

/-!
# Quoted texts

A text in quotes, as a host inspects it: every character is either shown as it is or named by an
escape, so that no two texts look alike. Quotes and backslashes are escaped, and so is every
character that has no visible form or that would be drawn together with the one before it. Such a
character is named by its code point unless it has a short escape.
-/

namespace ObjectLang

/-- The hexadecimal digits of a number, in lower case and without leading zeros. -/
def hexDigits (n : Nat) : List Char := Nat.toDigits 16 n

/-- The escape that names a character by its code point. -/
def codeEscape (c : Char) : List Char :=
  ['\\', 'u', '\x7b'] ++ hexDigits c.toNat ++ ['\x7d']

/-- The characters that stand for `c` inside a quoted text. -/
def quotedChar (c : Char) : List Char :=
  match c with
  | '\"' => ['\\', '\"']
  | '\\' => ['\\', '\\']
  | '\n' => ['\\', 'n']
  | '\r' => ['\\', 'r']
  | '\t' => ['\\', 't']
  | '\x00' => ['\\', '0']
  | c => if isExtendingMark c || isUnprintable c then codeEscape c else [c]

def quoted (s : String) : String :=
  "\"" ++ String.ofList (s.toList.flatMap quotedChar) ++ "\""

end ObjectLang
