import ObjectLang.Decimal.Text
import ObjectLang.Json.Basic

/-!
# Writing JSON

`Json.compact` writes a value on one line without spaces. `Json.pretty` breaks lines and indents
by two spaces a level; an empty array or object stays on its line.
-/

namespace ObjectLang

/-- The last two hexadecimal digits of `n`. -/
def hexByte (n : Nat) : List Char := [Nat.digitChar (n / 16 % 16), Nat.digitChar (n % 16)]

/-- The characters that stand for `c` inside a JSON string. Quotes, backslashes and control
characters are escaped, everything else stands for itself. -/
def jsonCharEscape (c : Char) : List Char :=
  match c with
  | '\"' => ['\\', '\"']
  | '\\' => ['\\', '\\']
  | '\n' => ['\\', 'n']
  | '\r' => ['\\', 'r']
  | '\t' => ['\\', 't']
  | '\x08' => ['\\', 'b']
  | '\x0c' => ['\\', 'f']
  | c => if c.toNat < 32 then ['\\', 'u', '0', '0'] ++ hexByte c.toNat else [c]

def jsonQuote (s : String) : String :=
  "\"" ++ String.ofList (s.toList.flatMap jsonCharEscape) ++ "\""

/-- A number; a binary fraction is written out exactly and always with a point. -/
def JsonNumber.text : JsonNumber → String
  | .integer n => toString n
  | .binary negative magnitude =>
    let d := magnitude.toDecimal
    let sign := if negative then "-" else ""
    let places := String.ofList (Decimal.plain (digits d.unscaled.natAbs) d.scale.toNat)
    sign ++ places ++ (if d.scale = 0 then ".0" else "")

namespace Json

mutual
def compact : Json → String
  | .null => "null"
  | .bool b => if b then "true" else "false"
  | .number n => n.text
  | .string s => jsonQuote s
  | .array items => "[" ++ ",".intercalate (compactItems items) ++ "]"
  | .object members => "\x7b" ++ ",".intercalate (compactMembers members) ++ "\x7d"

/-- The items of an array, each on one line. -/
def compactItems : List Json → List String
  | [] => []
  | j :: rest => compact j :: compactItems rest

/-- The members of an object, each on one line. -/
def compactMembers : List (String × Json) → List String
  | [] => []
  | (name, j) :: rest => (jsonQuote name ++ ":" ++ compact j) :: compactMembers rest
end

/-- The lines of a container between its brackets, each on a line of its own. -/
def block (left right indent : String) (lines : List String) : String :=
  if lines.isEmpty then left ++ right
  else
    left ++ "\n" ++ ",\n".intercalate (lines.map (indent ++ "  " ++ ·)) ++ "\n" ++ indent ++ right

mutual
/-- The value over several lines, of which all but the first start with `indent`. -/
def prettyAt (indent : String) : Json → String
  | .null => "null"
  | .bool b => if b then "true" else "false"
  | .number n => n.text
  | .string s => jsonQuote s
  | .array items => block "[" "]" indent (prettyItems (indent ++ "  ") items)
  | .object members => block "\x7b" "\x7d" indent (prettyMembers (indent ++ "  ") members)

def prettyItems (indent : String) : List Json → List String
  | [] => []
  | j :: rest => prettyAt indent j :: prettyItems indent rest

def prettyMembers (indent : String) : List (String × Json) → List String
  | [] => []
  | (name, j) :: rest => (jsonQuote name ++ ": " ++ prettyAt indent j) :: prettyMembers indent rest
end

/-- The value over several lines, indented by two spaces a level. -/
def pretty (j : Json) : String := prettyAt "" j

end Json

end ObjectLang
