import ObjectLang.Json.Basic

/-!
# Reading JSON

A text is first cut into tokens, one character at a time, and the tokens are then folded into a
value with the stack of containers that are still open. When an object repeats a name, the last
value counts and the first place is kept.

A reader bounds how many containers it opens within one another, unless its limit is switched off:
`parseWithin?` has a limit, `parse?` has none.
-/

namespace ObjectLang

/-! ## Numbers -/

namespace JsonNumber

/-- The significand of a number is collected in a 64-bit word. -/
def significandBound : Nat := 2 ^ 64

/-- Takes digits into the significand as long as it fits in its word; the result is the
significand and the number of digits that were left over. -/
def takeDigits (significand : Nat) : List Char → Nat × Nat
  | [] => (significand, 0)
  | c :: rest =>
    let next := significand * 10 + (c.toNat - '0'.toNat)
    if next < significandBound then takeDigits next rest
    else (significand, rest.length + 1)

/-- Whether the characters are a nonempty run of digits. -/
def isDigits (cs : List Char) : Bool := !cs.isEmpty && cs.all Char.isDigit

/-- Whether the characters are the whole part of a number: digits without a leading zero. -/
def isWhole (cs : List Char) : Bool := isDigits cs && (cs.length == 1 || cs.head? != some '0')

/-- The value of an exponent with an optional sign. -/
def readExponent? (cs : List Char) : Option Int :=
  let value (ds : List Char) : Option Int :=
    if isDigits ds then some (Nat.ofDigitChars 10 ds 0) else none
  match cs with
  | '+' :: ds => value ds
  | '-' :: ds => (value ds).map (-·)
  | ds => value ds

/-- A number without its sign: `whole`, then the characters after it. -/
def readUnsigned? (negative : Bool) (whole tail : List Char) : Option JsonNumber := do
  if !isWhole whole then none
  let (significand, dropped) := takeDigits 0 whole
  let finish (m : Nat) (e : Int) : Option JsonNumber :=
    (Binary.ofDigits? m e).map (.binary negative ·)
  match tail with
  | [] =>
    if 0 < dropped then finish significand dropped
    else if negative then
      if 0 < significand ∧ significand ≤ 2 ^ 63 then some (.integer (-significand))
      else finish significand 0
    else some (.integer significand)
  | '.' :: rest =>
    let fraction := rest.takeWhile Char.isDigit
    if !isDigits fraction then none
    let (m, unread) := takeDigits significand fraction
    let e : Int := (dropped : Int) - ((fraction.length : Int) - unread)
    match rest.dropWhile Char.isDigit with
    | [] => finish m e
    | mark :: exponent =>
      if mark = 'e' ∨ mark = 'E' then finish m (e + (← readExponent? exponent)) else none
  | mark :: exponent =>
    if mark = 'e' ∨ mark = 'E' then finish significand (dropped + (← readExponent? exponent))
    else none

/-- The number that the characters spell. -/
def ofChars? (cs : List Char) : Option JsonNumber :=
  match cs with
  | '-' :: rest => readUnsigned? true (rest.takeWhile Char.isDigit) (rest.dropWhile Char.isDigit)
  | _ => readUnsigned? false (cs.takeWhile Char.isDigit) (cs.dropWhile Char.isDigit)

end JsonNumber

/-! ## Tokens -/

/-- A token of JSON. -/
inductive JsonToken where
  /-- One of the six punctuation marks. -/
  | mark (c : Char)
  | string (s : String)
  /-- A number or one of the three words, as it stands. -/
  | word (cs : List Char)
deriving DecidableEq, Repr

/-- Where the cutting into tokens stands. Collected characters are in reverse order. -/
inductive JsonToken.State where
  | between
  | inWord (seen : List Char)
  /-- In a string; a first half of a surrogate pair may wait for its second half. -/
  | inString (seen : List Char) (half : Option Nat)
  | inEscape (seen : List Char) (half : Option Nat)
  /-- In a string, within the four hexadecimal digits of an escape. -/
  | inCode (seen : List Char) (half : Option Nat) (value : Nat) (missing : Nat)

namespace JsonToken

def isBlank (c : Char) : Bool := c == ' ' || c == '\n' || c == '\r' || c == '\t'

def isMark (c : Char) : Bool :=
  c == '[' || c == ']' || c == '\x7b' || c == '\x7d' || c == ',' || c == ':'

/-- The value of a hexadecimal digit. -/
def hexValue? (c : Char) : Option Nat :=
  if c.isDigit then some (c.toNat - '0'.toNat)
  else if 'a' ≤ c ∧ c ≤ 'f' then some (c.toNat - 'a'.toNat + 10)
  else if 'A' ≤ c ∧ c ≤ 'F' then some (c.toNat - 'A'.toNat + 10)
  else none

/-- The character that a one-letter escape stands for. -/
def escaped? : Char → Option Char
  | '\"' => some '\"'
  | '\\' => some '\\'
  | '/' => some '/'
  | 'b' => some '\x08'
  | 'f' => some '\x0c'
  | 'n' => some '\n'
  | 'r' => some '\r'
  | 't' => some '\t'
  | _ => none

/-- Ends a four-digit escape: a character of its own, or one half of a surrogate pair. -/
def endCode (seen : List Char) (half : Option Nat) (code : Nat) : Option State :=
  match half with
  | none =>
    if 0xD800 ≤ code ∧ code < 0xDC00 then some (.inString seen (some code))
    else if 0xDC00 ≤ code ∧ code < 0xE000 then none
    else some (.inString (Char.ofNat code :: seen) none)
  | some first =>
    if 0xDC00 ≤ code ∧ code < 0xE000 then
      let c := Char.ofNat (0x10000 + (first - 0xD800) * 0x400 + (code - 0xDC00))
      some (.inString (c :: seen) none)
    else none

/-- The state after a character that starts something new, and the token it is. -/
def start (c : Char) : State × List JsonToken :=
  if isBlank c then (.between, [])
  else if isMark c then (.between, [.mark c])
  else if c = '\"' then (.inString [] none, [])
  else (.inWord [c], [])

/-- The state after one more character, and the tokens it completes. -/
def step : State → Char → Option (State × List JsonToken)
  | .between, c => some (start c)
  | .inWord seen, c =>
    if isBlank c ∨ isMark c ∨ c = '\"' then
      let (state, tokens) := start c
      some (state, .word seen.reverse :: tokens)
    else some (.inWord (c :: seen), [])
  | .inString seen half, c =>
    if c = '\\' then some (.inEscape seen half, [])
    else if half.isSome then none
    else if c = '\"' then some (.between, [.string (String.ofList seen.reverse)])
    else if c.toNat < 32 then none
    else some (.inString (c :: seen) none, [])
  | .inEscape seen half, c =>
    if c = 'u' then some (.inCode seen half 0 4, [])
    else if half.isSome then none
    else (escaped? c).map fun e => (.inString (e :: seen) none, [])
  | .inCode seen half value missing, c => do
    let digit ← hexValue? c
    let value := value * 16 + digit
    if missing ≤ 1 then return (← endCode seen half value, [])
    else return (.inCode seen half value (missing - 1), [])

/-- The tokens that end with the text. -/
def finish : State → Option (List JsonToken)
  | .between => some []
  | .inWord seen => some [.word seen.reverse]
  | _ => none

/-- One more character, with the tokens so far in reverse order. -/
def stepAll (progress : State × List JsonToken) (c : Char) : Option (State × List JsonToken) :=
  (step progress.1 c).map fun (state, tokens) => (state, tokens.reverse ++ progress.2)

def scan (cs : List Char) : Option (List JsonToken) := do
  let (state, tokens) ← cs.foldlM stepAll (.between, [])
  return tokens.reverse ++ (← finish state)

end JsonToken

/-! ## Values -/

/-- A container that is still being read. What it holds so far is in reverse order. -/
inductive Json.Open where
  | array (items : List Json)
  /-- An object, before a name. -/
  | members (members : List (String × Json))
  /-- An object, after a name. -/
  | named (members : List (String × Json)) (name : String)

/-- What may come next. -/
inductive Json.Expected where
  | value
  | valueOrEnd
  | name
  | nameOrEnd
  | colon
  | commaOrEnd
  /-- Nothing: the value is complete. -/
  | nothing (j : Json)

/-- The containers that are open, innermost first, and what may come next. -/
structure Json.State where
  stack : List Json.Open
  expected : Json.Expected

namespace Json

/-- The value of a number or word. -/
def ofWord? (cs : List Char) : Option Json :=
  if cs = ['n', 'u', 'l', 'l'] then some .null
  else if cs = ['t', 'r', 'u', 'e'] then some (.bool true)
  else if cs = ['f', 'a', 'l', 's', 'e'] then some (.bool false)
  else (JsonNumber.ofChars? cs).map .number

/-- Adds a member in front of members in reverse order; a repeated name keeps its place. -/
def insertMember (members : List (String × Json)) (name : String) (j : Json) :
    List (String × Json) :=
  if members.any (·.1 == name) then
    members.map fun (k, v) => if k == name then (k, j) else (k, v)
  else (name, j) :: members

/-- Puts a complete value where it belongs. -/
def place (stack : List Open) (j : Json) : Option State :=
  match stack with
  | [] => some ⟨[], .nothing j⟩
  | .array items :: rest => some ⟨.array (j :: items) :: rest, .commaOrEnd⟩
  | .named members name :: rest =>
    some ⟨.members (insertMember members name j) :: rest, .commaOrEnd⟩
  | .members _ :: _ => none

def close (stack : List Open) (c : Char) : Option State :=
  match stack with
  | .array items :: rest => if c = ']' then place rest (.array items.reverse) else none
  | .members members :: rest => if c = '\x7d' then place rest (.object members.reverse) else none
  | _ => none

/-- Reads a token where a value may start. -/
def startValue (stack : List Open) (token : JsonToken) : Option State :=
  match token with
  | .string s => place stack (.string s)
  | .word cs => (ofWord? cs).bind (place stack)
  | .mark c =>
    if c = '[' then some ⟨.array [] :: stack, .valueOrEnd⟩
    else if c = '\x7b' then some ⟨.members [] :: stack, .nameOrEnd⟩
    else none

/-- Reads a token where a name may stand. -/
def startName (stack : List Open) (token : JsonToken) : Option State :=
  match token, stack with
  | .string s, .members members :: rest => some ⟨.named members s :: rest, .colon⟩
  | _, _ => none

def State.step (state : State) (token : JsonToken) : Option State :=
  match state.expected with
  | .value => startValue state.stack token
  | .valueOrEnd =>
    if token = .mark ']' then close state.stack ']' else startValue state.stack token
  | .name => startName state.stack token
  | .nameOrEnd =>
    if token = .mark '\x7d' then close state.stack '\x7d' else startName state.stack token
  | .colon => if token = .mark ':' then some ⟨state.stack, .value⟩ else none
  | .commaOrEnd =>
    match token with
    | .mark c =>
      if c = ',' then
        match state.stack with
        | .array _ :: _ => some ⟨state.stack, .value⟩
        | _ => some ⟨state.stack, .name⟩
      else close state.stack c
    | _ => none
  | .nothing _ => none

/-- The value that the tokens make up. -/
def ofTokens? (tokens : List JsonToken) : Option Json := do
  let state ← tokens.foldlM State.step ⟨[], .value⟩
  match state.expected with
  | .nothing j => some j
  | _ => none

/-- The value that a text spells, if it is JSON, for a reader whose limit is switched off. -/
def parse? (s : String) : Option Json := (JsonToken.scan s.toList).bind ofTokens?

/-! ## Limits -/

/-- How many containers are open within one another at most, on the way through tokens that follow
`opened` open ones. -/
def nesting (opened : Nat) : List JsonToken → Nat
  | [] => opened
  | .mark c :: rest =>
    if c = '[' ∨ c = '\x7b' then nesting (opened + 1) rest
    else if c = ']' ∨ c = '\x7d' then max opened (nesting (opened - 1) rest)
    else nesting opened rest
  | _ :: rest => nesting opened rest

/-- The value that a text spells, for a reader that opens at most `limit` containers within one
another. -/
def parseWithin? (limit : Nat) (s : String) : Option Json :=
  (JsonToken.scan s.toList).bind fun tokens =>
    if nesting 0 tokens ≤ limit then ofTokens? tokens else none

end Json

end ObjectLang
