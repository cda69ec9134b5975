import ObjectLang.Decimal.Reading
import ObjectLang.Program.Encode

/-!
# Reading programs in interchange form

Reading is more liberal than writing. A tree with fixed parts may also be an array of exactly
these parts in order; a member that is missing counts as `null`; members that mean nothing are
ignored. A kind without payload may be written as an object that maps its name to `null`. A
decimal may be any JSON number, taken at its exact value, and the digits of a whole number may
have leading zeros.

Every part of a tree is smaller than the tree, so reading ends.
-/

namespace ObjectLang

/-! ## Parts of a JSON value -/

namespace Json

/-- A value that lies inside of `j`. -/
abbrev Part (j : Json) := { part : Json // sizeOf part < sizeOf j }

/-- The value of a member, `null` if there is none of that name. -/
def member (members : List (String × Json)) (name : String) : Part (.object members) :=
  match h : members.lookup name with
  | some j => ⟨j, sizeOf_lt_of_lookup h⟩
  | none => ⟨.null, sizeOf_null_lt members⟩

/-- The parts of an object with the given names, in that order. -/
def members (names : List String) (j : Json) : Option (List (Part j)) :=
  match j with
  | .object ms => some (names.map (member ms))
  | _ => none

/-- The parts of a tree that has the given parts: those of an object, or an array of as many
items. -/
def parts (names : List String) (j : Json) : Option (List (Part j)) :=
  match j with
  | .object ms => some (names.map (member ms))
  | .array items =>
    if items.length = names.length then
      some (items.attach.map fun x => ⟨x.1, sizeOf_lt_of_mem x.2⟩)
    else none
  | _ => none

/-- The kind and the payload of an object with a single member. -/
def variant? (j : Json) : Option (String × Part j) :=
  match j with
  | .object [(tag, payload)] => some (tag, ⟨payload, by simp; omega⟩)
  | _ => none

/-- An optional string: `null` is none. -/
def optionalString? : Json → Option (Option String)
  | .null => some none
  | .string s => some (some s)
  | _ => none

/-- The whole number with the given sign and digits. A zero sign makes it zero whatever the
digits. -/
def signed? : Json → Option Int
  | .array [sign, .array ws] => do
    let sign ← sign.int?
    let ws ← ws.mapM (natBelow? (2 ^ 32))
    if sign = 1 ∨ sign = 0 ∨ sign = -1 then some (sign * ofWords ws) else none
  | _ => none

/-- A decimal: a text that spells one, or a number at its exact value. A whole number has to fit
in 64 bits, which the reading of JSON takes care of. -/
def decimal? : Json → Option Decimal
  | .string s => Decimal.parse? s
  | .number n => some n.toDecimal
  | _ => none

end Json

/-! ## Leaves -/

/-- Reads an operator: its spelling, or an object that maps the spelling to `null`. -/
def Operator.ofJson? : Json → Option Operator
  | .string s => ofSpelling? s
  | .object [(s, .null)] => ofSpelling? s
  | _ => none

def Literal.ofJson? : Json → Option Literal
  | .string "Nil" => some .nil
  | .object [("Nil", .null)] => some .nil
  | .object [("Boolean", j)] => j.bool?.map .boolean
  | .object [("Integer", j)] => j.signed?.map .integer
  | .object [("Decimal", j)] => j.decimal?.map .decimal
  | .object [("String", j)] => j.string?.map .string
  | _ => none

def Parameter.ofJson? (j : Json) : Option Parameter :=
  match j.parts ["name", "type_name"] with
  | some [name, typeName] => do return ⟨← name.1.string?, ← typeName.1.optionalString?⟩
  | _ => none

/-! ## Trees -/

mutual

def Expr.ofJson? (j : Json) : Option Expr :=
  match j.variant? with
  | none => none
  | some (tag, ⟨payload, _⟩) =>
    match tag with
    | "Literal" => (Literal.ofJson? payload).map .literal
    | "Group" => (Expr.ofJson? payload).map .group
    | "Binary" =>
      match payload.members ["op", "left", "right"] with
      | some [⟨op, _⟩, ⟨left, _⟩, ⟨right, _⟩] => do
        return .binary (← Operator.ofJson? op) (← Expr.ofJson? left) (← Expr.ofJson? right)
      | _ => none
    | "Variable" =>
      match payload.members ["name"] with
      | some [⟨name, _⟩] => name.string?.map .variable
      | _ => none
    | "Property" =>
      match payload.members ["receiver", "name"] with
      | some [⟨receiver, _⟩, ⟨name, _⟩] => do
        return .property (← Expr.ofJson? receiver) (← name.string?)
      | _ => none
    | "Function" =>
      match payload.members ["name", "arguments"] with
      | some [⟨name, _⟩, ⟨arguments, _⟩] => do
        return .call (← name.string?) (← Expr.arrayOfJson? arguments)
      | _ => none
    | "Method" =>
      match payload.members ["receiver", "name", "arguments"] with
      | some [⟨receiver, _⟩, ⟨name, _⟩, ⟨arguments, _⟩] => do
        return .method (← Expr.ofJson? receiver) (← name.string?) (← Expr.arrayOfJson? arguments)
      | _ => none
    | "Object" =>
      match payload.parts ["name", "fields", "methods"] with
      | some [⟨name, _⟩, ⟨fields, _⟩, ⟨methods, _⟩] => do
        return .object (← name.optionalString?) (← Declaration.arrayOfJson? fields)
          (← Definition.arrayOfJson? methods)
      | _ => none
    | _ => none
termination_by (sizeOf j, 0)

def Expr.arrayOfJson? (j : Json) : Option (List Expr) :=
  match j with
  | .array items => Expr.listOfJson? items
  | _ => none
termination_by (sizeOf j, 0)

/-- Reads the items of an array of expressions. -/
def Expr.listOfJson? (items : List Json) : Option (List Expr) :=
  match items with
  | [] => some []
  | j :: rest => do return (← Expr.ofJson? j) :: (← Expr.listOfJson? rest)
termination_by (sizeOf items, 0)

/-- Reads an optional expression: `null` is none. -/
def Expr.optionOfJson? (j : Json) : Option (Option Expr) :=
  match j with
  | .null => some none
  | j => (Expr.ofJson? j).map some
termination_by (sizeOf j, 1)

def Declaration.ofJson? (j : Json) : Option Declaration :=
  match j.parts ["name", "type_name", "value"] with
  | some [⟨name, _⟩, ⟨typeName, _⟩, ⟨value, _⟩] => do
    return ⟨← name.string?, ← typeName.optionalString?, ← Expr.optionOfJson? value⟩
  | _ => none
termination_by (sizeOf j, 0)

def Declaration.arrayOfJson? (j : Json) : Option (List Declaration) :=
  match j with
  | .array items => Declaration.listOfJson? items
  | _ => none
termination_by (sizeOf j, 0)

/-- Reads the items of an array of declarations. -/
def Declaration.listOfJson? (items : List Json) : Option (List Declaration) :=
  match items with
  | [] => some []
  | j :: rest => do return (← Declaration.ofJson? j) :: (← Declaration.listOfJson? rest)
termination_by (sizeOf items, 0)

def Definition.ofJson? (j : Json) : Option Definition :=
  match j.parts ["name", "parameters", "return_type", "body"] with
  | some [⟨name, _⟩, ⟨parameters, _⟩, ⟨returnType, _⟩, ⟨body, _⟩] => do
    return ⟨← name.string?, ← (← parameters.items?).mapM Parameter.ofJson?,
      ← returnType.optionalString?, ← Stmt.arrayOfJson? body⟩
  | _ => none
termination_by (sizeOf j, 0)

def Definition.arrayOfJson? (j : Json) : Option (List Definition) :=
  match j with
  | .array items => Definition.listOfJson? items
  | _ => none
termination_by (sizeOf j, 0)

/-- Reads the items of an array of definitions. -/
def Definition.listOfJson? (items : List Json) : Option (List Definition) :=
  match items with
  | [] => some []
  | j :: rest => do return (← Definition.ofJson? j) :: (← Definition.listOfJson? rest)
termination_by (sizeOf items, 0)

def Stmt.ofJson? (j : Json) : Option Stmt :=
  match j.variant? with
  | none => none
  | some (tag, ⟨payload, _⟩) =>
    match tag with
    | "Let" => (Declaration.ofJson? payload).map .declare
    | "Def" => (Definition.ofJson? payload).map .define
    | "If" =>
      match payload.parts ["condition", "then_body", "else_body"] with
      | some [⟨condition, _⟩, ⟨thenBody, _⟩, ⟨elseBody, _⟩] => do
        return .branch (← Expr.ofJson? condition) (← Stmt.arrayOfJson? thenBody)
          (← Stmt.arrayOfJson? elseBody)
      | _ => none
    | "For" =>
      match payload.parts ["name", "expression", "body"] with
      | some [⟨name, _⟩, ⟨items, _⟩, ⟨body, _⟩] => do
        return .forEach (← name.string?) (← Expr.ofJson? items) (← Stmt.arrayOfJson? body)
      | _ => none
    | "Return" =>
      match payload.parts ["value"] with
      | some [⟨value, _⟩] => (Expr.optionOfJson? value).map .ret
      | _ => none
    | "Expression" => (Expr.ofJson? payload).map .expression
    | "Assignment" =>
      match payload.parts ["target", "value"] with
      | some [⟨target, _⟩, ⟨value, _⟩] => do
        return .assign (← Expr.ofJson? target) (← Expr.ofJson? value)
      | _ => none
    | _ => none
termination_by (sizeOf j, 0)

def Stmt.arrayOfJson? (j : Json) : Option (List Stmt) :=
  match j with
  | .array items => Stmt.listOfJson? items
  | _ => none
termination_by (sizeOf j, 0)

/-- Reads the items of an array of statements. -/
def Stmt.listOfJson? (items : List Json) : Option (List Stmt) :=
  match items with
  | [] => some []
  | j :: rest => do return (← Stmt.ofJson? j) :: (← Stmt.listOfJson? rest)
termination_by (sizeOf items, 0)

end

def Program.ofJson? (j : Json) : Option Program :=
  match j.parts ["statements"] with
  | some [statements] => (Stmt.arrayOfJson? statements.1).map Program.mk
  | _ => none

end ObjectLang
