import ObjectLang.Json.Basic

/-!
# Diagnostics

Every failure of the checker and of the evaluator has a numeric code, a category that follows from
the code, and a message. `Diagnostic` is that triple, for hosts to render.
-/

namespace ObjectLang

/-- What a failure is about. -/
inductive ErrorCategory where
  | type
  | scope
  /-- The shape of a statement. -/
  | shape
  | runtime
deriving DecidableEq, Repr, Inhabited

namespace ErrorCategory

def text : ErrorCategory → String
  | .type => "type"
  | .scope => "scope"
  | .shape => "structure"
  | .runtime => "runtime"

def all : List ErrorCategory := [.type, .scope, .shape, .runtime]

/-- The category that a word stands for. -/
def ofText? (s : String) : Option ErrorCategory := all.find? (·.text == s)

def toJson (c : ErrorCategory) : Json := .string c.text

/-- Reads a category: its word, or an object that maps the word to `null`. -/
def ofJson? : Json → Option ErrorCategory
  | .string s => ofText? s
  | .object [(s, .null)] => ofText? s
  | _ => none

end ErrorCategory

/-- The number of a kind of failure. -/
structure ErrorCode where
  /-- The number, which fits in 16 bits. -/
  number : Nat
deriving DecidableEq, Repr, Inhabited

namespace ErrorCode

/-- A declared type does not exist. -/
def undefinedType : ErrorCode := ⟨200⟩
/-- A type or the operands of an operator do not fit. -/
def typeMismatch : ErrorCode := ⟨201⟩
/-- A call has the wrong number of arguments. -/
def wrongArgumentCount : ErrorCode := ⟨202⟩
/-- The target of a call is not a function. -/
def notCallable : ErrorCode := ⟨203⟩
/-- A receiver is not an object. -/
def notAnObject : ErrorCode := ⟨204⟩
/-- An object bears the name of a predefined type. -/
def reservedTypeName : ErrorCode := ⟨205⟩
/-- A name is defined twice in one frame. -/
def alreadyDefined : ErrorCode := ⟨500⟩
def undefinedName : ErrorCode := ⟨501⟩
def undefinedMember : ErrorCode := ⟨502⟩
def duplicateParameter : ErrorCode := ⟨503⟩
/-- A return stands outside of a function. -/
def returnOutsideFunction : ErrorCode := ⟨504⟩
/-- The target of an assignment cannot be assigned. -/
def invalidAssignmentTarget : ErrorCode := ⟨600⟩
def divisionByZero : ErrorCode := ⟨700⟩
def gasExhausted : ErrorCode := ⟨701⟩
/-- The limit on nested calls is passed. -/
def callDepthExceeded : ErrorCode := ⟨702⟩
def hostFailure : ErrorCode := ⟨703⟩

/-- The category, which the hundreds of the number decide. -/
def category (c : ErrorCode) : ErrorCategory :=
  if 200 ≤ c.number ∧ c.number ≤ 299 then .type
  else if 500 ≤ c.number ∧ c.number ≤ 599 then .scope
  else if 600 ≤ c.number ∧ c.number ≤ 699 then .shape
  else .runtime

/-- The code as it is shown. -/
def text (c : ErrorCode) : String := "E" ++ toString c.number

def toJson (c : ErrorCode) : Json := .ofNat c.number

/-- Reads a code: a whole number that fits in 16 bits. -/
def ofJson? (j : Json) : Option ErrorCode := (j.natBelow? (2 ^ 16)).map ErrorCode.mk

end ErrorCode

/-- A failure, ready to be shown. -/
structure Diagnostic where
  code : ErrorCode
  category : ErrorCategory
  message : String
deriving DecidableEq, Repr, Inhabited

namespace Diagnostic

/-- The diagnostic of a code and a message; the category follows from the code. -/
def ofCode (code : ErrorCode) (message : String) : Diagnostic := ⟨code, code.category, message⟩

def text (d : Diagnostic) : String := d.code.text ++ " [" ++ d.category.text ++ "] " ++ d.message

def toJson (d : Diagnostic) : Json :=
  .object [("code", d.code.toJson), ("category", d.category.toJson), ("message", .string d.message)]

/-- Reads a diagnostic: an object with its three fields, or an array of exactly these. The category
need not be that of the code. -/
def ofJson? : Json → Option Diagnostic
  | .array [code, category, message] => do
    return ⟨← ErrorCode.ofJson? code, ← ErrorCategory.ofJson? category, ← message.string?⟩
  | .object members => do
    let code ← ErrorCode.ofJson? (← members.lookup "code")
    let category ← ErrorCategory.ofJson? (← members.lookup "category")
    return ⟨code, category, ← (← members.lookup "message").string?⟩
  | _ => none

end Diagnostic

end ObjectLang
