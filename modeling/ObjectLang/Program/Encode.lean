import ObjectLang.Decimal.Text
import ObjectLang.Json.Basic
import ObjectLang.Program.Basic

/-!
# Programs in interchange form

A statement or expression is an object with one member, which names its kind; a tree with fixed
parts is an object with a member for each part, `null` standing for an optional part that is
missing. A whole number is its sign and its digits in base `2 ^ 32`, least significant first, and a
decimal is its text.
-/

namespace ObjectLang

/-- The digits of a number in base `2 ^ 32`, least significant first, without leading zeros. -/
def words (n : Nat) : List Nat :=
  if n = 0 then [] else n % 2 ^ 32 :: words (n / 2 ^ 32)
termination_by n
decreasing_by omega

/-- The number with the given digits in base `2 ^ 32`, least significant first. -/
def ofWords : List Nat → Nat
  | [] => 0
  | w :: ws => w + 2 ^ 32 * ofWords ws

theorem ofWords_words (n : Nat) : ofWords (words n) = n := by
  induction n using Nat.strongRecOn with
  | _ n ih =>
    rw [words]
    split
    · next h => simp [ofWords, h]
    · next h =>
      have hn := ih (n / 2 ^ 32) (by omega)
      simp only [ofWords, hn]
      omega

/-- Every digit is below the base. -/
theorem lt_of_mem_words {n w : Nat} (h : w ∈ words n) : w < 2 ^ 32 := by
  induction n using Nat.strongRecOn with
  | _ n ih =>
    rw [words] at h
    split at h
    · simp at h
    · next hn =>
      rcases List.mem_cons.mp h with rfl | h
      · exact Nat.mod_lt _ (by decide)
      · exact ih (n / 2 ^ 32) (by omega) h

/-- An object whose single member names a kind of tree. -/
def Json.variant (tag : String) (payload : Json) : Json := .object [(tag, payload)]

/-- A whole number: its sign and its digits. -/
def Json.ofSigned (n : Int) : Json :=
  .array [.ofInt n.sign, .array ((words n.natAbs).map .ofNat)]

def Operator.toJson (op : Operator) : Json := .string op.spelling

def Literal.toJson : Literal → Json
  | .nil => .string "Nil"
  | .boolean value => .variant "Boolean" (.bool value)
  | .integer value => .variant "Integer" (.ofSigned value)
  | .decimal value => .variant "Decimal" (.string value.interchangeText)
  | .string value => .variant "String" (.string value)

def Parameter.toJson (p : Parameter) : Json :=
  .object [("name", .string p.name), ("type_name", .ofOption p.typeName)]

mutual

def Expr.toJson : Expr → Json
  | .literal value => .variant "Literal" value.toJson
  | .group inner => .variant "Group" inner.toJson
  | .binary op left right =>
    .variant "Binary" (.object [("op", op.toJson), ("left", left.toJson), ("right", right.toJson)])
  | .variable name => .variant "Variable" (.object [("name", .string name)])
  | .property receiver name =>
    .variant "Property" (.object [("receiver", receiver.toJson), ("name", .string name)])
  | .call name arguments =>
    .variant "Function"
      (.object [("name", .string name), ("arguments", .array (Expr.listToJson arguments))])
  | .method receiver name arguments =>
    .variant "Method" (.object [("receiver", receiver.toJson), ("name", .string name),
      ("arguments", .array (Expr.listToJson arguments))])
  | .object name fields methods =>
    .variant "Object" (.object [("name", .ofOption name),
      ("fields", .array (Declaration.listToJson fields)),
      ("methods", .array (Definition.listToJson methods))])

/-- The items of a list of expressions. -/
def Expr.listToJson : List Expr → List Json
  | [] => []
  | e :: rest => e.toJson :: Expr.listToJson rest

/-- An optional expression; `null` where there is none. -/
def Expr.optionToJson : Option Expr → Json
  | none => .null
  | some e => e.toJson

def Declaration.toJson : Declaration → Json
  | ⟨name, typeName, value⟩ =>
    .object [("name", .string name), ("type_name", .ofOption typeName),
      ("value", Expr.optionToJson value)]

/-- The items of a list of declarations. -/
def Declaration.listToJson : List Declaration → List Json
  | [] => []
  | d :: rest => d.toJson :: Declaration.listToJson rest

def Definition.toJson : Definition → Json
  | ⟨name, parameters, returnType, body⟩ =>
    .object [("name", .string name), ("parameters", .array (parameters.map Parameter.toJson)),
      ("return_type", .ofOption returnType), ("body", .array (Stmt.listToJson body))]

/-- The items of a list of definitions. -/
def Definition.listToJson : List Definition → List Json
  | [] => []
  | d :: rest => d.toJson :: Definition.listToJson rest

def Stmt.toJson : Stmt → Json
  | .declare declaration => .variant "Let" declaration.toJson
  | .define definition => .variant "Def" definition.toJson
  | .branch condition thenBody elseBody =>
    .variant "If" (.object [("condition", condition.toJson),
      ("then_body", .array (Stmt.listToJson thenBody)),
      ("else_body", .array (Stmt.listToJson elseBody))])
  | .forEach name items body =>
    .variant "For" (.object [("name", .string name), ("expression", items.toJson),
      ("body", .array (Stmt.listToJson body))])
  | .ret value => .variant "Return" (.object [("value", Expr.optionToJson value)])
  | .expression value => .variant "Expression" value.toJson
  | .assign target value =>
    .variant "Assignment" (.object [("target", target.toJson), ("value", value.toJson)])

/-- The items of a list of statements. -/
def Stmt.listToJson : List Stmt → List Json
  | [] => []
  | s :: rest => s.toJson :: Stmt.listToJson rest

end

def Program.toJson (p : Program) : Json :=
  .object [("statements", .array (Stmt.listToJson p.statements))]

end ObjectLang
