import ObjectLang.Json.Writer
import ObjectLang.Program.Encode
import ObjectLang.Ty.Text
import ObjectLang.Typed.Basic

/-!
# Typed programs in interchange form

The form of a typed program follows that of a program, with a type wherever the typed tree has
one. Each function takes the form of types as an argument; `TypedProgram.toJson` supplies it from
a store.
-/

namespace ObjectLang

/-- A typed parameter in interchange form. -/
def TypedParameter.toJson (ty : Ty → Json) (p : TypedParameter) : Json :=
  .object [("name", .string p.name), ("ty", ty p.ty)]

mutual

/-- A typed expression in interchange form. -/
def TypedExpr.toJson (form : Ty → Json) : TypedExpr → Json
  | .literal value ty => .variant "Literal" (.object [("value", value.toJson), ("ty", form ty)])
  | .group inner => .variant "Group" (inner.toJson form)
  | .binary op left right ty =>
    .variant "Binary" (.object [("op", op.toJson), ("left", left.toJson form),
      ("right", right.toJson form), ("ty", form ty)])
  | .variable name ty => .variant "Variable" (.object [("name", .string name), ("ty", form ty)])
  | .property receiver name ty =>
    .variant "Property" (.object [("receiver", receiver.toJson form), ("name", .string name),
      ("ty", form ty)])
  | .call name arguments ty =>
    .variant "Function" (.object [("name", .string name),
      ("arguments", .array (TypedExpr.listToJson form arguments)), ("ty", form ty)])
  | .method receiver name arguments ty =>
    .variant "Method" (.object [("receiver", receiver.toJson form), ("name", .string name),
      ("arguments", .array (TypedExpr.listToJson form arguments)), ("ty", form ty)])
  | .object name fields methods ty =>
    .variant "Object" (.object [("name", .ofOption name),
      ("fields", .array (TypedDeclaration.listToJson form fields)),
      ("methods", .array (TypedDefinition.listToJson form methods)), ("ty", form ty)])

/-- The items of a list of typed expressions. -/
def TypedExpr.listToJson (form : Ty → Json) : List TypedExpr → List Json
  | [] => []
  | e :: rest => e.toJson form :: TypedExpr.listToJson form rest

/-- An optional typed expression; `null` where there is none. -/
def TypedExpr.optionToJson (form : Ty → Json) : Option TypedExpr → Json
  | none => .null
  | some e => e.toJson form

/-- A typed declaration in interchange form. -/
def TypedDeclaration.toJson (form : Ty → Json) : TypedDeclaration → Json
  | ⟨name, ty, value⟩ =>
    .object [("name", .string name), ("ty", form ty), ("value", TypedExpr.optionToJson form value)]

/-- The items of a list of typed declarations. -/
def TypedDeclaration.listToJson (form : Ty → Json) : List TypedDeclaration → List Json
  | [] => []
  | d :: rest => d.toJson form :: TypedDeclaration.listToJson form rest

/-- A typed definition in interchange form. -/
def TypedDefinition.toJson (form : Ty → Json) : TypedDefinition → Json
  | ⟨name, parameters, returns, body⟩ =>
    .object [("name", .string name),
      ("parameters", .array (parameters.map (TypedParameter.toJson form))),
      ("returns", form returns), ("body", .array (TypedStmt.listToJson form body))]

/-- The items of a list of typed definitions. -/
def TypedDefinition.listToJson (form : Ty → Json) : List TypedDefinition → List Json
  | [] => []
  | d :: rest => d.toJson form :: TypedDefinition.listToJson form rest

/-- A typed statement in interchange form. -/
def TypedStmt.toJson (form : Ty → Json) : TypedStmt → Json
  | .declare declaration => .variant "Let" (declaration.toJson form)
  | .define definition => .variant "Def" (definition.toJson form)
  | .branch condition thenBody elseBody =>
    .variant "If" (.object [("condition", condition.toJson form),
      ("then_body", .array (TypedStmt.listToJson form thenBody)),
      ("else_body", .array (TypedStmt.listToJson form elseBody))])
  | .forEach name ty items body =>
    .variant "For" (.object [("name", .string name), ("ty", form ty),
      ("expression", items.toJson form), ("body", .array (TypedStmt.listToJson form body))])
  | .ret value => .variant "Return" (.object [("value", TypedExpr.optionToJson form value)])
  | .expression value => .variant "Expression" (value.toJson form)
  | .assignVariable name ty value =>
    .variant "Assignment" (.variant "Variable" (.object
      [("target", .object [("name", .string name), ("ty", form ty)]),
       ("value", value.toJson form)]))
  | .assignProperty receiver name ty value =>
    .variant "Assignment" (.variant "Property" (.object
      [("target", .object [("receiver", receiver.toJson form), ("name", .string name),
        ("ty", form ty)]),
       ("value", value.toJson form)]))

/-- The items of a list of typed statements. -/
def TypedStmt.listToJson (form : Ty → Json) : List TypedStmt → List Json
  | [] => []
  | s :: rest => s.toJson form :: TypedStmt.listToJson form rest

end

/-- A typed program in interchange form; the object types are those of the store. -/
def TypedProgram.toJson (types : Store Ty) (p : TypedProgram) : Json :=
  .object [("statements", .array (TypedStmt.listToJson (Ty.toJson types) p.statements))]

/-- A typed program as JSON text over several lines. -/
def TypedProgram.toJsonText (types : Store Ty) (p : TypedProgram) : String :=
  (p.toJson types).pretty

end ObjectLang
