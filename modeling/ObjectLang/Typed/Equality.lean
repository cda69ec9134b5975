import ObjectLang.Program.Equality
import ObjectLang.Typed.Basic

/-!
# When two typed programs are the same tree

As for plain programs, decimal literals are compared as numbers. Types are compared by `=`, so
object types have to share their frame of members.
-/

namespace ObjectLang

mutual

/-- Whether two typed expressions are the same tree. -/
def TypedExpr.same : TypedExpr → TypedExpr → Bool
  | .literal a ty, .literal b ty' => a.same b && ty == ty'
  | .group a, .group b => a.same b
  | .binary op a b ty, .binary op' a' b' ty' =>
    op == op' && a.same a' && b.same b' && ty == ty'
  | .variable name ty, .variable name' ty' => name == name' && ty == ty'
  | .property a name ty, .property a' name' ty' => a.same a' && name == name' && ty == ty'
  | .call name as ty, .call name' as' ty' =>
    name == name' && TypedExpr.sameList as as' && ty == ty'
  | .method a name as ty, .method a' name' as' ty' =>
    a.same a' && name == name' && TypedExpr.sameList as as' && ty == ty'
  | .object name fields methods ty, .object name' fields' methods' ty' =>
    name == name' && TypedDeclaration.sameList fields fields' &&
      TypedDefinition.sameList methods methods' && ty == ty'
  | _, _ => false

/-- Whether two lists of typed expressions are the same, item by item. -/
def TypedExpr.sameList : List TypedExpr → List TypedExpr → Bool
  | [], [] => true
  | a :: as, b :: bs => a.same b && TypedExpr.sameList as bs
  | _, _ => false

/-- Whether two optional typed expressions are the same. -/
def TypedExpr.sameOption : Option TypedExpr → Option TypedExpr → Bool
  | none, none => true
  | some a, some b => a.same b
  | _, _ => false

/-- Whether two typed declarations are the same tree. -/
def TypedDeclaration.same : TypedDeclaration → TypedDeclaration → Bool
  | ⟨name, ty, value⟩, ⟨name', ty', value'⟩ =>
    name == name' && ty == ty' && TypedExpr.sameOption value value'

/-- Whether two lists of typed declarations are the same, item by item. -/
def TypedDeclaration.sameList : List TypedDeclaration → List TypedDeclaration → Bool
  | [], [] => true
  | a :: as, b :: bs => a.same b && TypedDeclaration.sameList as bs
  | _, _ => false

/-- Whether two typed definitions are the same tree. -/
def TypedDefinition.same : TypedDefinition → TypedDefinition → Bool
  | ⟨name, parameters, returns, body⟩, ⟨name', parameters', returns', body'⟩ =>
    name == name' && parameters == parameters' && returns == returns' &&
      TypedStmt.sameList body body'

/-- Whether two lists of typed definitions are the same, item by item. -/
def TypedDefinition.sameList : List TypedDefinition → List TypedDefinition → Bool
  | [], [] => true
  | a :: as, b :: bs => a.same b && TypedDefinition.sameList as bs
  | _, _ => false

/-- Whether two typed statements are the same tree. -/
def TypedStmt.same : TypedStmt → TypedStmt → Bool
  | .declare d, .declare d' => d.same d'
  | .define d, .define d' => d.same d'
  | .branch c a b, .branch c' a' b' =>
    c.same c' && TypedStmt.sameList a a' && TypedStmt.sameList b b'
  | .forEach name ty items body, .forEach name' ty' items' body' =>
    name == name' && ty == ty' && items.same items' && TypedStmt.sameList body body'
  | .ret value, .ret value' => TypedExpr.sameOption value value'
  | .expression value, .expression value' => value.same value'
  | .assignVariable name ty value, .assignVariable name' ty' value' =>
    name == name' && ty == ty' && value.same value'
  | .assignProperty a name ty value, .assignProperty a' name' ty' value' =>
    a.same a' && name == name' && ty == ty' && value.same value'
  | _, _ => false

/-- Whether two lists of typed statements are the same, item by item. -/
def TypedStmt.sameList : List TypedStmt → List TypedStmt → Bool
  | [], [] => true
  | a :: as, b :: bs => a.same b && TypedStmt.sameList as bs
  | _, _ => false

end

/-- Whether two typed programs are the same tree. -/
def TypedProgram.same (p q : TypedProgram) : Bool :=
  TypedStmt.sameList p.statements q.statements

end ObjectLang
