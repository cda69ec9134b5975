import ObjectLang.Program.Basic

/-!
# When two programs are the same tree

Two trees are the same when they have the same shape, names, operators and literals. Decimal
literals are compared as numbers, so `1.0` and `1.00` are the same literal; for everything else
being the same is being equal.
-/

namespace ObjectLang

/-- Whether two constants are the same; decimals count as numbers. -/
def Literal.same : Literal → Literal → Bool
  | .decimal a, .decimal b => a.sameNumber b
  | a, b => a == b

mutual

/-- Whether two expressions are the same tree. -/
def Expr.same : Expr → Expr → Bool
  | .literal a, .literal b => a.same b
  | .group a, .group b => a.same b
  | .binary op a b, .binary op' a' b' => op == op' && a.same a' && b.same b'
  | .variable name, .variable name' => name == name'
  | .property a name, .property a' name' => a.same a' && name == name'
  | .call name as, .call name' as' => name == name' && Expr.sameList as as'
  | .method a name as, .method a' name' as' =>
    a.same a' && name == name' && Expr.sameList as as'
  | .object name fields methods, .object name' fields' methods' =>
    name == name' && Declaration.sameList fields fields' && Definition.sameList methods methods'
  | _, _ => false

/-- Whether two lists of expressions are the same, item by item. -/
def Expr.sameList : List Expr → List Expr → Bool
  | [], [] => true
  | a :: as, b :: bs => a.same b && Expr.sameList as bs
  | _, _ => false

/-- Whether two optional expressions are the same. -/
def Expr.sameOption : Option Expr → Option Expr → Bool
  | none, none => true
  | some a, some b => a.same b
  | _, _ => false

/-- Whether two declarations are the same tree. -/
def Declaration.same : Declaration → Declaration → Bool
  | ⟨name, typeName, value⟩, ⟨name', typeName', value'⟩ =>
    name == name' && typeName == typeName' && Expr.sameOption value value'

/-- Whether two lists of declarations are the same, item by item. -/
def Declaration.sameList : List Declaration → List Declaration → Bool
  | [], [] => true
  | a :: as, b :: bs => a.same b && Declaration.sameList as bs
  | _, _ => false

/-- Whether two definitions are the same tree. -/
def Definition.same : Definition → Definition → Bool
  | ⟨name, parameters, returnType, body⟩, ⟨name', parameters', returnType', body'⟩ =>
    name == name' && parameters == parameters' && returnType == returnType' &&
      Stmt.sameList body body'

/-- Whether two lists of definitions are the same, item by item. -/
def Definition.sameList : List Definition → List Definition → Bool
  | [], [] => true
  | a :: as, b :: bs => a.same b && Definition.sameList as bs
  | _, _ => false

/-- Whether two statements are the same tree. -/
def Stmt.same : Stmt → Stmt → Bool
  | .declare d, .declare d' => d.same d'
  | .define d, .define d' => d.same d'
  | .branch c a b, .branch c' a' b' => c.same c' && Stmt.sameList a a' && Stmt.sameList b b'
  | .forEach name items body, .forEach name' items' body' =>
    name == name' && items.same items' && Stmt.sameList body body'
  | .ret value, .ret value' => Expr.sameOption value value'
  | .expression value, .expression value' => value.same value'
  | .assign target value, .assign target' value' => target.same target' && value.same value'
  | _, _ => false

/-- Whether two lists of statements are the same, item by item. -/
def Stmt.sameList : List Stmt → List Stmt → Bool
  | [], [] => true
  | a :: as, b :: bs => a.same b && Stmt.sameList as bs
  | _, _ => false

end

/-- Whether two programs are the same tree. -/
def Program.same (p q : Program) : Bool := Stmt.sameList p.statements q.statements

end ObjectLang
