import ObjectLang.Decimal.Basic

/-!
# Programs

A program is a list of statements. Statements declare variables and functions, branch, loop over a
list, return, evaluate an expression or assign; expressions are literals, operators, names, calls,
and object literals with fields and methods. Fields have the form of declarations and methods that
of function definitions, so the four kinds of tree are mutually recursive.

Types appear as bare names and are optional everywhere. Parentheses are kept as `Expr.group`.
-/

namespace ObjectLang

/-- A constant. -/
inductive Literal where
  | nil
  | boolean (value : Bool)
  /-- A whole number of any size. -/
  | integer (value : Int)
  | decimal (value : Decimal)
  | string (value : String)
deriving DecidableEq, Repr, Inhabited

/-- A binary operator. -/
inductive Operator where
  /-- Addition, and concatenation of texts. -/
  | add
  | sub
  | mul
  | div
  | less
  | lessEq
  | greater
  | greaterEq
  | eq
  | notEq
  | and
  | or
deriving DecidableEq, Repr, Inhabited

namespace Operator

def all : List Operator :=
  [.add, .sub, .mul, .div, .less, .lessEq, .greater, .greaterEq, .eq, .notEq, .and, .or]

def spelling : Operator → String
  | .add => "+"
  | .sub => "-"
  | .mul => "*"
  | .div => "/"
  | .less => "<"
  | .lessEq => "<="
  | .greater => ">"
  | .greaterEq => ">="
  | .eq => "=="
  | .notEq => "!="
  | .and => "AND"
  | .or => "OR"

/-- The operator that a text spells. -/
def ofSpelling? (s : String) : Option Operator := all.find? (·.spelling == s)

/-- What is said of a text that spells no operator. -/
def unknownMessage (s : String) : String := "unknown binary operator `" ++ s ++ "`"

/-- No two operators are spelled alike. -/
theorem ofSpelling?_spelling (op : Operator) : ofSpelling? op.spelling = some op := by
  cases op <;> decide

end Operator

/-- A parameter of a function. -/
structure Parameter where
  name : String
  typeName : Option String
deriving DecidableEq, Repr, Inhabited

mutual

/-- An expression. -/
inductive Expr where
  | literal (value : Literal)
  | group (inner : Expr)
  | binary (op : Operator) (left right : Expr)
  | variable (name : String)
  | property (receiver : Expr) (name : String)
  | call (name : String) (arguments : List Expr)
  /-- A call of an object's member, which gets the object as its first argument. -/
  | method (receiver : Expr) (name : String) (arguments : List Expr)
  | object (name : Option String) (fields : List Declaration) (methods : List Definition)

/-- A statement. -/
inductive Stmt where
  | declare (declaration : Declaration)
  | define (definition : Definition)
  | branch (condition : Expr) (thenBody elseBody : List Stmt)
  | forEach (name : String) (items : Expr) (body : List Stmt)
  /-- Leaves the enclosing function. -/
  | ret (value : Option Expr)
  | expression (value : Expr)
  /-- Gives a variable or a member a new value. -/
  | assign (target value : Expr)

/-- A variable or a field: a name with an optional type and an optional initial value. -/
structure Declaration where
  name : String
  typeName : Option String
  value : Option Expr

/-- A function or a method. -/
structure Definition where
  name : String
  parameters : List Parameter
  returnType : Option String
  body : List Stmt

end

/-- A complete unit. -/
structure Program where
  statements : List Stmt

instance : Inhabited Expr := ⟨.literal .nil⟩

instance : Inhabited Stmt := ⟨.ret none⟩

instance : Inhabited Program := ⟨⟨[]⟩⟩

/-- The name under which a method finds its receiver. -/
def thisName : String := "this"

/-- The first name that is in `seen` or was met earlier in the list. -/
def firstRepeated? (seen : List String) : List String → Option String
  | [] => none
  | name :: rest => if name ∈ seen then some name else firstRepeated? (name :: seen) rest

end ObjectLang
