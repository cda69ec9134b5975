import ObjectLang.Program.Basic
import ObjectLang.Scope.Store

/-!
# Values

What expressions evaluate to. Functions and objects are references: a function is a number in the
table of functions, an object is its frame of members together with its name. Two functions or two
objects are the same only if they are the same reference; everything else is compared by content,
decimals by their digits *and* their scale.
-/

namespace ObjectLang

/-- The number of a function in the table of functions. -/
abbrev FunctionId := Nat

/-- A value. -/
inductive Value where
  | nil
  | boolean (value : Bool)
  | integer (value : Int)
  | decimal (value : Decimal)
  | string (value : String)
  | list (items : List Value)
  | function (id : FunctionId)
  /-- An object, whose members are the bindings of a frame. -/
  | object (name : Option String) (members : FrameId)
deriving Repr, Inhabited

/-- The kind of a value, which messages name. -/
inductive Kind where
  | nil
  | boolean
  | integer
  | decimal
  | string
  | list
  | function
  | object
deriving DecidableEq, Repr, Inhabited

def Kind.text : Kind → String
  | .nil => "Nil"
  | .boolean => "Boolean"
  | .integer => "Integer"
  | .decimal => "Decimal"
  | .string => "String"
  | .list => "List"
  | .function => "Function"
  | .object => "Object"

def Literal.value : Literal → Value
  | .nil => .nil
  | .boolean value => .boolean value
  | .integer value => .integer value
  | .decimal value => .decimal value
  | .string value => .string value

namespace Value

/-! ## Equality -/

mutual

def beq : Value → Value → Bool
  | .nil, .nil => true
  | .boolean a, .boolean b => a == b
  | .integer a, .integer b => a == b
  | .decimal a, .decimal b => a == b
  | .string a, .string b => a == b
  | .list as, .list bs => beqList as bs
  | .function a, .function b => a == b
  | .object name a, .object name' b => name == name' && a == b
  | _, _ => false

/-- Whether two lists of values are equal, item by item. -/
def beqList : List Value → List Value → Bool
  | [], [] => true
  | a :: as, b :: bs => beq a b && beqList as bs
  | _, _ => false

end

mutual

theorem beq_eq_true_iff : ∀ a b : Value, a.beq b = true ↔ a = b
  | .list as, b => by cases b <;> simp [beq, beqList_eq_true_iff as]
  | .nil, b | .boolean _, b | .integer _, b | .decimal _, b | .string _, b | .function _, b
  | .object _ _, b => by cases b <;> simp [beq]

theorem beqList_eq_true_iff : ∀ as bs : List Value, beqList as bs = true ↔ as = bs
  | [], bs => by cases bs <;> simp [beqList]
  | a :: as, bs => by cases bs <;> simp [beqList, beq_eq_true_iff a, beqList_eq_true_iff as]

end

instance : DecidableEq Value := fun a b => decidable_of_iff (a.beq b = true) (beq_eq_true_iff a b)

/-! ## Kinds and sameness -/

def kind : Value → Kind
  | .nil => .nil
  | .boolean _ => .boolean
  | .integer _ => .integer
  | .decimal _ => .decimal
  | .string _ => .string
  | .list _ => .list
  | .function _ => .function
  | .object _ _ => .object

/-- Whether the value is the empty one. -/
def isNil : Value → Bool
  | .nil => true
  | _ => false

/-- Whether the value is neither a function nor an object. -/
def isPrimitive : Value → Bool
  | .function _ | .object _ _ => false
  | _ => true

mutual

/-- Whether two values are the same: by reference for functions and objects, by content otherwise.
-/
def same : Value → Value → Bool
  | .nil, .nil => true
  | .boolean a, .boolean b => a == b
  | .integer a, .integer b => a == b
  | .decimal a, .decimal b => a == b
  | .string a, .string b => a == b
  | .list as, .list bs => sameList as bs
  | .function a, .function b => a == b
  | .object _ a, .object _ b => a == b
  | _, _ => false

/-- Whether two lists of values are the same, item by item. -/
def sameList : List Value → List Value → Bool
  | [], [] => true
  | a :: as, b :: bs => same a b && sameList as bs
  | _, _ => false

end

end Value

end ObjectLang
