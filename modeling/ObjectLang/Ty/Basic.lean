import ObjectLang.Scope.Store

/-!
# Types

The predefined types are `Any`, the concrete types of values, and three abstract types that
collect what can be ordered, compared for equality and iterated over. On top of these there are
function types, which are equal when their parts are, and object types. An object type *is* its
frame of members in the store of types: two object types are equal only if they share that frame,
however alike their members may be.

`Ty.subtypeOf` is the subtype relation. It has one level: everything is below `Any`, the ordered
types are below `Comparable`, these and a few others below `Equatable`, and nothing else is
related.
-/

namespace ObjectLang

/-- A type. -/
inductive Ty where
  | any
  | nil
  | boolean
  | integer
  | decimal
  | string
  /-- What can be ordered. -/
  | comparable
  /-- What can be compared for equality. -/
  | equatable
  /-- What can be iterated over. -/
  | iterable
  | function (params : List Ty) (returns : Ty)
  /-- Objects; the members and their types are the bindings of a frame. -/
  | object (members : FrameId)
deriving Repr, Inhabited

namespace Ty

/-! ## Equality -/

mutual

def beq : Ty → Ty → Bool
  | .any, .any => true
  | .nil, .nil => true
  | .boolean, .boolean => true
  | .integer, .integer => true
  | .decimal, .decimal => true
  | .string, .string => true
  | .comparable, .comparable => true
  | .equatable, .equatable => true
  | .iterable, .iterable => true
  | .function params returns, .function params' returns' =>
    beqList params params' && beq returns returns'
  | .object members, .object members' => members == members'
  | _, _ => false

/-- Whether two lists of types are equal, item by item. -/
def beqList : List Ty → List Ty → Bool
  | [], [] => true
  | t :: ts, u :: us => beq t u && beqList ts us
  | _, _ => false

end

mutual

theorem beq_iff_eq : ∀ t u : Ty, t.beq u = true ↔ t = u
  | .function params returns, u => by
    cases u <;> simp [beq, beqList_iff_eq params, beq_iff_eq returns]
  | .object members, u => by cases u <;> simp [beq]
  | .any, u | .nil, u | .boolean, u | .integer, u | .decimal, u | .string, u | .comparable, u
  | .equatable, u | .iterable, u => by cases u <;> simp [beq]

theorem beqList_iff_eq : ∀ ts us : List Ty, beqList ts us = true ↔ ts = us
  | [], us => by cases us <;> simp [beqList]
  | t :: ts, us => by cases us <;> simp [beqList, beq_iff_eq t, beqList_iff_eq ts]

end

instance : DecidableEq Ty := fun t u => decidable_of_iff (t.beq u = true) (beq_iff_eq t u)

/-! ## Subtypes -/

/-- Whether values of the type can be ordered. -/
def isComparable : Ty → Bool
  | .comparable | .boolean | .integer | .decimal | .string => true
  | _ => false

/-- Whether values of the type can be compared for equality. -/
def isEquatable : Ty → Bool
  | .equatable | .nil | .iterable => true
  | t => t.isComparable

/-- Whether values of the type are numbers. -/
def isNumeric : Ty → Bool
  | .integer | .decimal => true
  | _ => false

/-- Whether every value of the type may stand where one of `target` is wanted. -/
def subtypeOf (t target : Ty) : Bool :=
  t == target ||
    match target with
    | .any => true
    | .comparable => t.isComparable
    | .equatable => t.isEquatable
    | _ => false

/-! ## Predefined types -/

/-- The types that have a name, which are those that are neither function nor object types. -/
def predefined : List Ty :=
  [.any, .nil, .boolean, .integer, .decimal, .string, .comparable, .equatable, .iterable]

/-- The name of a predefined type. -/
def name? : Ty → Option String
  | .any => some "Any"
  | .nil => some "Nil"
  | .boolean => some "Boolean"
  | .integer => some "Integer"
  | .decimal => some "Decimal"
  | .string => some "String"
  | .comparable => some "Comparable"
  | .equatable => some "Equatable"
  | .iterable => some "Iterable"
  | .function _ _ => none
  | .object _ => none

/-- The predefined type of a given name. -/
def ofName? (name : String) : Option Ty := predefined.find? (·.name? == some name)

/-- A predefined type is found under its name. -/
theorem ofName?_of_name? {t : Ty} {name : String} (h : t.name? = some name) :
    ofName? name = some t := by
  cases t <;> simp only [name?, Option.some.injEq, reduceCtorEq] at h <;> subst h <;> decide

/-- The functions that every program can use, with their types. -/
def rootBindings : List (String × Ty) :=
  [("print", .function [.any] .nil),
   ("log", .function [.any] .any),
   ("range", .function [.integer, .integer] .iterable)]

end Ty

end ObjectLang
