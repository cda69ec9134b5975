import ObjectLang.Decimal.Binary

/-!
# JSON values

The interchange form of programs and types. An object is the list of its members in order, so that
the order in which names were introduced survives, and a number is either a whole number or a finite
binary fraction.
-/

namespace ObjectLang

/-- A number as JSON distinguishes them: written without point and exponent, or with. -/
inductive JsonNumber where
  | integer (n : Int)
  /-- A binary fraction, with a minus sign or without. -/
  | binary (negative : Bool) (magnitude : Binary)
deriving DecidableEq, Repr, Inhabited

/-- A JSON value. -/
inductive Json where
  | null
  | bool (b : Bool)
  | number (n : JsonNumber)
  | string (s : String)
  | array (items : List Json)
  /-- An object: its members in order. -/
  | object (members : List (String × Json))
deriving Inhabited

namespace JsonNumber

/-- The exact value of the number, as a decimal. -/
def toDecimal : JsonNumber → Decimal
  | .integer n => .ofInt n
  | .binary negative magnitude =>
    let d := magnitude.toDecimal
    if negative then ⟨-d.unscaled, d.scale⟩ else d

end JsonNumber

namespace Json

def ofInt (n : Int) : Json := .number (.integer n)

def ofNat (n : Nat) : Json := ofInt n

/-- An optional string; `null` where there is none. -/
def ofOption : Option String → Json
  | none => .null
  | some s => .string s

def ofStrings (ss : List String) : Json := .array (ss.map .string)

/-- The string, if the value is one. -/
def string? : Json → Option String
  | .string s => some s
  | _ => none

/-- The truth value, if the value is one. -/
def bool? : Json → Option Bool
  | .bool b => some b
  | _ => none

/-- The whole number, if the value is one. -/
def int? : Json → Option Int
  | .number (.integer n) => some n
  | _ => none

/-- The whole number, if the value is one that lies in `0, …, bound - 1`. -/
def natBelow? (bound : Nat) (j : Json) : Option Nat :=
  match j.int? with
  | some n => if 0 ≤ n ∧ n < bound then some n.toNat else none
  | none => none

/-- The items, if the value is an array. -/
def items? : Json → Option (List Json)
  | .array items => some items
  | _ => none

/-- The value of the member called `name`, if the value is an object with one. -/
def get? (j : Json) (name : String) : Option Json :=
  match j with
  | .object members => members.lookup name
  | _ => none

/-- A member's value is smaller than the object. -/
theorem sizeOf_lt_of_lookup {members : List (String × Json)} {name : String} {j : Json}
    (h : members.lookup name = some j) : sizeOf j < sizeOf (Json.object members) := by
  have key : sizeOf j < sizeOf members := by
    induction members with
    | nil => simp at h
    | cons head tail ih =>
      obtain ⟨k, v⟩ := head
      simp only [List.lookup_cons] at h
      split at h
      · simp at h; subst h; simp; omega
      · have := ih h; simp; omega
  simp; omega

/-- The value `null` is smaller than any object. -/
theorem sizeOf_null_lt (members : List (String × Json)) :
    sizeOf Json.null < sizeOf (Json.object members) := by
  rw [Json.null.sizeOf_spec, Json.object.sizeOf_spec]
  cases members with
  | nil => decide
  | cons head tail => rw [List.cons.sizeOf_spec]; omega

/-- An item is smaller than the array. -/
theorem sizeOf_lt_of_mem {items : List Json} {j : Json} (h : j ∈ items) :
    sizeOf j < sizeOf (Json.array items) := by
  have := List.sizeOf_lt_of_mem h
  simp; omega

end Json

end ObjectLang
