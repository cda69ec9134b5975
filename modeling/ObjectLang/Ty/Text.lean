import ObjectLang.Json.Basic
import ObjectLang.Ty.Basic

/-!
# Written forms of a type

A type is shown to people by `Ty.text` and written to other programs by `Ty.toJson`. Both forms
list the members of an object type, and so need the store in which the members are kept. Object
types do not contain themselves, so nesting is at most as deep as there are frames; beyond that
depth members are left out.
-/

namespace ObjectLang

namespace Ty

mutual

/-- The text of a type, given the text of each object type. -/
def textWith (object : FrameId → String) : Ty → String
  | .any => "Any"
  | .nil => "Nil"
  | .boolean => "Boolean"
  | .integer => "Integer"
  | .decimal => "Decimal"
  | .string => "String"
  | .comparable => "Comparable"
  | .equatable => "Equatable"
  | .iterable => "Iterable"
  | .function params returns =>
    "Function(" ++ ", ".intercalate (textsWith object params) ++ ") -> " ++ textWith object returns
  | .object members => object members

/-- The texts of a list of types. -/
def textsWith (object : FrameId → String) : List Ty → List String
  | [] => []
  | t :: rest => textWith object t :: textsWith object rest

end

/-- The text of an object type, whose members may nest `depth` more levels. -/
def objectText (types : Store Ty) : Nat → FrameId → String
  | depth, members =>
    match types.bindings members, depth with
    | [], _ => "Object \x7b\x7d"
    | _, 0 => "Object \x7b ... \x7d"
    | bindings, depth + 1 =>
      let texts := bindings.map fun b => b.1 ++ ": " ++ textWith (objectText types depth) b.2
      "Object \x7b " ++ ", ".intercalate texts ++ " \x7d"

/-- The type as people read it. -/
def text (types : Store Ty) (t : Ty) : String := t.textWith (objectText types types.size)

mutual

/-- The type as JSON, given the form of each object type. -/
def jsonWith (object : FrameId → Json) : Ty → Json
  | .any => .string "Any"
  | .nil => .string "Nil"
  | .boolean => .string "Boolean"
  | .integer => .string "Integer"
  | .decimal => .string "Decimal"
  | .string => .string "String"
  | .comparable => .string "Comparable"
  | .equatable => .string "Equatable"
  | .iterable => .string "Iterable"
  | .function params returns =>
    .object [("params", .array (jsonsWith object params)), ("returns", jsonWith object returns)]
  | .object members => object members

/-- The JSON of a list of types. -/
def jsonsWith (object : FrameId → Json) : List Ty → List Json
  | [] => []
  | t :: rest => jsonWith object t :: jsonsWith object rest

end

/-- The JSON of an object type, whose members may nest `depth` more levels. -/
def objectJson (types : Store Ty) : Nat → FrameId → Json
  | 0, _ => .object [("members", .object [])]
  | depth + 1, members =>
    let entries := (types.bindings members).map fun b =>
      (b.1, jsonWith (objectJson types depth) b.2)
    .object [("members", .object entries)]

def toJson (types : Store Ty) (t : Ty) : Json := t.jsonWith (objectJson types types.size)

end Ty

end ObjectLang
