import ObjectLang.Decimal.Text
import ObjectLang.Eval.World
import ObjectLang.Scope.Text

/-!
# The text of a value

Every value has a text. Concatenation uses it, and so do the functions that print. An object shows
its members, and since members may lead back to the object, an object that is already being shown
is cut short: `World.print` keeps the frames of the objects that are open on the way from the root
to the current value. Every open frame is a different one, so there are never more of them than
there are frames.
-/

namespace ObjectLang

namespace Value

mutual

/-- The text of a value, given the names of functions and the text of each object. -/
def textWith (functionName : FunctionId → String) (object : Option String → FrameId → String) :
    Value → String
  | .nil => "NIL"
  | .boolean value => if value then "TRUE" else "FALSE"
  | .integer value => toString value
  | .decimal value => value.text
  | .string value => value
  | .list items => "[" ++ ", ".intercalate (textsWith functionName object items) ++ "]"
  | .function id => "DEF " ++ functionName id ++ "(?) DO ? END"
  | .object name members => object name members

/-- The texts of a list of values. -/
def textsWith (functionName : FunctionId → String) (object : Option String → FrameId → String) :
    List Value → List String
  | [] => []
  | v :: rest => textWith functionName object v :: textsWith functionName object rest

end

end Value

namespace World

def functionName (w : World) (id : FunctionId) : String := (w.function id).name

/-- How the text of an object starts. -/
def objectHead : Option String → String
  | none => "Object"
  | some name => "Object(" ++ name ++ ")"

/-- The text of an object that stands inside of the objects with the frames `opened`. At most
`depth` more objects are opened. -/
def objectText (w : World) : Nat → List FrameId → Option String → FrameId → String
  | 0, _, name, _ => objectHead name ++ " \x7b ... \x7d"
  | depth + 1, opened, name, members =>
    if members ∈ opened then objectHead name ++ " \x7b ... \x7d"
    else
      let texts := (w.store.bindings members).map fun b =>
        b.1 ++ " = `" ++
          b.2.textWith w.functionName (w.objectText depth (members :: opened)) ++ "`"
      if texts.isEmpty then objectHead name ++ " \x7b\x7d"
      else objectHead name ++ " \x7b " ++ ", ".intercalate texts ++ " \x7d"

def print (w : World) (v : Value) : String :=
  v.textWith w.functionName (w.objectText (w.store.size + 1) [])

/-! ## For hosts -/

mutual

/-- The structure of a value, as a host inspects it. -/
def describe (w : World) : Value → String
  | .nil => "Primitive(Nil)"
  | .boolean value => "Primitive(Boolean(" ++ (if value then "true" else "false") ++ "))"
  | .integer value => "Primitive(Integer(" ++ toString value ++ "))"
  | .decimal value => "Primitive(Decimal(" ++ value.text ++ "))"
  | .string value => "Primitive(String(" ++ quoted value ++ "))"
  | .list items => "Primitive(List([" ++ ", ".intercalate (w.describeAll items) ++ "]))"
  | .function id => "Function(" ++ w.functionName id ++ ")"
  | .object name members =>
    let name := name.elim "None" fun name => "Some(" ++ quoted name ++ ")"
    "Object \x7b name: " ++ name ++ ", members: " ++ w.store.describe members ++ " \x7d"

/-- The structures of a list of values. -/
def describeAll (w : World) : List Value → List String
  | [] => []
  | v :: rest => w.describe v :: w.describeAll rest

end

end World

end ObjectLang
