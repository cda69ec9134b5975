import ObjectLang.Eval.Step

/-!
# Host functions

What the functions that the host supplies do. They take no steps of their own and nest no calls,
so nothing of what they do is metered.
-/

namespace ObjectLang

/-- The whole numbers from `a` to `b`, both included; none if `b` is below `a`. -/
def integersBetween (a b : Int) : List Int :=
  (List.range (b + 1 - a).toNat).map fun (i : Nat) => a + i

namespace Eval

/-- The only argument of the function that is called `name`. -/
def oneArgument (name : String) : List Value → EvalM Value
  | [v] => return v
  | arguments => fail (.wrongArgumentCount name 1 arguments.length)

/-- Calls a host function that is called `name`. -/
def host (name : String) (f : HostFunction) (arguments : List Value) : EvalM Value :=
  match f with
  | .log => do
    let v ← oneArgument name arguments
    recordLogged v
    return v
  | .print => do
    let v ← oneArgument name arguments
    recordPrinted ((← get).print v)
    return .nil
  | .list => return .list arguments
  | .range =>
    match arguments with
    | [.integer a, .integer b] => return .list ((integersBetween a b).map .integer)
    | [a, b] =>
      fail (.hostFailure name
        s!"expected Integer bounds, found {a.kind.text} and {b.kind.text}")
    | _ => fail (.wrongArgumentCount name 2 arguments.length)
  | .nothing =>
    match arguments with
    | [] => return .nil
    | _ => fail (.wrongArgumentCount name 0 arguments.length)
  | .fail => do
    let v ← oneArgument name arguments
    fail (.hostFailure name ((← get).print v))
  | .count => return .integer arguments.length

def rootFrame : EvalM FrameId :=
  modifyGet fun w =>
    let (f, store) := w.store.newFrame none
    (f, { w with store := store })

/-- Binds a host function under a name. -/
def defineHost (f : FrameId) (name : String) (function : HostFunction) : EvalM Unit := do
  define f name (.function (← newFunction ⟨name, .host function⟩))

/-- Makes a frame without parent that binds the functions every program can use. -/
def environment : EvalM FrameId := do
  let f ← rootFrame
  defineHost f "log" .log
  defineHost f "print" .print
  defineHost f "list" .list
  defineHost f "range" .range
  return f

end Eval

end ObjectLang
