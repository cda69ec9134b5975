import ObjectLang.Eval.Host
import ObjectLang.Eval.Tree

/-!
# Calls

A call of a defined function runs the function's statements in a new frame inside of the one that
the function remembers, whatever the frame of the caller. The new frame binds the receiver of a
method and the parameters. The result is what the statements return, and empty if they do not
return.

Calls nest, and the number of levels is bounded: every active call of a defined function uses up
one of the calls that its meter allows. So `Eval.call` recurses on a bound of its own, and a bound
of `World.freeDepth` levels is never used up.
-/

namespace ObjectLang

/-- The result of a call whose statements completed in this way. -/
def Completion.result : Completion → Value
  | .normal _ => .nil
  | .returned v => v

namespace Eval

/-- Succeeds if a call has as many arguments as the function binds. -/
def requireArguments (name : String) (bindings : List String) (arguments : List Value) :
    EvalM Unit :=
  if arguments.length = bindings.length then return ()
  else fail (.wrongArgumentCount name bindings.length arguments.length)

/-- Runs a function on its arguments, with at most `fuel` calls of defined functions inside of each
other. -/
def call (fuel : Nat) (id : FunctionId) (arguments : List Value) : EvalM Value := do
  let function := (← get).function id
  match function.code with
  | .host f => host function.name f arguments
  | .closure c =>
    requireArguments function.name c.bindings arguments
    withCall c.meter do
      match fuel with
      | 0 => throw .outOfFuel
      | fuel + 1 =>
        let frame ← newFrame c.captured
        defineAll frame (c.bindings.zip arguments)
        let completion ← stmts (call fuel) ⟨frame, c.meter⟩ .nil c.body
        return completion.result

/-- Runs `body` with as many levels of calls as the meters of the world allow. -/
def withFreeDepth {α : Type} (body : Nat → EvalM α) : EvalM α := fun w => body w.freeDepth w

end Eval

end ObjectLang
