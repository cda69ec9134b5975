import ObjectLang.Eval.Call

/-!
# Running programs

The entry points of the evaluator. A host makes a world with the functions that every program can
use, opens a frame, makes a context with limits, and then runs programs, statements and
expressions in that context. Each of them leaves the world as far as it got, whether it succeeds or
fails.
-/

namespace ObjectLang

/-- Makes a context in a frame, with a meter of its own. -/
def Context.new (frame : FrameId) (limits : Limits) : EvalM Context :=
  modifyGet fun w =>
    (⟨frame, w.meters.size⟩, { w with meters := w.meters.push { limits := limits } })

/-- How many steps were charged to the context's meter. -/
def Context.gasUsed (c : Context) (w : World) : Nat := (w.meter c.meter).gas

def Expr.eval (c : Context) (e : Expr) : EvalM Value :=
  Eval.withFreeDepth fun fuel => Eval.expr (Eval.call fuel) c e

def Stmt.run (c : Context) (s : Stmt) : EvalM Completion :=
  Eval.withFreeDepth fun fuel => Eval.stmt (Eval.call fuel) c s

/-- Runs statements in the frame of the context, one after another until one returns. -/
def Stmt.runAll (c : Context) (body : List Stmt) : EvalM Completion :=
  Eval.withFreeDepth fun fuel => Eval.stmts (Eval.call fuel) c .nil body

def Value.callFunction (id : FunctionId) (arguments : List Value) : EvalM Value :=
  Eval.withFreeDepth fun fuel => Eval.call fuel id arguments

/-- Runs a program in the frame of the context. The value is that of the last statement; a return
has no call to end and is a failure. -/
def Program.run (c : Context) (p : Program) : EvalM Value := do
  match ← Stmt.runAll c p.statements with
  | .normal v => return v
  | .returned _ => Eval.fail .returnOutsideFunction

/-- Runs a program in a frame, with a meter of its own and the usual limits. -/
def Program.runFresh (frame : FrameId) (p : Program) : EvalM Value := do
  let c ← Context.new frame {}
  p.run c

end ObjectLang
