import ObjectLang.Check.Checker
import ObjectLang.Proofs.Eval.Entry

/-!
# Programs on their own

A program that is checked and run on its own stands in a new frame below the root, in a store that
holds nothing else. The root binds what every program can use. -/

namespace ObjectLang

/-- Checks a program in a new frame below a new root frame. -/
def Program.checkIsolated (p : Program) : CheckM TypedProgram := do
  let root ← Check.rootFrame
  let frame ← Check.newFrame (some root)
  Check.program frame p

/-- Runs a program in a new frame below a new environment, under the given limits. -/
def Program.runIsolated (limits : Limits) (p : Program) : EvalM Value := do
  let root ← Eval.environment
  let frame ← Eval.newFrame root
  p.runWith limits frame

/-- The type frames in which a program on its own is checked. -/
def isolatedTypes : Store Ty := ((Check.rootFrame .empty).state.newFrame (some 0)).2

/-- The world in which a program on its own is run. -/
def isolatedWorld : World :=
  { (Eval.environment {}).state with
    store := ((Eval.environment {}).state.store.newFrame (some 0)).2 }

theorem Program.checkIsolated_eq (p : Program) :
    p.checkIsolated .empty = Check.program 1 p isolatedTypes := rfl

theorem Program.runIsolated_eq (limits : Limits) (p : Program) :
    p.runIsolated limits {} = p.runWith limits 1 isolatedWorld := rfl

end ObjectLang
