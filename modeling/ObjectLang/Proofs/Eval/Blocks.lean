import ObjectLang.Proofs.Eval.Entry
import ObjectLang.Typed.Basic

/-!
# Blocks of a run

A run works on blocks. It starts in the block of the program, goes on to the rest of a block when a
statement completes, and opens the blocks of branches and loops on the way. `Reaches` follows it:
the blocks that a run reaches are those whose first statement it runs. Every block is taken together
with the typed statements that the checker made of it.
-/

namespace ObjectLang

namespace Eval

variable {invoke : Invoke} {c : Context}

/-- What a branch does before its block: it tests the condition and opens the frame of the block. -/
def enterBranch (invoke : Invoke) (c : Context) (condition : Expr) : EvalM (Bool × FrameId) := do
  tick c.meter
  let v ← expr invoke c condition
  let holds ← result v.truth
  let frame ← newFrame c.frame
  return (holds, frame)

/-- What a loop does before its iterations: it finds the items. -/
def loopItems (invoke : Invoke) (c : Context) (items : Expr) : EvalM (List Value) := do
  tick c.meter
  let v ← expr invoke c items
  itemsOf v

/-- What an iteration does before its block: it opens the frame of the block and binds the item. -/
def enterIteration (c : Context) (name : String) (item : Value) : EvalM FrameId := do
  let frame ← newFrame c.frame
  define frame name item
  return frame

/-- One iteration of a loop. -/
def iteration (invoke : Invoke) (c : Context) (name : String) (body : List Stmt) (item : Value) :
    EvalM Completion := do
  let frame ← enterIteration c name item
  stmts invoke { c with frame := frame } .nil body

/-- A branch enters a block and runs it. -/
theorem stmt_branch (condition : Expr) (thenBody elseBody : List Stmt) :
    stmt invoke c (.branch condition thenBody elseBody) = (do
      let entered ← enterBranch invoke c condition
      stmts invoke { c with frame := entered.2 } .nil
        (if entered.1 then thenBody else elseBody)) := by
  rw [stmt, enterBranch]
  simp only [bind_assoc, pure_bind]
  refine congrArg (tick c.meter >>= ·) (funext fun _ => ?_)
  refine congrArg (expr invoke c condition >>= ·) (funext fun v => ?_)
  refine congrArg (result v.truth >>= ·) (funext fun holds => ?_)
  refine congrArg (newFrame c.frame >>= ·) (funext fun frame => ?_)
  cases holds <;> rfl

/-- A loop finds its items and runs one iteration after another. -/
theorem stmt_forEach (name : String) (items : Expr) (body : List Stmt) :
    stmt invoke c (.forEach name items body) = (do
      let values ← loopItems invoke c items
      forEach (iteration invoke c name body) values) := by
  have hiteration : iteration invoke c name body = fun item => (do
      let frame ← newFrame c.frame
      define frame name item
      stmts invoke { c with frame := frame } .nil body) := by
    funext item
    rw [iteration, enterIteration]
    simp only [bind_assoc, pure_bind]
  rw [stmt, loopItems, hiteration]
  simp only [bind_assoc]

end Eval

/-- A block that is about to be run. -/
structure Block where
  /-- Where it is run. -/
  context : Context
  /-- Its statements. -/
  body : List Stmt
  /-- What the checker made of its statements. -/
  typed : List TypedStmt
  /-- The world before its first statement. -/
  world : World

/-- The blocks that are run when `start` is run. -/
inductive Block.Reaches (invoke : Eval.Invoke) (start : Block) : Block → Prop where
  /-- The block itself. -/
  | start : Reaches invoke start start
  /-- The rest of a block, after its first statement has completed. -/
  | next {c : Context} {s : Stmt} {rest : List Stmt} {t : TypedStmt} {trest : List TypedStmt}
      {w w' : World} {v : Value} :
      Reaches invoke start ⟨c, s :: rest, t :: trest, w⟩ →
      Eval.stmt invoke c s w = .ok (.normal v) w' → Reaches invoke start ⟨c, rest, trest, w'⟩
  /-- The first block of a branch, if the condition holds. -/
  | thenBlock {c : Context} {condition : Expr} {thenBody elseBody rest : List Stmt}
      {tcondition : TypedExpr} {tthen telse trest : List TypedStmt} {w w' : World}
      {frame : FrameId} :
      Reaches invoke start ⟨c, .branch condition thenBody elseBody :: rest,
        .branch tcondition tthen telse :: trest, w⟩ →
      Eval.enterBranch invoke c condition w = .ok (true, frame) w' →
      Reaches invoke start ⟨{ c with frame := frame }, thenBody, tthen, w'⟩
  /-- The second block of a branch, if the condition does not hold. -/
  | elseBlock {c : Context} {condition : Expr} {thenBody elseBody rest : List Stmt}
      {tcondition : TypedExpr} {tthen telse trest : List TypedStmt} {w w' : World}
      {frame : FrameId} :
      Reaches invoke start ⟨c, .branch condition thenBody elseBody :: rest,
        .branch tcondition tthen telse :: trest, w⟩ →
      Eval.enterBranch invoke c condition w = .ok (false, frame) w' →
      Reaches invoke start ⟨{ c with frame := frame }, elseBody, telse, w'⟩
  /-- The block of a loop, for an item that comes after the iterations for `done`. -/
  | iteration {c : Context} {name : String} {items : Expr} {body rest : List Stmt} {ty : Ty}
      {titems : TypedExpr} {tbody trest : List TypedStmt} {w w₁ w₂ w₃ : World}
      {done remaining : List Value} {item v : Value} {frame : FrameId} :
      Reaches invoke start ⟨c, .forEach name items body :: rest,
        .forEach name ty titems tbody :: trest, w⟩ →
      Eval.loopItems invoke c items w = .ok (done ++ item :: remaining) w₁ →
      Eval.forEach (Eval.iteration invoke c name body) done w₁ = .ok (.normal v) w₂ →
      Eval.enterIteration c name item w₂ = .ok frame w₃ →
      Reaches invoke start ⟨{ c with frame := frame }, body, tbody, w₃⟩

end ObjectLang
