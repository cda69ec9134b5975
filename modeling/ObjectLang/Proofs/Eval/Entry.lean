import ObjectLang.Eval.Run
import ObjectLang.Proofs.Outcome
import ObjectLang.Proofs.Program.Scoped

/-!
# What calls and programs run

Equations for the parts of the evaluator that are not read off a tree: assignments to what is no
target, calls, and programs with a meter of their own. What is printed of a value depends on the
frames of the world and the names of its functions only. -/

namespace ObjectLang

/-- Whether an expression can be assigned to. -/
def Expr.IsTarget : Expr → Prop
  | .variable _ | .property _ _ => True
  | _ => False

theorem Eval.stmt_assign_of_not_isTarget {invoke : Invoke} {c : Context} {target value : Expr}
    (h : ¬ target.IsTarget) :
    stmt invoke c (.assign target value) =
      (do tick c.meter; fail .invalidAssignmentTarget) :=
  match target, h with
  | .variable _, h | .property _ _, h => absurd trivial h
  | .literal _, _ | .group _, _ | .binary _ _ _, _ | .call _ _, _ | .method _ _ _, _
  | .object _ _ _, _ => rfl

/-! ## Frames -/

/-- The world after a frame was opened below `p`. -/
def World.opened (w : World) (p : FrameId) : World :=
  { w with store := (w.store.newFrame (some p)).2 }

theorem Eval.newFrame_run (p : FrameId) (w : World) :
    newFrame p w = .ok w.store.size (w.opened p) := rfl

theorem World.size_opened (w : World) (p : FrameId) :
    (w.opened p).store.size = w.store.size + 1 :=
  w.store.size_newFrame _

theorem World.lt_size_opened (w : World) (p : FrameId) :
    w.store.size < (w.opened p).store.size := by
  rw [size_opened]
  exact Nat.lt_succ_self _

/-! ## Functions -/

/-- The world in which there is one more function. -/
def World.withFunction (w : World) (function : Function) : World :=
  { w with functions := w.functions.push function }

theorem World.function_of_lt {w : World} {id : FunctionId} (h : id < w.functions.size) :
    w.function id = w.functions[id] := by
  rw [World.function, Array.getD_eq_getD_getElem?, Array.getElem?_eq_getElem h, Option.getD_some]

theorem World.function_of_size_le {w : World} {id : FunctionId} (h : w.functions.size ≤ id) :
    w.function id = default := by
  rw [World.function, Array.getD_eq_getD_getElem?, Array.getElem?_eq_none h, Option.getD_none]

theorem World.function_withFunction (w : World) (function : Function) (id : FunctionId) :
    (w.withFunction function).function id =
      if id = w.functions.size then function else w.function id := by
  simp only [World.function, withFunction, Array.getD_eq_getD_getElem?, Array.getElem?_push]
  split
  · rfl
  · rfl

/-- The function that a definition makes. -/
def Definition.function (d : Definition) (captured : FrameId) (m : MeterId) (isMethod : Bool) :
    Function :=
  ⟨d.name, .closure ⟨d.parameters.map (·.name), d.body, captured, m, isMethod⟩⟩

theorem Eval.newClosure_of_repeated {c : Context} {d : Definition} {captured : FrameId}
    {isMethod : Bool} {name : String} (w : World)
    (h : firstRepeated? [] (d.parameters.map (·.name)) = some name) :
    newClosure c d captured isMethod w = .error (.error (.duplicateParameter name)) w := by
  rw [newClosure, h]
  rfl

theorem Eval.newClosure_of_distinct {c : Context} {d : Definition} {captured : FrameId}
    {isMethod : Bool} (w : World) (h : firstRepeated? [] (d.parameters.map (·.name)) = none) :
    newClosure c d captured isMethod w =
      .ok w.functions.size (w.withFunction (d.function captured c.meter isMethod)) := by
  rw [newClosure, h]
  rfl

/-! ## Calls -/

namespace Eval

/-- What a call of a defined function runs while it counts as active. -/
def runBody : Nat → Closure → List Value → EvalM Value
  | 0, _, _ => throw .outOfFuel
  | fuel + 1, c, arguments => do
    let frame ← newFrame c.captured
    defineAll frame (c.bindings.zip arguments)
    let completion ← stmts (call fuel) ⟨frame, c.meter⟩ .nil c.body
    return completion.result

/-- What a call of a function does once the function is found. -/
def applyFunction (fuel : Nat) (function : Function) (arguments : List Value) : EvalM Value :=
  match function.code with
  | .host f => host function.name f arguments
  | .closure c => do
    requireArguments function.name c.bindings arguments
    withCall c.meter (runBody fuel c arguments)

theorem call_eq (fuel : Nat) (id : FunctionId) (arguments : List Value) :
    call fuel id arguments = get >>= fun w => applyFunction fuel (w.function id) arguments := by
  rw [call.eq_def]
  refine congrArg (get >>= ·) (funext fun w => ?_)
  obtain ⟨name, code⟩ := w.function id
  cases code with
  | host f => rfl
  | closure c => cases fuel <;> rfl

end Eval

/-! ## Programs -/

/-- Runs a program with a bound on the calls inside of each other. -/
def Program.runFueled (fuel : Nat) (c : Context) (p : Program) : EvalM Value := do
  match ← Eval.stmts (Eval.call fuel) c .nil p.statements with
  | .normal v => return v
  | .returned _ => Eval.fail .returnOutsideFunction

theorem Program.run_eq (c : Context) (p : Program) (w : World) :
    p.run c w = p.runFueled w.freeDepth c w := rfl

/-- Runs a program in a frame, with a meter of its own and the given limits. -/
def Program.runWith (limits : Limits) (frame : FrameId) (p : Program) : EvalM Value := do
  let c ← Context.new frame limits
  p.run c

/-- The world in which there is one more meter. -/
def World.withMeter (w : World) (limits : Limits) : World :=
  { w with meters := w.meters.push { limits := limits } }

theorem Meter.freeDepthOf_concat (l : List Meter) (m : Meter) :
    freeDepthOf (l ++ [m]) = freeDepthOf l + m.freeDepth := by
  induction l with
  | nil => simp [freeDepthOf]
  | cons a l ih => simp only [List.cons_append, freeDepthOf, ih, Nat.add_assoc]

theorem World.freeDepth_withMeter (w : World) (limits : Limits) :
    (w.withMeter limits).freeDepth = w.freeDepth + limits.depth := by
  rw [freeDepth, freeDepth, withMeter, Array.toList_push, Meter.freeDepthOf_concat,
    Meter.freeDepth, Nat.sub_zero]

theorem Program.runWith_eq (limits : Limits) (frame : FrameId) (p : Program) (w : World) :
    p.runWith limits frame w =
      p.runFueled (w.freeDepth + limits.depth) ⟨frame, w.meters.size⟩ (w.withMeter limits) := by
  have hrun : p.runWith limits frame w = p.run ⟨frame, w.meters.size⟩ (w.withMeter limits) := rfl
  rw [hrun, run_eq, World.freeDepth_withMeter]

/-! ## Printing -/

/-- The text of an object depends on the frames and the names of the functions only. -/
theorem World.objectText_congr {w w' : World} (hs : w.store = w'.store)
    (hname : w.functionName = w'.functionName) : w.objectText = w'.objectText := by
  funext depth
  induction depth with
  | zero =>
    funext opened name members
    rw [World.objectText, World.objectText]
  | succ depth ih =>
    funext opened name members
    rw [World.objectText, World.objectText, hs, hname, ih]

/-- The text of a value depends on the frames and the names of the functions only. -/
theorem World.print_congr {w w' : World} (hs : w.store = w'.store)
    (hname : w.functionName = w'.functionName) : w.print = w'.print := by
  funext v
  rw [World.print, World.print, hs, hname, World.objectText_congr hs hname]

end ObjectLang
