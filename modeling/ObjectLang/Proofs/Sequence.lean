import ObjectLang.Check.Checker
import ObjectLang.Proofs.Eval.Fuel

/-!
# Programs in parts

A program may be cut anywhere: its first part, followed by the rest if the first part succeeds, does
what the program does. This holds for running and for checking it, with every value, failure and
effect.

Running a program and running a block are both a matter of running statements one by one
(`Stmt.inTurn`). They differ in what a return does: it ends a block, and fails a program.
-/

namespace ObjectLang

/-- Runs statements one after another, each as a task of its own. After the last one it goes on with
that one's value as `ends` says, and after a return as `returns` says. -/
def Stmt.inTurn {α : Type} (c : Context) (ends returns : Value → EvalM α) (last : Value) :
    List Stmt → EvalM α
  | [] => ends last
  | s :: rest => do
    match ← s.run c with
    | .normal v => inTurn c ends returns v rest
    | .returned v => returns v

/-- The end of a program: a return has no call to end. -/
def Completion.ofProgram : Completion → EvalM Value
  | .normal v => return v
  | .returned _ => Eval.fail .returnOutsideFunction

namespace Eval

theorem balanced_stmt (n : Nat) (c : Context) (s : Stmt) : Balanced (stmt (call n) c s) :=
  have hcall := balanced_calls.call (Nat.le_refl n)
  @Treewise.sameStmt _ _ _ balanced_calls.treewise (call n) (call n) hcall c trivial s

/-- A statement leaves room for as many calls as it found, so the statements of a block may be run
one by one. -/
theorem stmts_eq_inTurn (c : Context) (last : Value) (body : List Stmt) (w : World) :
    stmts (call w.freeDepth) c last body w =
      Stmt.inTurn c (return Completion.normal ·) (return Completion.returned ·) last body w := by
  induction body generalizing last w with
  | nil => rfl
  | cons s rest ih =>
    rw [stmts, Stmt.inTurn, bind_run, bind_run, Stmt.run, withFreeDepth]
    have hsame := balanced_stmt w.freeDepth c s w
    cases hs : stmt (call w.freeDepth) c s w with
    | error e w' => rfl
    | ok completion w' =>
      rw [hs] at hsame
      cases completion with
      | returned v => rfl
      | normal v =>
        have hroom : w'.freeDepth = w.freeDepth := hsame.freeDepth_eq
        exact hroom ▸ ih v w'

end Eval

/-! ## Running -/

section

variable {α : Type} (c : Context) (ends returns : Value → EvalM α)

theorem Stmt.runAll_eq_inTurn (body : List Stmt) :
    Stmt.runAll c body =
      Stmt.inTurn c (return Completion.normal ·) (return Completion.returned ·) .nil body :=
  funext fun w => Eval.stmts_eq_inTurn c .nil body w

/-- What comes after statements may be done after their block has completed. -/
theorem Stmt.inTurn_eq_bind (last : Value) (body : List Stmt) :
    Stmt.inTurn c ends returns last body = (do
      match ←
        Stmt.inTurn c (return Completion.normal ·) (return Completion.returned ·) last body with
      | .normal v => ends v
      | .returned v => returns v) := by
  induction body generalizing last with
  | nil => rw [inTurn, inTurn, pure_bind]
  | cons s rest ih =>
    rw [inTurn, inTurn, bind_assoc]
    refine congrArg (s.run c >>= ·) (funext fun completion => ?_)
    cases completion with
    | normal v => exact ih v
    | returned v => rw [pure_bind]

theorem Stmt.inTurn_append (last : Value) (first second : List Stmt) :
    Stmt.inTurn c ends returns last (first ++ second) =
      Stmt.inTurn c (fun v => Stmt.inTurn c ends returns v second) returns last first := by
  induction first generalizing last with
  | nil => rfl
  | cons s rest ih =>
    rw [List.cons_append, inTurn, inTurn]
    refine congrArg (s.run c >>= ·) (funext fun completion => ?_)
    cases completion with
    | normal v => exact ih v
    | returned v => rfl

end

section

variable (c : Context)

/-- The value of the statements before matters only if there are no others. -/
theorem Stmt.inTurn_last (returns : Value → EvalM Value) (last : Value) (body : List Stmt) :
    Stmt.inTurn c pure returns last body = (do
      let v ← Stmt.inTurn c pure returns .nil body
      return if body.isEmpty then last else v) := by
  cases body with
  | nil => rfl
  | cons s rest => exact (bind_pure _).symm

/-- The loop over the statements of a program. -/
def Program.inTurn (last : Value) (body : List Stmt) : EvalM Value :=
  Stmt.inTurn c pure (fun _ => Eval.fail .returnOutsideFunction) last body

theorem Program.run_eq_bind (body : List Stmt) :
    Program.run c ⟨body⟩ = Stmt.runAll c body >>= Completion.ofProgram := by
  rw [Program.run]
  refine congrArg (Stmt.runAll c body >>= ·) (funext fun completion => ?_)
  cases completion <;> rfl

theorem Program.run_eq_inTurn (body : List Stmt) :
    Program.run c ⟨body⟩ = Program.inTurn c .nil body := by
  rw [run_eq_bind, Stmt.runAll_eq_inTurn, Program.inTurn, Stmt.inTurn_eq_bind c pure]
  refine congrArg (Stmt.inTurn c _ _ _ body >>= ·) (funext fun completion => ?_)
  cases completion <;> rfl

/-- A program that fails on a return does nothing more, so what comes after its statements may be
done after the program. -/
theorem Program.inTurn_bind (after : Value → EvalM Value) (last : Value) (body : List Stmt) :
    Stmt.inTurn c after (fun _ => Eval.fail .returnOutsideFunction) last body =
      Program.inTurn c last body >>= after := by
  rw [Program.inTurn, Stmt.inTurn_eq_bind c after, Stmt.inTurn_eq_bind c pure, bind_assoc]
  refine congrArg (Stmt.inTurn c _ _ _ body >>= ·) (funext fun completion => ?_)
  cases completion with
  | normal v => rw [pure_bind]
  | returned v => rfl

theorem Program.run_append (first second : List Stmt) :
    Program.run c ⟨first ++ second⟩ = (do
      let u ← Program.run c ⟨first⟩
      let v ← Program.run c ⟨second⟩
      return if second.isEmpty then u else v) := by
  calc Program.run c ⟨first ++ second⟩
      = Stmt.inTurn c (Program.inTurn c · second)
          (fun _ => Eval.fail .returnOutsideFunction) .nil first := by
        rw [run_eq_inTurn, Program.inTurn, Stmt.inTurn_append]
        rfl
    _ = Program.run c ⟨first⟩ >>= (Program.inTurn c · second) := by
        rw [inTurn_bind, run_eq_inTurn]
    _ = _ := by
        refine congrArg (Program.run c ⟨first⟩ >>= ·) (funext fun u => ?_)
        rw [Program.inTurn, Stmt.inTurn_last, run_eq_inTurn, Program.inTurn]

end

/-! ## Checking -/

namespace Check

theorem stmts_eq_mapM (f : FrameId) (body : List Stmt) : stmts f body = body.mapM (stmt f) := by
  induction body with
  | nil => rw [stmts, List.mapM_nil]
  | cons s rest ih => rw [stmts, List.mapM_cons, ih]

theorem program_eq_mapM (f : FrameId) (body : List Stmt) :
    program f ⟨body⟩ = TypedProgram.mk <$> body.mapM (stmt f) := by
  rw [program, stmts_eq_mapM, map_eq_pure_bind]

theorem program_append (f : FrameId) (first second : List Stmt) :
    program f ⟨first ++ second⟩ = (do
      let a ← program f ⟨first⟩
      let b ← program f ⟨second⟩
      return ⟨a.statements ++ b.statements⟩) := by
  simp only [program, stmts_eq_mapM, List.mapM_append, bind_assoc, pure_bind]

end Check

/-! ## A unit in parts -/

/-- Splitting a unit changes nothing: a program is its first part and then, if that succeeds, the
rest. A program and a block are the same statements one by one, where a return ends the block and
fails the program. -/
theorem unit_in_parts (c : Context) (f : FrameId) (first second : List Stmt) :
    (Program.run c ⟨first ++ second⟩ = do
      let u ← Program.run c ⟨first⟩
      let v ← Program.run c ⟨second⟩
      return if second.isEmpty then u else v) ∧
    (Check.program f ⟨first ++ second⟩ = do
      let a ← Check.program f ⟨first⟩
      let b ← Check.program f ⟨second⟩
      return ⟨a.statements ++ b.statements⟩) ∧
    (∀ body, Program.run c ⟨body⟩ =
      Stmt.inTurn c pure (fun _ => Eval.fail .returnOutsideFunction) .nil body) ∧
    (∀ body, Stmt.runAll c body =
      Stmt.inTurn c (return Completion.normal ·) (return Completion.returned ·) .nil body) ∧
    (∀ body, Program.run c ⟨body⟩ = Stmt.runAll c body >>= Completion.ofProgram) ∧
    (∀ body, Check.program f ⟨body⟩ = TypedProgram.mk <$> body.mapM (Check.stmt f)) :=
  ⟨Program.run_append c first second, Check.program_append f first second,
    Program.run_eq_inTurn c, Stmt.runAll_eq_inTurn c, Program.run_eq_bind c,
    Check.program_eq_mapM f⟩

end ObjectLang
