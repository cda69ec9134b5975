import ObjectLang.Proofs.Acyclicity
import ObjectLang.Proofs.Check.Trace
import ObjectLang.Proofs.Eval.Trace
import ObjectLang.Proofs.Tasks

/-!
# The shape of objects

An object has the members that its literal lists, and no others, for as long as a session lasts: the
fields first and then the methods, in the order of the literal. While the members are being filled
their frame is the one that names go into, closures and other objects may hold on to it, and it is
changed later on. But names are added to it by nothing but the literal. The type that the checker
gives to the literal has the same members.
-/

namespace ObjectLang

/-! ## Sessions -/

/-- Performs a task, with a bound on the calls inside of each other, and keeps a list of the moments.
-/
def Task.traced (n : Nat) (c : Context) : Task → Eval.Traced.Run Completion
  | .program p => do
    match ← Eval.Traced.stmts (Eval.Traced.call n) c .nil p.statements with
    | .normal v => return .normal v
    | .returned _ => TraceM.step (Eval.fail .returnOutsideFunction)
  | .stmt s => Eval.Traced.stmt (Eval.Traced.call n) c s
  | .expr e => return .normal (← Eval.Traced.expr (Eval.Traced.call n) c e)

namespace Eval

theorem tracked_task (n : Nat) (c : Context) (task : Task) :
    Tracked (some c.frame) (task.traced n c) (task.performFueled n c) := by
  have hstmts := Traced.tracked_stmts (call_confined n) (Traced.tracked_call n) c .nil
  have hexpr := Traced.tracked_expr (call_confined n) (Traced.tracked_call n) c
  have hstmt := Traced.tracked_stmt (call_confined n) (Traced.tracked_call n) c
  cases task with
  | program p =>
    have heq : (Task.program p).performFueled n c =
        stmts (call n) c .nil p.statements >>= fun completion =>
          match completion with
          | .normal v => pure (.normal v)
          | .returned _ => fail .returnOutsideFunction := by
      rw [Task.performFueled, Program.runFueled, bind_assoc]
      refine congrArg (stmts (call n) c .nil p.statements >>= ·) (funext fun completion => ?_)
      cases completion <;> rfl
    rw [heq]
    refine .bind (hstmts p.statements) fun completion => ?_
    cases completion with
    | normal v => exact .pure _
    | returned v => exact (confined.fail _ id).tracked.weaken _
  | stmt s => exact hstmt s
  | expr e => exact .bind ((hexpr e).weaken _) fun v => .pure _

namespace Traced

/-- The tasks of one evaluator, one after another. -/
def session (c : Context) (tasks : List Task) (r : Trace Event World) : Trace Event World :=
  tasks.foldl (fun r task => (task.traced r.state.freeDepth c r).state) r

/-- A traced session goes as the plain one. -/
theorem state_session (c : Context) (tasks : List Task) (r : Trace Event World) :
    (session c tasks r).state = tasks.foldl (fun w task => (task.perform c w).state) r.state := by
  induction tasks generalizing r with
  | nil => rfl
  | cons task rest ih =>
    rw [session, List.foldl_cons, List.foldl_cons, task.perform_run,
      ← (tracked_task r.state.freeDepth c task).follows.state_eq r]
    exact ih _

theorem session_advances {c : Context} {r : Trace Event World}
    (hr : r.Holds fun e w => e.Lasts w.store) (hopens : r.Opens World.store Event.place (some c.frame))
    (tasks : List Task) :
    r.Advances World.store Prod.fst Event.place Event.Lasts (some c.frame) (session c tasks r) := by
  induction tasks generalizing r with
  | nil => exact .refl hr
  | cons task rest ih =>
    have htask := (tracked_task r.state.freeDepth c task).advances r hr hopens
    exact htask.trans (ih htask.holds (htask.opens hopens))

end Traced

end Eval

namespace Check.Traced

/-- The checks of programs in one frame, one after another. -/
def session (f : FrameId) (units : List Program) (r : Trace Event (Store Ty)) :
    Trace Event (Store Ty) :=
  units.foldl (fun r p => (program f p r).state) r

/-- A traced session goes as the plain one. -/
theorem state_session (f : FrameId) (units : List Program) (r : Trace Event (Store Ty)) :
    (session f units r).state = (Check.session f units r.state).2 := by
  induction units generalizing r with
  | nil => rfl
  | cons p rest ih =>
    have hrest := ih (program f p r).state
    rw [(tracked_program f p).follows.state_eq r] at hrest
    rw [session, List.foldl_cons, Check.session]
    cases h : Check.program f p r.state <;> rw [h] at hrest <;> exact hrest

theorem session_advances {f : FrameId} {r : Trace Event (Store Ty)} (hr : r.Holds Event.Lasts)
    (hopens : r.Opens id Event.place (some f)) (units : List Program) :
    r.Advances id id Event.place Event.Lasts (some f) (session f units r) := by
  induction units generalizing r with
  | nil => exact .refl hr
  | cons p rest ih =>
    have hp := (tracked_program f p).advances r hr hopens
    exact hp.trans (ih hp.holds (hp.opens hopens))

end Check.Traced

/-! ## The shape of objects -/

/-- Whenever an object literal has been evaluated, the frame of members has the names of the fields
and of the methods in their order, all of them different, and has them from then on, in all that an
evaluator does. Whenever the checker has accepted an object literal, the frame of its type has no
parent and the same names, bound to the types of the fields and of the methods, and stays as it is
in all checks to come. -/
theorem object_shape_lasts {c : Context} {w : World} (hc : c.frame < w.store.size)
    (tasks : List Task) {f : FrameId} {s : Store Ty} (hf : f < s.size) (units : List Program) :
    (∀ fields methods members,
      Since (Eval.Traced.session c tasks ⟨w, []⟩).past (.built fields methods members) fun w =>
        w.store.Lists members (fields.map (·.name) ++ methods.map (·.name))) ∧
    (∀ fields methods tfields tmethods members,
      Since (Check.Traced.session f units ⟨s, []⟩).past
        (.built fields methods tfields tmethods members) fun s =>
        s.Lists members (fields.map (·.name) ++ methods.map (·.name)) ∧
        s.parent? members = none ∧ s.bindings members = memberBindings tfields tmethods) := by
  constructor
  · intro fields methods members
    have hrun := Eval.Traced.session_advances (.nil _ w) (.start hc) tasks
    exact hrun.holds.lasting.since (.built fields methods members)
  · intro fields methods tfields tmethods members
    have hcheck := Check.Traced.session_advances (.nil _ s) (.start hf) units
    intro later m earlier hpast he m' hm'
    obtain ⟨hlists, hparent, hbindings⟩ :=
      hcheck.holds.lasting.since (.built fields methods tfields tmethods members)
        later m earlier hpast he m' hm'
    exact ⟨hlists, hparent, hbindings⟩

/-- A program that makes an object with another object in a field. The method of the inner object
holds on to the frame of the outer members, and assigns to one of them. -/
def sharing : Program :=
  ⟨[.declare ⟨"n", none, some (.literal (.integer 0))⟩,
    .declare ⟨"o", none, some (.object none
      [⟨"n", none, some (.literal (.integer 1))⟩,
       ⟨"inner", none, some (.object none []
        [⟨"bump", [], none, [.assign (.variable "n") (.literal (.integer 2))]⟩])⟩]
      [⟨"m", [], none, [.ret (some (.property (.variable thisName) "n"))]⟩])⟩,
    .assign (.property (.variable "o") "n") (.literal (.integer 3)),
    .expression (.method (.property (.variable "o") "inner") "bump" [])]⟩

/-- When the program is run and checked, the frame 3 gets the members of the inner object, and the
frame 2 those of the outer one. -/
theorem object_shape_lasts_sharing :
    let c : Context := ⟨1, 0⟩
    let w := isolatedWorld.withMeter {}
    let run := Eval.Traced.session c [.program sharing] ⟨w, []⟩
    let check := Check.Traced.session 1 [sharing] ⟨isolatedTypes, []⟩
    c.frame < w.store.size ∧ 1 < isolatedTypes.size ∧
    (events run.past).map Eval.Event.place = [none, some 2, none, some 3, none] ∧
    (events check.past).map Check.Event.place = [some 2, some 3] ∧
    (∀ fields methods members, Since run.past (.built fields methods members) fun w =>
      w.store.Lists members (fields.map (·.name) ++ methods.map (·.name))) ∧
    (∀ fields methods tfields tmethods members,
      Since check.past (.built fields methods tfields tmethods members) fun s =>
        s.Lists members (fields.map (·.name) ++ methods.map (·.name)) ∧
        s.parent? members = none ∧ s.bindings members = memberBindings tfields tmethods) := by
  refine ⟨by decide, by decide, by decide +kernel, by decide +kernel, ?_⟩
  exact object_shape_lasts (by decide) [.program sharing] (by decide) [sharing]

end ObjectLang
