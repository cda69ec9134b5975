import ObjectLang.Proofs.Eval.CallSafety
import ObjectLang.Proofs.TypeSystem
import ObjectLang.Proofs.Typed.Sameness

/-!
# Calls and members of accepted programs

A program that the checker accepts may still call what is no function, or call a function with a
wrong number of arguments, or ask for a member that is not there. There are three ways to come by
this. A name may be bound again, nearer than where the checker found it, before a function that uses
it is run; a field may hide a name from the fields after it; and a method may be read from its
object, and then be called as a function or as a method of another object. A program is safe if
whatever its names mean then can be used as the checker allows.
-/

namespace ObjectLang

/-- An accepted program is well-typed, with the members that object types have in the end. -/
theorem Check.typesStmts_of_accepted {p : Program} {typed : TypedProgram} {types : Store Ty}
    (h : p.checkIsolated .empty = .ok typed types) :
    TypesStmts types.bindings [.block [], .block Ty.rootBindings] p.statements
      typed.statements := by
  rw [Program.checkIsolated_eq, program_run_iff] at h
  have hsees : Sees 0 ∅ isolatedTypes 1 :=
    ⟨Nat.zero_le _, by decide, fun _ ho => absurd ho (Set.notMem_empty _),
      fun _ ho => absurd ho (Set.notMem_empty _), closed_isolatedTypes ∅⟩
  have hscope : isolatedTypes.scope 0 1 = [.block [], .block Ty.rootBindings] := by
    have hparent : isolatedTypes.parent? 1 = some 0 := rfl
    have hroot : isolatedTypes.parent? 0 = none := rfl
    rw [Store.scope, Store.chain_eq, hparent, Option.elim_some, Store.chain_eq, hroot]
    rfl
  rw [← hscope]
  exact sound_stmts p.statements hsees (fun _ _ _ => rfl) h

/-! ## The plan of a program on its own -/

/-- What the frame of the functions binds that every program can use. -/
def rootPlan : Plan := (Store.newFrame .empty none).2.appendAll 0 rootSenses

/-- The plan for a program on its own that binds the given names. -/
def isolatedPlan (senses : Senses) : Plan := rootPlan.openWith 0 senses

section

variable {Δ : FrameId → List (String × Ty)} {ρ : Receivers} {senses : Senses}

theorem own?_isolatedPlan_root (name : String) :
    (isolatedPlan senses).own? 0 name = rootSenses.lookup name := by
  rw [Store.own?, isolatedPlan, Store.bindings_openWith]
  rfl

theorem bindings_isolatedPlan : (isolatedPlan senses).bindings 1 = senses := by
  rw [isolatedPlan, Store.bindings_openWith]
  rfl

theorem bindings_isolatedWorld_root (limits : Limits) :
    (isolatedWorld.withMeter limits).store.bindings 0 =
      [("log", .function 0), ("print", .function 1), ("list", .function 2),
        ("range", .function 3)] := rfl

/-- At the start the world follows the plan: only the host functions are bound. -/
theorem follows_isolatedPlan (limits : Limits) :
    (isolatedWorld.withMeter limits).Follows Δ ρ (isolatedPlan senses) := by
  refine ⟨by simp [isolatedPlan, rootPlan]; rfl, fun f => ?_, fun f name v hv => ?_⟩
  · rw [isolatedPlan, Store.parent?_openWith]
    match f with
    | 0 => rfl
    | 1 => rfl
    | f + 2 => rfl
  · match f with
    | 0 =>
      have hmem := mem_of_lookup_eq_some hv
      rw [bindings_isolatedWorld_root] at hmem
      simp only [List.mem_cons, List.not_mem_nil, or_false, Prod.mk.injEq] at hmem
      rcases hmem with ⟨rfl, rfl⟩ | ⟨rfl, rfl⟩ | ⟨rfl, rfl⟩ | ⟨rfl, rfl⟩
      all_goals rw [own?_isolatedPlan_root]
      · exact ⟨(.function [.any] .any, none), rfl, 0, ⟨"log", .host .log⟩, rfl, rfl, rfl, rfl⟩
      · exact ⟨(.function [.any] .nil, none), rfl, 1, ⟨"print", .host .print⟩, rfl, rfl, rfl, rfl⟩
      · exact ⟨(.any, none), rfl, trivial⟩
      · exact ⟨(.function [.integer, .integer] .iterable, none), rfl, 3,
          ⟨"range", .host .range⟩, rfl, rfl, rfl, rfl⟩
    | 1 => cases hv
    | f + 2 => cases hv

/-- A program on its own stands below the root frame. -/
theorem stands_isolatedPlan (limits : Limits) :
    Stands Δ ρ (isolatedPlan senses) (isolatedWorld.withMeter limits) 1 rootSenses senses := by
  have hroot : FindsForGood rootPlan (Eval.environment {}).state.store 0 rootSenses := by
    refine ⟨Nat.one_pos, fun name g σ hg hσ => ?_⟩
    obtain rfl := Nat.le_zero.mp hg.le
    exact mem_of_lookup_eq_some hσ
  have hfinds := hroot.finds.opened (by simp [rootPlan]; rfl) senses
  rw [List.append_nil] at hfinds
  exact ⟨follows_isolatedPlan limits, hfinds⟩

theorem memberless_isolated : Scope.Memberless [.block [], .block Ty.rootBindings] := by
  intro level hlevel
  simp only [List.mem_cons, List.not_mem_nil, or_false] at hlevel
  rcases hlevel with rfl | rfl <;> rfl

/-- The plan lets a well-typed program bind its names. -/
theorem promises_isolatedPlan {p : Program} {typed : TypedProgram} {types : Store Ty}
    (h : p.checkIsolated .empty = .ok typed types) (senses : Senses) :
    (isolatedPlan (blockSenses ρ senses typed.statements)).Promises 1
      (blockSenses ρ senses typed.statements) := by
  refine .of_bindings bindings_isolatedPlan ?_
  rw [names_blockSenses]
  exact (Check.typesStmts_of_accepted h).nodup (List.cons_ne_nil _ _) List.nodup_nil

end

namespace Program

/-- A program that is accepted, and steady in what it calls whatever its names mean, never calls
what is no function, nor a function with a wrong number of arguments, and never asks for a member of
what is no object or has no such member, under whatever limits. -/
theorem call_safety {p : Program} {typed : TypedProgram} {types : Store Ty} {ρ : Receivers}
    (h : p.checkIsolated .empty = .ok typed types) (hsteady : typed.Steady .calls ρ)
    (limits : Limits) : (p.runIsolated limits {}).Avoids Stop.IsMisuse := by
  have htypes := Check.typesStmts_of_accepted h
  have hs : Stands types.bindings ρ
      (isolatedPlan (blockSenses ρ rootSenses typed.statements))
      (isolatedWorld.withMeter limits) 1 rootSenses
      (blockSenses ρ rootSenses typed.statements) := stands_isolatedPlan limits
  rw [runIsolated_eq, runWith_eq]
  have hrun := runs_fueled (c := ⟨1, isolatedWorld.meters.size⟩)
    (isolatedWorld.freeDepth + limits.depth) memberless_isolated hs htypes hsteady
    (promises_isolatedPlan h rootSenses)
  exact hrun.avoids

/-- An object with a method that is stored in a variable and assigned over another method, and with
a function in a field that hides a variable from the field after it. A function has a variable of
its own that holds a plain function, under the name under which the method is stored elsewhere. -/
def tallying : Program :=
  ⟨[.declare ⟨"say", none, some (.variable "print")⟩,
    .declare ⟨"tally", none, some (.object none
      [⟨"total", none, some (.literal (.integer 0))⟩, ⟨"say", none, some (.variable "say")⟩,
       ⟨"report", none, some (.variable "say")⟩]
      [⟨"add", [⟨"n", some "Integer"⟩], none,
         [.assign (.property (.variable "this") "total")
           (.binary .add (.property (.variable "this") "total") (.variable "n"))]⟩,
       ⟨"skip", [⟨"n", some "Integer"⟩], none, [.ret none]⟩])⟩,
    .declare ⟨"add", none, some (.property (.variable "tally") "add")⟩,
    .assign (.property (.variable "tally") "skip") (.variable "add"),
    .define ⟨"count", [⟨"n", some "Integer"⟩], none,
      [.declare ⟨"add", none, some (.variable "say")⟩,
       .expression (.method (.variable "tally") "skip" [.variable "n"]),
       .expression (.call "add" [.property (.variable "tally") "total"])]⟩,
    .declare ⟨"report", none, some (.property (.variable "tally") "report")⟩,
    .expression (.call "count" [.literal (.integer 2)]),
    .expression (.call "report" [.property (.variable "tally") "total"])]⟩

/-- What the checker makes of it. -/
def tallyingTyped : TypedProgram :=
  let tally : TypedExpr := .variable "tally" (.object 2)
  let this : TypedExpr := .variable "this" (.object 2)
  let counts : Ty := .function [.integer] .any
  let prints : Ty := .function [.any] .nil
  ⟨[.declare ⟨"say", prints, some (.variable "print" prints)⟩,
    .declare ⟨"tally", .object 2, some (.object none
      [⟨"total", .integer, some (.literal (.integer 0) .integer)⟩,
       ⟨"say", prints, some (.variable "say" prints)⟩,
       ⟨"report", prints, some (.variable "say" prints)⟩]
      [⟨"add", [⟨"n", .integer⟩], .any,
         [.assignProperty this "total" .integer
           (.binary .add (.property this "total" .integer) (.variable "n" .integer) .integer)]⟩,
       ⟨"skip", [⟨"n", .integer⟩], .any, [.ret none]⟩] (.object 2))⟩,
    .declare ⟨"add", counts, some (.property tally "add" counts)⟩,
    .assignProperty tally "skip" counts (.variable "add" counts),
    .define ⟨"count", [⟨"n", .integer⟩], .any,
      [.declare ⟨"add", prints, some (.variable "say" prints)⟩,
       .expression (.method tally "skip" [.variable "n" .integer] .any),
       .expression (.call "add" [.property tally "total" .integer] .nil)]⟩,
    .declare ⟨"report", prints, some (.property tally "report" prints)⟩,
    .expression (.call "count" [.literal (.integer 2) .integer] .any),
    .expression (.call "report" [.property tally "total" .integer] .nil)]⟩

/-- The members `add` and `skip` hold methods of the object. -/
def tallyingReceivers : Receivers := fun o name =>
  if name = "add" ∨ name = "skip" then some o else none

theorem call_safety_tallying : (∃ types, tallying.checkIsolated .empty = .ok tallyingTyped types) ∧
    tallyingTyped.Steady .calls tallyingReceivers ∧
    (tallying.runIsolated ⟨1000, 10⟩ {}).Avoids Stop.IsMisuse := by
  have hok : tallying.checkIsolated .empty =
      .ok tallyingTyped (tallying.checkIsolated .empty).state :=
    EStateM.Result.eq_ok_of_any (fun typed => (TypedProgram.same_iff_eq rfl typed).mp)
      (by decide +kernel)
  have hsteady : tallyingTyped.Steady .calls tallyingReceivers := by
    simp [tallyingTyped, tallyingReceivers, TypedProgram.Steady, SteadyStmts, TypedStmt.Steady,
      TypedDeclaration.Steady, SteadyOption, TypedExpr.Steady, SteadyExprs, SteadyFields,
      SteadyMethods, TypedDefinition.Steady, Demand.Allows, Demand.Concerns, Sense.Serves,
      Sense.Takes, Senses.bind, Senses.without, Senses.ofTypes, rootSenses, Ty.rootBindings,
      blockSenses, TypedStmt.meaning, TypedDeclaration.receiver, TypedDeclaration.Binds,
      TypedExpr.sense, TypedExpr.receiver, TypedExpr.ty, TypedDefinition.ty, functionTy, callSenses,
      callBindings, Ty.IsPlain, Ty.IsFunction, Ty.Below.refl, List.lookup_cons, thisName]
  exact ⟨⟨_, hok⟩, hsteady, call_safety hok hsteady ⟨1000, 10⟩⟩

/-! ## Accepted programs that are not safe -/

/-- A method is read from its object and called as a function. -/
def borrowing : Program :=
  ⟨[.declare ⟨"tally", none, some (.object none [] [⟨"reset", [], none, []⟩])⟩,
    .declare ⟨"reset", none, some (.property (.variable "tally") "reset")⟩,
    .expression (.call "reset" [])]⟩

/-- A function is stored in a field and called as a method. -/
def lending : Program :=
  ⟨[.declare ⟨"tally", none,
      some (.object none [⟨"report", none, some (.variable "print")⟩] [])⟩,
    .expression (.method (.variable "tally") "report" [.literal (.integer 1)])]⟩

/-- A method is assigned to a member of another object, which lacks a member that the method asks
for. -/
def swapping : Program :=
  ⟨[.declare ⟨"tally", none, some (.object none [⟨"total", none, some (.literal (.integer 1))⟩]
      [⟨"get", [], none, [.ret (some (.property (.variable "this") "total"))]⟩])⟩,
    .declare ⟨"zero", none,
      some (.object none [] [⟨"get", [], none, [.ret (some (.literal (.integer 0)))]⟩])⟩,
    .assign (.property (.variable "zero") "get") (.property (.variable "tally") "get"),
    .expression (.method (.variable "zero") "get" [])]⟩

/-- A name that a function uses is bound again between its definition and its call. -/
def rebinding : Program :=
  ⟨[.define ⟨"report", [], none, [.expression (.call "print" [.literal (.integer 1)])]⟩,
    .declare ⟨"print", none, some (.literal (.integer 5))⟩,
    .expression (.call "report" [])]⟩

/-- A field hides a variable from the field after it. -/
def enclosing : Program :=
  ⟨[.declare ⟨"tally", none,
      some (.object none [⟨"total", none, some (.literal (.integer 1))⟩] [])⟩,
    .expression (.object none [⟨"tally", none, some (.literal (.integer 5))⟩,
      ⟨"total", none, some (.property (.variable "tally") "total")⟩] [])]⟩

/-- Acceptance alone does not rule out any of the four failures. -/
theorem not_call_safe :
    (returnsName ∉ borrowing.names ∧ (borrowing.checkIsolated .empty).isOk = true ∧
      ¬ (borrowing.runIsolated {} {}).Avoids (· = .error (.wrongArgumentCount "reset" 1 0))) ∧
    (returnsName ∉ lending.names ∧ (lending.checkIsolated .empty).isOk = true ∧
      ¬ (lending.runIsolated {} {}).Avoids (· = .error (.wrongArgumentCount "print" 1 2))) ∧
    (returnsName ∉ swapping.names ∧ (swapping.checkIsolated .empty).isOk = true ∧
      ¬ (swapping.runIsolated {} {}).Avoids (· = .error (.undefinedMember "total"))) ∧
    (returnsName ∉ rebinding.names ∧ (rebinding.checkIsolated .empty).isOk = true ∧
      ¬ (rebinding.runIsolated {} {}).Avoids (· = .error (.notCallable "print" .integer))) ∧
    (returnsName ∉ enclosing.names ∧ (enclosing.checkIsolated .empty).isOk = true ∧
      ¬ (enclosing.runIsolated {} {}).Avoids (· = .error (.notAnObject .integer))) := by
  decide +kernel

end Program

end ObjectLang
