import ObjectLang.Proofs.CallSafety
import ObjectLang.Proofs.Eval.Results
import ObjectLang.Proofs.ObjectShape

/-!
# Declared result types

The checker compares the returns of a function with the type that the function declares, but it does
not ask whether there is a return on every path. A function that falls off its end gives the empty
value, whatever it declares, and the empty value may then turn up wherever the result is used. There
are three more ways to come by a result of another kind. A name may be hidden from where the checker
found it, by something of another type; a method may be moved to an object of another type; and the
name under which the checker keeps the type of results may be bound to something else. In programs
that do none of this, and give initial values to what they declare, results are of the kinds that
functions declare for as long as no function falls off its end.
-/

namespace ObjectLang

/-! ## Results -/

namespace Eval

/-- The kinds of values that are types by themselves and can be declared. -/
def declarableKinds : List Kind := [.boolean, .integer, .decimal, .string]

/-- Whenever a function has completed that declares to return values of one of the four kinds, its
result is as `P` says of the events up to then. The latest event is the first one. -/
def Results (P : List Event → Kind → Value → Prop) (es : List Event) : Prop :=
  ∀ later earlier id completion d isMethod k, es = later ++ .completed id completion :: earlier →
    .defined d isMethod id ∈ earlier → k ∈ declarableKinds → d.returnType = some k.text →
    P (.completed id completion :: earlier) k completion.result

/-- The type that is the kind. -/
theorem denotes_of_mem_declarableKinds {k : Kind} (hk : k ∈ declarableKinds) :
    ∃ ty, Denotes (some k.text) ty ∧ ∀ k', ty.admits k' = true → k' = k := by
  simp only [declarableKinds, List.mem_cons, List.not_mem_nil, or_false] at hk
  rcases hk with rfl | rfl | rfl | rfl
  · exact ⟨.boolean, .some rfl, fun _ => of_decide_eq_true⟩
  · exact ⟨.integer, .some rfl, fun _ => of_decide_eq_true⟩
  · exact ⟨.decimal, .some rfl, fun _ => of_decide_eq_true⟩
  · exact ⟨.string, .some rfl, fun _ => of_decide_eq_true⟩

/-- If the types of results are respected, then results are of the declared kinds, or a function has
fallen off its end. -/
theorem Respects.results {es : List Event} (h : Respects es) :
    Results (fun es k v => v.kind = k ∨ v = .nil ∧ FallsOff es) es := by
  rintro later earlier id completion d isMethod k rfl hdefined hk htype
  obtain ⟨ty, hty, hkind⟩ := denotes_of_mem_declarableKinds hk
  have hmeets := h.at d isMethod ty (List.mem_cons_of_mem _ hdefined) (htype ▸ hty)
  exact hmeets.kind_or_nil.imp (hkind _) And.symm

/-- What the function declares to return that has completed last, and the kind of its result. -/
def lastResult? : List Event → Option (Option String × Kind)
  | .completed id completion :: earlier => earlier.findSome? fun
    | .defined d _ id' => if id' = id then some (d.returnType, completion.result.kind) else none
    | _ => none
  | _ => none

/-- What functions declare to return and the kinds of their results, for all that have completed. -/
def results (es : List Event) : List (Option String × Kind) := es.tails.filterMap lastResult?

/-- One result of another kind is enough. -/
theorem not_results_of_mem {es : List Event} {k k' : Kind} (h : (some k.text, k') ∈ results es)
    (hk : k ∈ declarableKinds) (hne : k' ≠ k) : ¬ Results (fun _ k v => v.kind = k) es := by
  intro hresults
  obtain ⟨es', hsuffix, hlast⟩ := List.mem_filterMap.mp h
  obtain ⟨later, rfl⟩ := (List.mem_tails _ _).mp hsuffix
  unfold lastResult? at hlast
  split at hlast
  · next id completion earlier =>
    obtain ⟨e, he, hfound⟩ := List.exists_of_findSome?_eq_some hlast
    split at hfound
    · next d isMethod id' =>
      split at hfound
      · next hid =>
        cases hid
        rw [Option.some.injEq, Prod.mk.injEq] at hfound
        obtain ⟨htype, rfl⟩ := hfound
        exact hne (hresults later earlier id completion d isMethod k rfl he hk htype)
      · cases hfound
    · cases hfound
  · cases hlast

end Eval

/-! ## Programs on their own -/

open Eval (Event)

/-- At the start only the functions of the host are bound. -/
theorem obeys_isolatedPlan {Δ : FrameId → List (String × Ty)} {ρ : Receivers} {senses : Senses}
    (limits : Limits) :
    Trace.Obeys Δ ρ ⟨isolatedWorld.withMeter limits, []⟩ (isolatedPlan senses) := by
  have hfollows : (isolatedWorld.withMeter limits).Follows Δ ρ (isolatedPlan senses) :=
    follows_isolatedPlan limits
  refine ⟨hfollows.size_eq, hfollows.parent_eq, fun f name v hv => ?_, nofun, nofun, trivial⟩
  match f with
  | 0 =>
    have hmem := mem_of_lookup_eq_some hv
    rw [bindings_isolatedWorld_root] at hmem
    simp only [List.mem_cons, List.not_mem_nil, or_false, Prod.mk.injEq] at hmem
    rcases hmem with ⟨rfl, rfl⟩ | ⟨rfl, rfl⟩ | ⟨rfl, rfl⟩ | ⟨rfl, rfl⟩
    all_goals rw [own?_isolatedPlan_root]
    · exact ⟨(.function [.any] .any, none), rfl, 0, ⟨"log", .host .log⟩, rfl, rfl, rfl, rfl⟩
    · exact ⟨(.function [.any] .nil, none), rfl, 1, ⟨"print", .host .print⟩, rfl, rfl, rfl, rfl⟩
    · exact ⟨(.any, none), rfl, .any _ _⟩
    · exact ⟨(.function [.integer, .integer] .iterable, none), rfl, 3,
        ⟨"range", .host .range⟩, rfl, rfl, rfl, rfl⟩
  | 1 => cases hv
  | f + 2 => cases hv

namespace Program

/-- Runs a program in a new frame below a new environment, and keeps a list of the moments. -/
def tracedIsolated (limits : Limits) (p : Program) :
    EStateM.Result Stop (Trace Event World) Completion :=
  (Task.program p).traced (isolatedWorld.withMeter limits).freeDepth
    ⟨1, isolatedWorld.meters.size⟩ ⟨isolatedWorld.withMeter limits, []⟩

/-- The traced run goes as the plain one. -/
theorem tracedIsolated_follows (limits : Limits) (p : Program) :
    (p.tracedIsolated limits).mapState Trace.state =
      (p.runIsolated limits >>= fun v => pure (.normal v) : EvalM Completion) {} := by
  have hfollows := (Eval.tracked_task (isolatedWorld.withMeter limits).freeDepth
    ⟨1, isolatedWorld.meters.size⟩ (.program p)).follows ⟨isolatedWorld.withMeter limits, []⟩
  rw [tracedIsolated, hfollows, bind_run, runIsolated_eq]
  rfl

/-- A well-typed program, run as a task, obeys the plan. -/
theorem yields_traced {Δ : FrameId → List (String × Ty)} {ρ : Receivers} {plan : Plan}
    {r : Trace Event World} {Γ : Scope} {senses pending : Senses} {c : Context} {p : Program}
    {ts : List TypedStmt} {returns : Ty} (n : Nat) (hΓ : Γ.Memberless)
    (hs : r.Stands Δ ρ plan c.frame senses pending) (hret : Γ.Returns returns)
    (h : TypesStmts Δ Γ p.statements ts) (hsteady : SteadyStmts .values ρ senses pending ts)
    (hinit : p.Initialized) (hplan : plan.Promises c.frame (blockSenses ρ senses ts)) :
    Eval.Traced.Yields Δ ρ (some c.frame) plan ((Task.program p).traced n c) r
      Eval.Traced.whatever := by
  refine (Eval.Traced.yields_stmts (Eval.Traced.yieldsCalls n) c .nil hΓ hs hret p.statements h
    hsteady hinit hplan).bind fun completion plan₁ r₁ hl₁ _ => ?_
  cases completion with
  | normal v => exact .pure hl₁.obeys trivial
  | returned v => exact .step hl₁.obeys nofun

/-- A program that is accepted, initialized and steady in its values respects the types of results.
-/
theorem respects_tracedIsolated {p : Program} {typed : TypedProgram} {types : Store Ty}
    {ρ : Receivers} (h : p.checkIsolated .empty = .ok typed types) (hinit : p.Initialized)
    (hsteady : typed.Steady .values ρ) (limits : Limits) :
    Eval.Respects (events (p.tracedIsolated limits).state.past) := by
  have htypes := Check.typesStmts_of_accepted h
  have hstands : Stands types.bindings ρ
      (isolatedPlan (blockSenses ρ rootSenses typed.statements)) (isolatedWorld.withMeter limits) 1
      rootSenses (blockSenses ρ rootSenses typed.statements) := stands_isolatedPlan limits
  have hs : Trace.Stands types.bindings ρ ⟨isolatedWorld.withMeter limits, []⟩
      (isolatedPlan (blockSenses ρ rootSenses typed.statements)) 1 rootSenses
      (blockSenses ρ rootSenses typed.statements) :=
    ⟨obeys_isolatedPlan limits, hstands.finds⟩
  have hret : Scope.Returns [.block [], .block Ty.rootBindings] .any := by
    intro ty hty
    cases hty
  exact (yields_traced _ memberless_isolated hs hret htypes hsteady hinit
    (promises_isolatedPlan h rootSenses)).respects

/-- If a program is accepted and initialized, and steady in its values whatever its names mean, then
in its run, which the traced run goes along with, functions that declare to return values of a kind
do so. What they may give instead is the empty value, but only once a function has fallen off its
end that declares a result, be it the same or another one. -/
theorem declared_results {p : Program} {typed : TypedProgram} {types : Store Ty} {ρ : Receivers}
    (h : p.checkIsolated .empty = .ok typed types) (hinit : p.Initialized)
    (hsteady : typed.Steady .values ρ) (limits : Limits) :
    (p.tracedIsolated limits).mapState Trace.state =
      (p.runIsolated limits >>= fun v => pure (.normal v) : EvalM Completion) {} ∧
    Eval.Results (fun es k v => v.kind = k ∨ v = .nil ∧ Eval.FallsOff es)
      (events (p.tracedIsolated limits).state.past) :=
  ⟨p.tracedIsolated_follows limits, (respects_tracedIsolated h hinit hsteady limits).results⟩

/-- A function with two returns, one of them in a branch, a method that returns a field, a function
that returns from the middle of a loop or not at all, and one that makes an object in which a field
hides the parameter that it gets its value from. -/
def grading : Program :=
  ⟨[.define ⟨"sign", [⟨"n", some "Integer"⟩], some "String",
      [.branch (.binary .less (.variable "n") (.literal (.integer 0)))
        [.ret (some (.literal (.string "minus")))] [],
       .ret (some (.literal (.string "plus")))]⟩,
    .declare ⟨"tally", none, some (.object none
      [⟨"total", some "Integer", some (.literal (.integer 0))⟩]
      [⟨"add", [⟨"n", some "Integer"⟩], some "Integer",
         [.assign (.property (.variable "this") "total")
           (.binary .add (.property (.variable "this") "total") (.variable "n")),
          .ret (some (.property (.variable "this") "total"))]⟩])⟩,
    .define ⟨"reaches", [⟨"goal", some "Integer"⟩], some "Boolean",
      [.forEach "i" (.call "range" [.literal (.integer 1), .literal (.integer 3)])
        [.branch (.binary .eq (.method (.variable "tally") "add" [.variable "i"])
            (.variable "goal"))
          [.ret (some (.literal (.boolean true)))] []]]⟩,
    .define ⟨"area", [⟨"side", some "Integer"⟩], some "Integer",
      [.declare ⟨"square", none, some (.object none
         [⟨"side", none, some (.variable "side")⟩,
          ⟨"area", none, some (.binary .mul (.variable "side") (.variable "side"))⟩] [])⟩,
       .ret (some (.property (.variable "square") "area"))]⟩,
    .expression (.call "area" [.literal (.integer 4)]),
    .expression (.call "sign" [.literal (.integer 5)]),
    .expression (.call "reaches" [.literal (.integer 3)]),
    .expression (.call "reaches" [.literal (.integer 0)])]⟩

/-- What the checker makes of it. -/
def gradingTyped : TypedProgram :=
  let tally : Ty := .object 5
  let square : Ty := .object 12
  let this : TypedExpr := .variable "this" tally
  ⟨[.define ⟨"sign", [⟨"n", .integer⟩], .string,
      [.branch (.binary .less (.variable "n" .integer) (.literal (.integer 0) .integer) .boolean)
        [.ret (some (.literal (.string "minus") .string))] [],
       .ret (some (.literal (.string "plus") .string))]⟩,
    .declare ⟨"tally", tally, some (.object none
      [⟨"total", .integer, some (.literal (.integer 0) .integer)⟩]
      [⟨"add", [⟨"n", .integer⟩], .integer,
         [.assignProperty this "total" .integer
           (.binary .add (.property this "total" .integer) (.variable "n" .integer) .integer),
          .ret (some (.property this "total" .integer))]⟩] tally)⟩,
    .define ⟨"reaches", [⟨"goal", .integer⟩], .boolean,
      [.forEach "i" .integer
        (.call "range" [.literal (.integer 1) .integer, .literal (.integer 3) .integer] .iterable)
        [.branch (.binary .eq
            (.method (.variable "tally" tally) "add" [.variable "i" .integer] .integer)
            (.variable "goal" .integer) .boolean)
          [.ret (some (.literal (.boolean true) .boolean))] []]]⟩,
    .define ⟨"area", [⟨"side", .integer⟩], .integer,
      [.declare ⟨"square", square, some (.object none
         [⟨"side", .integer, some (.variable "side" .integer)⟩,
          ⟨"area", .integer, some (.binary .mul (.variable "side" .integer)
            (.variable "side" .integer) .integer)⟩] [] square)⟩,
       .ret (some (.property (.variable "square" square) "area" .integer))]⟩,
    .expression (.call "area" [.literal (.integer 4) .integer] .integer),
    .expression (.call "sign" [.literal (.integer 5) .integer] .string),
    .expression (.call "reaches" [.literal (.integer 3) .integer] .boolean),
    .expression (.call "reaches" [.literal (.integer 0) .integer] .boolean)]⟩

/-- The member `add` holds a method of the object. -/
def gradingReceivers : Receivers := fun o name => if name = "add" then some o else none

/-- The last call falls off the end of the function, all others return. -/
theorem declared_results_grading :
    (∃ types, grading.checkIsolated .empty = .ok gradingTyped types) ∧ grading.Initialized ∧
    gradingTyped.Steady .values gradingReceivers ∧
    Eval.results (events (grading.tracedIsolated ⟨1000, 10⟩).state.past) =
      [(some "Boolean", .nil), (some "Integer", .integer), (some "Integer", .integer),
        (some "Integer", .integer), (some "Boolean", .boolean), (some "Integer", .integer),
        (some "Integer", .integer), (some "String", .string), (some "Integer", .integer)] ∧
    (grading.tracedIsolated ⟨1000, 10⟩).mapState Trace.state =
      (grading.runIsolated ⟨1000, 10⟩ >>= fun v => pure (.normal v) : EvalM Completion) {} ∧
    Eval.Results (fun es k v => v.kind = k ∨ v = .nil ∧ Eval.FallsOff es)
      (events (grading.tracedIsolated ⟨1000, 10⟩).state.past) := by
  have hok : grading.checkIsolated .empty =
      .ok gradingTyped (grading.checkIsolated .empty).state :=
    EStateM.Result.eq_ok_of_any (fun typed => (TypedProgram.same_iff_eq rfl typed).mp)
      (by decide +kernel)
  have hinit : grading.Initialized := by
    simp [grading, Program.Initialized, InitializedStmts, Stmt.Initialized, Definition.Initialized,
      Declaration.Initialized, InitializedOption, Expr.Initialized, InitializedFields,
      InitializedMethods, InitializedExprs]
  have hsteady : gradingTyped.Steady .values gradingReceivers := by
    simp [gradingTyped, gradingReceivers, TypedProgram.Steady, SteadyStmts, TypedStmt.Steady,
      TypedDeclaration.Steady, SteadyOption, TypedExpr.Steady, SteadyExprs, SteadyFields,
      SteadyMethods, TypedDefinition.Steady, Demand.Allows, Demand.Concerns, Sense.Serves,
      Sense.Takes, Senses.bind, Senses.without, Senses.ofTypes, rootSenses, Ty.rootBindings,
      blockSenses, TypedStmt.meaning, TypedDeclaration.receiver, TypedDeclaration.Binds,
      TypedExpr.sense, TypedExpr.receiver, TypedExpr.ty, TypedDefinition.ty, functionTy, callSenses,
      callBindings, Ty.IsFunction, Ty.Below.refl, List.lookup_cons, thisName,
      returnsName]
  exact ⟨⟨_, hok⟩, hinit, hsteady, by decide +kernel,
    declared_results hok hinit hsteady ⟨1000, 10⟩⟩

/-! ## Accepted programs with results of another kind -/

/-- The program is accepted and initialized, but some function gives a result that is not of the kind
that it declares. -/
def Betrays (p : Program) : Prop :=
  (p.checkIsolated .empty).isOk = true ∧ p.Initialized ∧
    ¬ Eval.Results (fun _ k v => v.kind = k) (events (p.tracedIsolated {}).state.past)

theorem betrays_of_mem {p : Program} (k k' : Kind) (hinit : p.Initialized)
    (h : (p.checkIsolated .empty).isOk = true ∧
      (some k.text, k') ∈ Eval.results (events (p.tracedIsolated {}).state.past) ∧
      k ∈ Eval.declarableKinds ∧ k' ≠ k) : p.Betrays :=
  ⟨h.1, hinit, Eval.not_results_of_mem h.2.1 h.2.2.1 h.2.2.2⟩

/-- A function has no return. -/
def forgetting : Program :=
  ⟨[.define ⟨"f", [], some "Integer", []⟩, .expression (.call "f" [])]⟩

/-- A function returns what it gets from such a function. -/
def relaying : Program :=
  ⟨[.define ⟨"f", [], some "Integer", []⟩,
    .define ⟨"g", [], some "Integer", [.ret (some (.call "f" []))]⟩,
    .expression (.call "g" [])]⟩

/-- A name that a function returns is bound again between its definition and its call. -/
def shadowing : Program :=
  ⟨[.declare ⟨"x", none, some (.literal (.integer 1))⟩,
    .branch (.literal (.boolean true))
      [.define ⟨"f", [], some "Integer", [.ret (some (.variable "x"))]⟩,
       .declare ⟨"x", none, some (.literal (.string "s"))⟩,
       .expression (.call "f" [])] []]⟩

/-- A field hides a variable from the field after it. -/
def covering : Program :=
  ⟨[.define ⟨"f", [⟨"n", some "Integer"⟩], some "Integer", [.ret (some (.variable "n"))]⟩,
    .declare ⟨"x", none, some (.literal (.integer 1))⟩,
    .expression (.object none [⟨"x", none, some (.literal (.string "s"))⟩,
      ⟨"y", none, some (.call "f" [.variable "x"])⟩] [])]⟩

/-- A method is assigned to a member of another object, whose field is of another type. -/
def moving : Program :=
  ⟨[.declare ⟨"a", none, some (.object none [⟨"v", none, some (.literal (.integer 1))⟩]
      [⟨"get", [], some "Integer", [.ret (some (.property (.variable "this") "v"))]⟩])⟩,
    .declare ⟨"b", none, some (.object none [⟨"v", none, some (.literal (.string "s"))⟩]
      [⟨"get", [], some "Integer", [.ret (some (.literal (.integer 0)))]⟩])⟩,
    .assign (.property (.variable "b") "get") (.property (.variable "a") "get"),
    .expression (.method (.variable "b") "get" [])]⟩

/-- The name under which the checker keeps the type of results is bound. -/
def overruling : Program :=
  ⟨[.define ⟨"f", [], some "Integer", [.branch (.literal (.boolean true))
      [.declare ⟨returnsName, none, some (.literal (.string ""))⟩,
       .ret (some (.literal (.string "s")))] []]⟩,
    .expression (.call "f" [])]⟩

/-- In each of these programs a function that declares to return a whole number gives something else.
-/
theorem not_declared_results :
    forgetting.Betrays ∧ relaying.Betrays ∧ shadowing.Betrays ∧ covering.Betrays ∧
      moving.Betrays ∧ overruling.Betrays := by
  have hinit : forgetting.Initialized ∧ relaying.Initialized ∧ shadowing.Initialized ∧
      covering.Initialized ∧ moving.Initialized ∧ overruling.Initialized := by
    simp [forgetting, relaying, shadowing, covering, moving, overruling, Program.Initialized,
      InitializedStmts, Stmt.Initialized, Definition.Initialized, Declaration.Initialized,
      InitializedOption, Expr.Initialized, InitializedFields, InitializedMethods, InitializedExprs]
  obtain ⟨hforgetting, hrelaying, hshadowing, hcovering, hmoving, hoverruling⟩ := hinit
  exact ⟨betrays_of_mem .integer .nil hforgetting (by decide +kernel),
    betrays_of_mem .integer .nil hrelaying (by decide +kernel),
    betrays_of_mem .integer .string hshadowing (by decide +kernel),
    betrays_of_mem .integer .string hcovering (by decide +kernel),
    betrays_of_mem .integer .string hmoving (by decide +kernel),
    betrays_of_mem .integer .string hoverruling (by decide +kernel)⟩

end Program

end ObjectLang
