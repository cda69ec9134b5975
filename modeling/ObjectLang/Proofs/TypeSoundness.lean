import ObjectLang.Proofs.Eval.Fuel
import ObjectLang.Proofs.Eval.Typing
import ObjectLang.Proofs.Program.Isolated

/-!
# Types of accepted first-order programs

A first-order program that the checker accepts is stopped by a division by zero or by the gas limit,
if at all, and its statements give values of their types. The latter holds wherever a statement
stands and however often it is run, so it is shown of all the blocks that a run reaches. -/

namespace ObjectLang

/-! ## Blocks -/

/-- The checker accepts the first-order block in a type frame that agrees with the frame of the
block. -/
structure Block.WellTyped (f p : FrameId) (types types' : Store Ty) (b : Block) : Prop where
  firstOrder : FirstOrderStmts b.body
  accepts : Check.stmts f b.body types = .ok b.typed types'
  parent_eq : types.parent? f = some p
  agree : Agree types b.world f b.context.frame

namespace Block.WellTyped

variable {n : Nat} {f p : FrameId} {types types' : Store Ty} {c : Context} {rest : List Stmt}
  {trest : List TypedStmt} {w : World}

/-- A statement that completes leaves the rest of its block well-typed. -/
theorem next {s : Stmt} {t : TypedStmt} {w' : World} {v : Value}
    (h : WellTyped f p types types' ⟨c, s :: rest, t :: trest, w⟩)
    (hrun : Eval.stmt (Eval.call n) c s w = .ok (.normal v) w') :
    ∃ types₁, WellTyped f p types₁ types' ⟨c, rest, trest, w'⟩ := by
  obtain ⟨hfirst, haccepts, hp, hagree⟩ := h
  simp only [Check.stmts, bind_run_eq_ok_iff, pure_run_eq_ok_iff] at haccepts
  obtain ⟨t', types₁, hstmt, trest', _, hrest, htyped, rfl⟩ := haccepts
  cases htyped
  obtain ⟨_, -, -, hagree₁⟩ :=
    (Eval.typed_stmt s hfirst.1 hstmt hp c w hagree).of_run hrun
  exact ⟨types₁, hfirst.2, hrest,
    Check.parent?_of_grows hp ((Check.confined.stmt f s).grows hstmt), hagree₁⟩

/-- A block of a branch is well-typed when it is entered. -/
theorem branch {condition : Expr} {thenBody elseBody : List Stmt} {tcondition : TypedExpr}
    {tthen telse : List TypedStmt} {w' : World} {holds : Bool} {frame : FrameId}
    (h : WellTyped f p types types' ⟨c, .branch condition thenBody elseBody :: rest,
      .branch tcondition tthen telse :: trest, w⟩)
    (hrun : Eval.enterBranch (Eval.call n) c condition w = .ok (holds, frame) w') :
    ∃ k types₁ types₂, WellTyped k f types₁ types₂ ⟨{ c with frame := frame },
      if holds then thenBody else elseBody, if holds then tthen else telse, w'⟩ := by
  obtain ⟨hfirst, haccepts, hp, hagree⟩ := h
  simp only [Check.stmts, bind_run_eq_ok_iff, pure_run_eq_ok_iff] at haccepts
  obtain ⟨_, _, hstmt, _, _, -, htyped, -⟩ := haccepts
  obtain ⟨⟨hcondition, hthen, helse⟩, -⟩ := hfirst
  obtain ⟨_, _, _, types₁, _, rfl, hexpr, hsub, hblock, hblock'⟩ :=
    Check.branch_eq_ok (types.parent?_lt_size hp) hstmt
  cases htyped
  obtain ⟨rfl, hyields⟩ := Eval.typed_expr (n := n) condition hcondition hexpr
  have hopened := (Eval.enterBranch_ends (fun w hagree => (hyields c w hagree).mono
    fun v hv => hv.subtype hsub id) hagree).of_run hrun
  cases holds with
  | true => exact ⟨_, _, _, hthen, hblock.accepts, hblock.parent_eq, (hopened.agree hp).2⟩
  | false =>
    have hp₁ := Check.parent?_of_grows hp hblock.grows
    exact ⟨_, _, _, helse, hblock'.accepts, hblock'.parent_eq,
      ((hopened.grows hp hblock.grows).agree hp₁).2⟩

/-- The block of a loop is well-typed in each iteration. -/
theorem iteration {name : String} {items : Expr} {body : List Stmt} {ty : Ty}
    {titems : TypedExpr} {tbody : List TypedStmt} {w₁ w₂ w₃ : World}
    {done remaining : List Value} {item v : Value} {frame : FrameId}
    (h : WellTyped f p types types' ⟨c, .forEach name items body :: rest,
      .forEach name ty titems tbody :: trest, w⟩)
    (hitems : Eval.loopItems (Eval.call n) c items w = .ok (done ++ item :: remaining) w₁)
    (hdone : Eval.forEach (Eval.iteration (Eval.call n) c name body) done w₁ = .ok (.normal v) w₂)
    (hrun : Eval.enterIteration c name item w₂ = .ok frame w₃) :
    ∃ k types₁ types₂, WellTyped k f types₁ types₂ ⟨{ c with frame := frame }, body, tbody, w₃⟩ := by
  obtain ⟨hfirst, haccepts, hp, hagree⟩ := h
  simp only [Check.stmts, bind_run_eq_ok_iff, pure_run_eq_ok_iff] at haccepts
  obtain ⟨_, _, hstmt, _, _, -, htyped, -⟩ := haccepts
  obtain ⟨⟨hfirstItems, hbody⟩, -⟩ := hfirst
  obtain ⟨_, _, _, rfl, hexpr, hsub, hblock⟩ := Check.forEach_eq_ok (types.parent?_lt_size hp) hstmt
  cases htyped
  obtain ⟨rfl, hyields⟩ := Eval.typed_expr (n := n) items hfirstItems hexpr
  obtain ⟨hw₁, ints, hints⟩ := (Eval.loopItems_yields (fun w hagree => (hyields c w hagree).mono
    fun v hv => hv.subtype hsub id) hagree).of_run hitems
  obtain ⟨before, after, rfl, rfl, hafter⟩ := List.map_eq_append_iff.mp hints.symm
  obtain ⟨i, after, rfl, rfl, -⟩ := List.map_eq_cons_iff.mp hafter
  obtain ⟨_, -, -, hagree₂⟩ := (Eval.forEach_completes before (hagree.same hw₁) hp hblock fun c w =>
    Eval.typed_stmts body hbody hblock.accepts hblock.parent_eq c .nil w).of_run hdone
  obtain ⟨-, hagree₃⟩ := (Eval.enterIteration_ends hagree₂ hp).of_run hrun
  exact ⟨_, _, _, hbody, hblock.accepts, hblock.parent_eq, hagree₃⟩

end Block.WellTyped

/-- All blocks that a well-typed block reaches are well-typed. -/
theorem Block.Reaches.wellTyped {n : Nat} {start b : Block} (h : Reaches (Eval.call n) start b)
    (hstart : ∃ f p types types', start.WellTyped f p types types') :
    ∃ f p types types', b.WellTyped f p types types' := by
  induction h with
  | start => exact hstart
  | next _ hrun ih =>
    obtain ⟨f, p, types, types', hb⟩ := ih
    obtain ⟨types₁, hb₁⟩ := hb.next hrun
    exact ⟨f, p, types₁, types', hb₁⟩
  | thenBlock _ hrun ih =>
    obtain ⟨f, p, types, types', hb⟩ := ih
    obtain ⟨k, types₁, types₂, hb₁⟩ := hb.branch hrun
    exact ⟨k, f, types₁, types₂, hb₁⟩
  | elseBlock _ hrun ih =>
    obtain ⟨f, p, types, types', hb⟩ := ih
    obtain ⟨k, types₁, types₂, hb₁⟩ := hb.branch hrun
    exact ⟨k, f, types₁, types₂, hb₁⟩
  | iteration _ hitems hdone hrun ih =>
    obtain ⟨f, p, types, types', hb⟩ := ih
    obtain ⟨k, types₁, types₂, hb₁⟩ := hb.iteration hitems hdone hrun
    exact ⟨k, f, types₁, types₂, hb₁⟩

/-! ## Programs on their own -/

theorem Stop.eq_of_not_isFault {e : Stop} (h : ¬ e.IsFault) :
    e = .error .divisionByZero ∨ ∃ limit, e = .error (.gasExhausted limit) := by
  cases e with
  | outOfFuel => exact absurd trivial h
  | error e =>
    cases e with
    | divisionByZero => exact .inl rfl
    | gasExhausted limit => exact .inr ⟨limit, rfl⟩
    | _ => exact absurd trivial h

/-- The functions of the environment fit their types. -/
theorem agree_isolatedWorld (limits : Limits) :
    Agree isolatedTypes (isolatedWorld.withMeter limits) 1 1 := by
  have htypes (name : String) : isolatedTypes.own? 0 name = Ty.rootBindings.lookup name := rfl
  have hroot : BindsFitting isolatedTypes (isolatedWorld.withMeter limits) 0 0 := by
    intro name ty hty
    rw [htypes] at hty
    obtain ⟨before, after, hsplit, -⟩ := List.lookup_eq_some_iff.mp hty
    have hmem : (name, ty) ∈ Ty.rootBindings := by
      rw [hsplit]
      simp
    simp only [Ty.rootBindings, List.mem_cons, List.not_mem_nil, or_false, Prod.mk.injEq] at hmem
    rcases hmem with ⟨rfl, rfl⟩ | ⟨rfl, rfl⟩ | ⟨rfl, rfl⟩
    · exact ⟨.function 1, rfl, 1, .print, rfl, rfl, rfl⟩
    · exact ⟨.function 0, rfl, 0, .log, rfl, rfl, rfl⟩
    · exact ⟨.function 3, rfl, 3, .range, rfl, rfl, rfl⟩
  have hbelow : BindsFitting isolatedTypes (isolatedWorld.withMeter limits) 1 1 := by
    intro name ty hty
    cases hty
  exact .child rfl rfl hbelow (fun _ _ => rfl) (.root rfl hroot)

namespace Program

/-- How many calls may be nested when a program is run on its own. -/
def isolatedFuel (limits : Limits) : Nat := isolatedWorld.freeDepth + limits.depth

/-- The block with which a run of the program on its own starts. -/
def isolatedBlock (p : Program) (limits : Limits) (typed : TypedProgram) : Block :=
  ⟨⟨1, isolatedWorld.meters.size⟩, p.statements, typed.statements, isolatedWorld.withMeter limits⟩

/-- When the program, which the checker has made into `typed`, is run on its own, the statement `s`
is run, of which the checker has made `t`. -/
def Executes (p : Program) (limits : Limits) (typed : TypedProgram) (c : Context) (s : Stmt)
    (t : TypedStmt) (w : World) : Prop :=
  ∃ rest trest, (p.isolatedBlock limits typed).Reaches (Eval.call (isolatedFuel limits))
    ⟨c, s :: rest, t :: trest, w⟩

variable {p : Program} {typed : TypedProgram} {types : Store Ty} {limits : Limits}

/-- The block of an accepted first-order program is well-typed. -/
theorem wellTyped_of_accepted (hp : FirstOrderStmts p.statements)
    (h : p.checkIsolated .empty = .ok typed types) (limits : Limits) :
    (p.isolatedBlock limits typed).WellTyped 1 0 isolatedTypes types := by
  rw [checkIsolated_eq] at h
  unfold Check.program at h
  simp only [bind_run_eq_ok_iff, pure_run_eq_ok_iff] at h
  obtain ⟨tbody, _, hbody, rfl, rfl⟩ := h
  exact ⟨hp, hbody, rfl, agree_isolatedWorld limits⟩

/-- A run of the program on its own does not fault. -/
theorem ends_of_wellTyped (hp : (p.isolatedBlock limits typed).WellTyped 1 0 isolatedTypes types) :
    Ends Stop.IsFault (p.runIsolated limits) {} fun _ _ => True := by
  obtain ⟨hfirst, haccepts, hparent, hagree⟩ := hp
  have hstmts := Eval.typed_stmts (n := isolatedFuel limits) p.statements hfirst haccepts hparent
    ⟨1, isolatedWorld.meters.size⟩ .nil _ hagree
  rw [Ends, runIsolated_eq, runWith_eq, ← Ends]
  refine Ends.bind hstmts ?_
  rintro completion w' ⟨v, rfl, -, -⟩
  exact Ends.of_ok rfl trivial

/-- A first-order program that is accepted runs to its end unless it divides by zero or uses up its
gas, and every declaration, assignment and expression that is completed on the way gives a value of
its type. -/
theorem type_sound (hp : FirstOrderStmts p.statements)
    (h : p.checkIsolated .empty = .ok typed types) (limits : Limits) :
    (∀ e w, p.runIsolated limits {} = .error e w →
      e = .error .divisionByZero ∨ ∃ limit, e = .error (.gasExhausted limit)) ∧
    ∀ c s t w, p.Executes limits typed c s t w → ∀ completion w',
      Eval.stmt (Eval.call (isolatedFuel limits)) c s w = .ok completion w' →
      ∃ v, completion = .normal v ∧ t.Gives v := by
  have hstart := wellTyped_of_accepted hp h limits
  constructor
  · intro e w hrun
    exact Stop.eq_of_not_isFault ((ends_of_wellTyped hstart).avoids e w hrun)
  · rintro c s t w ⟨rest, trest, hreaches⟩ completion w' hrun
    obtain ⟨f, q, types₁, types₂, hfirst, haccepts, hparent, hagree⟩ :=
      hreaches.wellTyped ⟨_, _, _, _, hstart⟩
    simp only [Check.stmts, bind_run_eq_ok_iff, pure_run_eq_ok_iff] at haccepts
    obtain ⟨t', _, hstmt, _, _, -, htyped, -⟩ := haccepts
    cases htyped
    obtain ⟨v, hv, hgives, -⟩ := (Eval.typed_stmt s hfirst.1 hstmt hparent c w hagree).of_run hrun
    exact ⟨v, hv, hgives⟩

/-- A loop that adds up integers, prints them through another name for `print`, and divides by what
is left of the sum. -/
def summing : Program :=
  ⟨[.declare ⟨"total", some "Integer", some (.literal (.integer 0))⟩,
    .declare ⟨"say", none, some (.variable "print")⟩,
    .forEach "i" (.call "range" [.literal (.integer 1), .literal (.integer 3)])
      [.assign (.variable "total") (.binary .add (.variable "total") (.variable "i")),
       .branch (.binary .less (.variable "i") (.literal (.integer 2)))
         [.declare ⟨"total", none,
            some (.binary .add (.literal (.string "first: ")) (.variable "i"))⟩,
          .expression (.call "say" [.variable "total"])]
         [.expression (.call "log" [.variable "total"])]],
    .expression (.binary .div (.variable "total")
      (.group (.binary .sub (.variable "total") (.literal (.integer 6)))))]⟩

theorem type_sound_summing : FirstOrderStmts summing.statements ∧
    (summing.checkIsolated .empty).isOk = true ∧
    (summing.runIsolated ⟨1000, 0⟩ {}).isOk = false ∧
    ∀ e w, summing.runIsolated ⟨1000, 0⟩ {} = .error e w →
      e = .error .divisionByZero ∨ ∃ limit, e = .error (.gasExhausted limit) := by
  have hp : FirstOrderStmts summing.statements := by
    simp [summing, FirstOrderStmts, Stmt.FirstOrder, Declaration.FirstOrder, Expr.FirstOrder,
      FirstOrderExprs, primitiveNames]
  have hok : (summing.checkIsolated .empty).isOk = true := by decide +kernel
  have hfails : (summing.runIsolated ⟨1000, 0⟩ {}).isOk = false := by decide +kernel
  obtain ⟨typed, types, h⟩ := EStateM.Result.isOk_iff.mp hok
  exact ⟨hp, hok, hfails, (type_sound hp h ⟨1000, 0⟩).1⟩

end Program

end ObjectLang
