import ObjectLang.Proofs.Eval.Blocks
import ObjectLang.Proofs.Eval.Completed
import ObjectLang.Proofs.Program.Isolated

/-!
# Returns

A return ends the nearest call, from however deep inside of branches and loops. `Arrives` says which
statements of a block a run comes to. If it comes to a return, then the whole block does what the
return does, in the world that it leaves, and nothing after it; and a block returns in no other way.
So a call gives the value of the return that it comes to, and the empty value if it comes to none.
-/

namespace ObjectLang

namespace Eval

variable {invoke : Invoke} {c c' : Context} {s : Stmt} {body rest : List Stmt} {last v : Value}
  {w w' w₁ : World}

/-! ## Statements that are reached -/

/-- A run of a block from a world comes to a statement: it runs the statement in this context and
from this world. The statement is one of the block itself, or of the block of a branch or a loop in
it. -/
inductive Arrives (invoke : Invoke) :
    Context → List Stmt → World → Context → Stmt → World → Prop where
  /-- The first statement of the block is run. -/
  | here {c : Context} {s : Stmt} {rest : List Stmt} {w : World} :
      Arrives invoke c (s :: rest) w c s w
  /-- The rest of a block is run once its first statement has completed with a value. -/
  | next {c c' : Context} {s s' : Stmt} {rest : List Stmt} {w w₁ w' : World} {v : Value} :
      stmt invoke c s w = .ok (.normal v) w₁ → Arrives invoke c rest w₁ c' s' w' →
      Arrives invoke c (s :: rest) w c' s' w'
  /-- A branch runs one of its blocks. -/
  | branch {c c' : Context} {condition : Expr} {thenBody elseBody rest : List Stmt} {s' : Stmt}
      {w w₁ w' : World} {holds : Bool} {frame : FrameId} :
      enterBranch invoke c condition w = .ok (holds, frame) w₁ →
      Arrives invoke { c with frame := frame } (if holds then thenBody else elseBody) w₁ c' s' w' →
      Arrives invoke c (.branch condition thenBody elseBody :: rest) w c' s' w'
  /-- A loop runs its block for an item once the iterations for the items before have completed. -/
  | iteration {c c' : Context} {name : String} {items : Expr} {body rest : List Stmt} {s' : Stmt}
      {w w₁ w₂ w₃ w' : World} {done remaining : List Value} {item v : Value} {frame : FrameId} :
      loopItems invoke c items w = .ok (done ++ item :: remaining) w₁ →
      forEach (Eval.iteration invoke c name body) done w₁ = .ok (.normal v) w₂ →
      enterIteration c name item w₂ = .ok frame w₃ →
      Arrives invoke { c with frame := frame } body w₃ c' s' w' →
      Arrives invoke c (.forEach name items body :: rest) w c' s' w'

/-! ## What a return ends -/

/-- The run does not complete with a value: it returns or fails. -/
def Abrupt (r : EStateM.Result Stop World Completion) : Prop := ∀ v w, r ≠ .ok (.normal v) w

/-- What a return does: it is charged one step and evaluates its value. -/
def returnValue (invoke : Invoke) (c : Context) (value : Option Expr) : EvalM Value := do
  tick c.meter
  optionalExpr invoke c value

theorem stmt_ret (value : Option Expr) : stmt invoke c (.ret value) =
    (do return .returned (← returnValue invoke c value)) := by
  rw [stmt, returnValue, bind_assoc]

theorem stmt_ret_eq_ok_iff {value : Option Expr} :
    stmt invoke c (.ret value) w = .ok (.returned v) w' ↔
      returnValue invoke c value w = .ok v w' := by
  simp only [stmt_ret, bind_run_eq_ok_iff, pure_run_eq_ok_iff, Completion.returned.injEq]
  constructor
  · rintro ⟨_, _, hvalue, rfl, rfl⟩
    exact hvalue
  · intro hvalue
    exact ⟨v, w', hvalue, rfl, rfl⟩

theorem abrupt_ret (value : Option Expr) : Abrupt (stmt invoke c (.ret value) w) := by
  intro v w' h
  rw [stmt_ret] at h
  obtain ⟨_, _, _, hpure⟩ := bind_run_eq_ok_iff.mp h
  cases (pure_run_eq_ok_iff.mp hpure).1

/-- A block ends with its first statement if that does not complete with a value. -/
theorem stmts_of_abrupt (h : Abrupt (stmt invoke c s w)) :
    stmts invoke c last (s :: rest) w = stmt invoke c s w := by
  rw [stmts, bind_run]
  cases hs : stmt invoke c s w with
  | error e w' => rfl
  | ok completion w' =>
    cases completion with
    | normal v => exact absurd hs (h v w')
    | returned v => rfl

theorem stmts_of_normal (h : stmt invoke c s w = .ok (.normal v) w') :
    stmts invoke c last (s :: rest) w = stmts invoke c v rest w' := by
  rw [stmts, bind_run_ok h]

theorem forEach_of_normal {run : Value → EvalM Completion} {item : Value} {items : List Value}
    (h : run item w = .ok (.normal v) w') :
    forEach run (item :: items) w = forEach run items w' := by
  rw [forEach, bind_run_ok h]

/-- A loop ends with an iteration that does not complete with a value. -/
theorem forEach_of_abrupt {run : Value → EvalM Completion} {item : Value} {items : List Value}
    (h : Abrupt (run item w)) : forEach run (item :: items) w = run item w := by
  rw [forEach, bind_run]
  cases hrun : run item w with
  | error e w' => rfl
  | ok completion w' =>
    cases completion with
    | normal v => exact absurd hrun (h v w')
    | returned v => rfl

/-- Once the first iterations have completed, a loop goes on with the items that remain. -/
theorem forEach_append {run : Value → EvalM Completion} {done : List Value}
    (items : List Value) (h : forEach run done w = .ok (.normal v) w') :
    forEach run (done ++ items) w = forEach run items w' := by
  induction done generalizing w with
  | nil =>
    obtain ⟨-, rfl⟩ := pure_run_eq_ok_iff.mp h
    rfl
  | cons item done ih =>
    rw [forEach] at h
    obtain ⟨completion, w₁, hitem, hrest⟩ := bind_run_eq_ok_iff.mp h
    cases completion with
    | normal v' =>
      rw [List.cons_append, forEach_of_normal hitem]
      exact ih hrest
    | returned v' => cases (pure_run_eq_ok_iff.mp hrest).1

/-- If a run of a block comes to a return, then the block does what the return does. -/
theorem Arrives.stmts_eq {s' : Stmt} (h : Arrives invoke c body w c' s' w')
    (habrupt : Abrupt (stmt invoke c' s' w')) (last : Value) :
    stmts invoke c last body w = stmt invoke c' s' w' := by
  induction h generalizing last with
  | here => exact stmts_of_abrupt habrupt
  | next hs _ ih => rw [stmts_of_normal hs, ih habrupt]
  | @branch c c' condition thenBody elseBody rest s' w w₁ w' holds frame hentered _ ih =>
    have hstmt : stmt invoke c (.branch condition thenBody elseBody) w = stmt invoke c' s' w' := by
      rw [stmt_branch, bind_run_ok hentered]
      exact ih habrupt .nil
    rw [stmts_of_abrupt (hstmt ▸ habrupt), hstmt]
  | @iteration c c' name items body rest s' w w₁ w₂ w₃ w' done remaining item v frame hitems hdone
      hentered _ ih =>
    have hiteration : Eval.iteration invoke c name body item w₂ = stmt invoke c' s' w' := by
      rw [Eval.iteration, bind_run_ok hentered]
      exact ih habrupt .nil
    have hstmt : stmt invoke c (.forEach name items body) w = stmt invoke c' s' w' := by
      rw [stmt_forEach, bind_run_ok hitems, forEach_append _ hdone,
        forEach_of_abrupt (hiteration ▸ habrupt), hiteration]
    rw [stmts_of_abrupt (hstmt ▸ habrupt), hstmt]

/-! ## Where a return comes from -/

/-- A run of a block comes to a return, which ends with this value in this world. -/
def Returns (invoke : Invoke) (c : Context) (body : List Stmt) (w : World) (v : Value)
    (w' : World) : Prop :=
  ∃ c' value w₁, Arrives invoke c body w c' (.ret value) w₁ ∧
    returnValue invoke c' value w₁ = .ok v w'

theorem Returns.next (hs : stmt invoke c s w = .ok (.normal last) w₁)
    (h : Returns invoke c rest w₁ v w') : Returns invoke c (s :: rest) w v w' := by
  obtain ⟨c', value, w₂, harrives, hret⟩ := h
  exact ⟨c', value, w₂, .next hs harrives, hret⟩

/-- A loop that returns does so in one of its iterations. -/
theorem exists_iteration {run : Value → EvalM Completion} {items : List Value}
    (h : forEach run items w = .ok (.returned v) w') :
    ∃ done item remaining u w₁, items = done ++ item :: remaining ∧
      forEach run done w = .ok (.normal u) w₁ ∧ run item w₁ = .ok (.returned v) w' := by
  induction items generalizing w with
  | nil => cases (pure_run_eq_ok_iff.mp h).1
  | cons item items ih =>
    rw [forEach] at h
    obtain ⟨completion, w₁, hitem, hrest⟩ := bind_run_eq_ok_iff.mp h
    cases completion with
    | normal v' =>
      obtain ⟨done, item', remaining, u, w₂, rfl, hdone, hreturned⟩ := ih hrest
      exact ⟨item :: done, item', remaining, u, w₂, rfl, (forEach_of_normal hitem).trans hdone,
        hreturned⟩
    | returned v' =>
      obtain ⟨heq, rfl⟩ := pure_run_eq_ok_iff.mp hrest
      exact ⟨[], item, items, .nil, w, rfl, rfl, heq ▸ hitem⟩

mutual

/-- A statement that returns has come to a return. -/
theorem returns_stmt {c : Context} {w w' : World} {v : Value} : ∀ s : Stmt,
    stmt invoke c s w = .ok (.returned v) w' → ∀ rest, Returns invoke c (s :: rest) w v w'
  | .ret value, h, _ => ⟨c, value, w, .here, stmt_ret_eq_ok_iff.mp h⟩
  | .branch condition thenBody elseBody, h, _ => by
    rw [stmt_branch] at h
    obtain ⟨⟨holds, frame⟩, w₁, hentered, hbody⟩ := bind_run_eq_ok_iff.mp h
    have hreturns : Returns invoke { c with frame := frame }
        (if holds then thenBody else elseBody) w₁ v w' := by
      cases holds with
      | true => exact returns_stmts thenBody hbody
      | false => exact returns_stmts elseBody hbody
    obtain ⟨c', value, w₂, harrives, hret⟩ := hreturns
    exact ⟨c', value, w₂, .branch hentered harrives, hret⟩
  | .forEach name items body, h, _ => by
    rw [stmt_forEach] at h
    obtain ⟨values, w₁, hitems, hloop⟩ := bind_run_eq_ok_iff.mp h
    obtain ⟨done, item, remaining, u, w₂, rfl, hdone, hiteration⟩ := exists_iteration hloop
    obtain ⟨frame, w₃, hentered, hbody⟩ := bind_run_eq_ok_iff.mp hiteration
    obtain ⟨c', value, w₄, harrives, hret⟩ := returns_stmts body hbody
    exact ⟨c', value, w₄, .iteration hitems hdone hentered harrives, hret⟩
  | .declare d, h, _ => by
    simp only [stmt, bind_run_eq_ok_iff, pure_run_eq_ok_iff, reduceCtorEq, false_and, and_false,
      exists_false] at h
  | .define d, h, _ => by
    simp only [stmt, bind_run_eq_ok_iff, pure_run_eq_ok_iff, reduceCtorEq, false_and, and_false,
      exists_false] at h
  | .expression value, h, _ => by
    simp only [stmt, bind_run_eq_ok_iff, pure_run_eq_ok_iff, reduceCtorEq, false_and, and_false,
      exists_false] at h
  | .assign (.variable name) value, h, _ => by
    simp only [stmt, bind_run_eq_ok_iff, pure_run_eq_ok_iff, reduceCtorEq, false_and, and_false,
      exists_false] at h
  | .assign (.property receiver name) value, h, _ => by
    simp only [stmt, bind_run_eq_ok_iff, pure_run_eq_ok_iff, reduceCtorEq, false_and, and_false,
      exists_false] at h
  | .assign (.literal _) _, h, _ | .assign (.group _) _, h, _ | .assign (.binary _ _ _) _, h, _
  | .assign (.call _ _) _, h, _ | .assign (.method _ _ _) _, h, _
  | .assign (.object _ _ _) _, h, _ => by
    rw [stmt_assign_of_not_isTarget id] at h
    obtain ⟨_, _, _, hfail⟩ := bind_run_eq_ok_iff.mp h
    cases hfail

/-- A block that returns has come to a return. -/
theorem returns_stmts {c : Context} {last : Value} {w w' : World} {v : Value} : ∀ body : List Stmt,
    stmts invoke c last body w = .ok (.returned v) w' → Returns invoke c body w v w'
  | [], h => by
    rw [stmts] at h
    cases (pure_run_eq_ok_iff.mp h).1
  | s :: rest, h => by
    rw [stmts] at h
    obtain ⟨completion, w₁, hs, hrest⟩ := bind_run_eq_ok_iff.mp h
    cases completion with
    | normal u => exact (returns_stmts rest hrest).next hs
    | returned u =>
      obtain ⟨heq, rfl⟩ := pure_run_eq_ok_iff.mp hrest
      exact returns_stmt s (heq ▸ hs) rest

end

/-! ## Calls -/

/-- What a call does before it runs the function's statements: it opens a frame inside of the one
that the function remembers and binds the arguments there. -/
def enterBody (c : Closure) (arguments : List Value) : EvalM FrameId := do
  let frame ← newFrame c.captured
  defineAll frame (c.bindings.zip arguments)
  return frame

/-- A call that starts in `w` runs the function's statements in `frame`, from the world `w'`. -/
structure Enters (c : Closure) (arguments : List Value) (w : World) (frame : FrameId)
    (w' : World) : Prop where
  /-- There are as many arguments as the function binds. -/
  count : arguments.length = c.bindings.length
  /-- One more call may be nested. -/
  allowed : (w.meter c.meter).depth < (w.meter c.meter).limits.depth
  /-- The call counts as active, and its frame is filled. -/
  bound : enterBody c arguments (w.enter c.meter) = .ok frame w'

variable {n : Nat} {id : FunctionId} {function : Closure} {arguments : List Value} {frame : FrameId}

theorem runBody_succ (n : Nat) (c : Closure) (arguments : List Value) :
    runBody (n + 1) c arguments = (do
      let frame ← enterBody c arguments
      let completion ← stmts (call n) ⟨frame, c.meter⟩ .nil c.body
      return completion.result) := by
  rw [runBody, enterBody]
  simp only [bind_assoc, pure_bind]

theorem call_closure (hcode : (w.function id).code = .closure function) :
    call n id arguments w = (do
      requireArguments (w.function id).name function.bindings arguments
      withCall function.meter (runBody n function arguments)) w := by
  rw [call_eq, get_bind_run, applyFunction, hcode]

/-- A call that is entered ends as the function's statements do, and is then no longer active. -/
theorem Enters.call_eq (h : Enters function arguments w frame w')
    (hcode : (w.function id).code = .closure function) :
    call (n + 1) id arguments w =
      ((Completion.result <$> stmts (call n) ⟨frame, function.meter⟩ .nil function.body)
        w').mapState (World.leave · function.meter) := by
  have hcount : requireArguments (w.function id).name function.bindings arguments w = .ok () w :=
    congrFun (if_pos h.count) w
  rw [call_closure hcode, bind_run_ok hcount, withCall_run, if_neg (Nat.not_le.mpr h.allowed),
    runBody_succ, bind_run_ok h.bound, map_eq_pure_bind]

/-- A call that succeeds was entered, and its function's statements completed. -/
theorem enters_of_call_eq_ok (hcode : (w.function id).code = .closure function)
    (h : call n id arguments w = .ok v w') :
    ∃ k frame w₀ completion w₁, n = k + 1 ∧ Enters function arguments w frame w₀ ∧
      stmts (call k) ⟨frame, function.meter⟩ .nil function.body w₀ = .ok completion w₁ ∧
      v = completion.result := by
  rw [call_closure hcode] at h
  obtain ⟨_, _, hcount, hcall⟩ := bind_run_eq_ok_iff.mp h
  obtain ⟨hlength, rfl⟩ := requireArguments_eq_ok hcount
  rw [withCall_run] at hcall
  split at hcall
  · cases hcall
  · next hallowed =>
    cases n with
    | zero => cases hcall
    | succ k =>
      cases hbody : runBody (k + 1) function arguments (World.enter _ function.meter) with
      | error e w₁ =>
        rw [hbody] at hcall
        cases hcall
      | ok u w₁ =>
        rw [hbody] at hcall
        cases hcall
        simp only [runBody_succ, bind_run_eq_ok_iff, pure_run_eq_ok_iff] at hbody
        obtain ⟨frame, w₀, hbound, completion, _, hstmts, rfl, rfl⟩ := hbody
        exact ⟨k, frame, w₀, completion, _, rfl, ⟨hlength, Nat.not_le.mp hallowed, hbound⟩, hstmts,
          rfl⟩

/-- If a call comes to a return, then it ends as the value of the return does, in the same world but
for the call that is no longer active; it succeeds if the value does, and fails if that fails. If a
call succeeds without coming to a return, then it gives the empty value, whatever its last statement
gives. -/
theorem call_ends_with_return (n : Nat) (arguments : List Value)
    (hcode : (w.function id).code = .closure function) :
    (∀ frame w₀ c' value w₁, Enters function arguments w frame w₀ →
      Arrives (call n) ⟨frame, function.meter⟩ function.body w₀ c' (.ret value) w₁ →
      call (n + 1) id arguments w =
        (returnValue (call n) c' value w₁).mapState (World.leave · function.meter)) ∧
    (∀ v w', call (n + 1) id arguments w = .ok v w' →
      ∃ frame w₀, Enters function arguments w frame w₀ ∧
        ((∃ c' value w₁,
          Arrives (call n) ⟨frame, function.meter⟩ function.body w₀ c' (.ret value) w₁) ∨
        v = .nil)) := by
  constructor
  · intro frame w₀ c' value w₁ henters harrives
    have hstmts := harrives.stmts_eq (abrupt_ret value) .nil
    rw [henters.call_eq hcode, map_eq_pure_bind, bind_run, hstmts, stmt_ret, bind_run]
    cases returnValue (call n) c' value w₁ with
    | error e w₂ => rfl
    | ok v w₂ => rfl
  · intro v w' h
    obtain ⟨k, frame, w₀, completion, w₁, hk, henters, hstmts, rfl⟩ := enters_of_call_eq_ok hcode h
    cases hk
    refine ⟨frame, w₀, henters, ?_⟩
    cases completion with
    | normal u => exact .inr rfl
    | returned u =>
      obtain ⟨c', value, w₂, harrives, -⟩ := returns_stmts function.body hstmts
      exact .inl ⟨c', value, w₂, harrives⟩

/-- A function that looks for the first of three numbers whose square is above a bound. -/
def search : Closure where
  parameters := ["bound"]
  body :=
    [.forEach "i" (.call "list" [.literal (.integer 1), .literal (.integer 2),
        .literal (.integer 3)])
      [.branch (.binary .less (.variable "bound")
          (.binary .mul (.variable "i") (.variable "i")))
        [.declare ⟨"found", none, some (.variable "i")⟩, .ret (some (.variable "found"))] [],
       .expression (.call "log" [.variable "i"])],
     .expression (.call "log" [.literal (.integer 0)])]
  captured := 1
  meter := 0
  isMethod := false

/-- A world in which the function is the only one that is not the host's. -/
def searchWorld : World :=
  (isolatedWorld.withMeter ⟨1000, 10⟩).withFunction ⟨"search", .closure search⟩

/-- The return in the second iteration ends the call: neither the rest of that iteration nor the
third one nor the last statement is run, which would log something more. If no number is found, then
the value of the last statement is not that of the call. -/
theorem call_ends_with_return_search :
    (searchWorld.function 4).code = .closure search ∧
    (∃ frame w₀ c' value w₁ w₂, Enters search [.integer 3] searchWorld frame w₀ ∧
      Arrives (call 9) ⟨frame, search.meter⟩ search.body w₀ c' (.ret value) w₁ ∧
      returnValue (call 9) c' value w₁ = .ok (.integer 2) w₂ ∧ w₂.logged.size = 1 ∧
      call 10 4 [.integer 3] searchWorld = .ok (.integer 2) (w₂.leave search.meter)) ∧
    (∃ w', call 10 4 [.integer 9] searchWorld = .ok .nil w' ∧ w'.logged.size = 4) := by
  have hcode : (searchWorld.function 4).code = .closure search := rfl
  have henters : Enters search [.integer 3] searchWorld 2
      (enterBody search [.integer 3] (searchWorld.enter 0)).state := ⟨rfl, by decide, rfl⟩
  have hreturned : stmts (call 9) ⟨2, 0⟩ .nil search.body
      (enterBody search [.integer 3] (searchWorld.enter 0)).state =
        .ok (.returned (.integer 2)) (stmts (call 9) ⟨2, 0⟩ .nil search.body
          (enterBody search [.integer 3] (searchWorld.enter 0)).state).state :=
    EStateM.Result.eq_ok_of_value? (by decide +kernel)
  obtain ⟨c', value, w₁, harrives, hvalue⟩ := returns_stmts search.body hreturned
  have hcall := (call_ends_with_return 9 [.integer 3] hcode).1 _ _ c' value w₁ henters harrives
  rw [hvalue] at hcall
  have hnone : call 10 4 [.integer 9] searchWorld =
      .ok .nil (call 10 4 [.integer 9] searchWorld).state :=
    EStateM.Result.eq_ok_of_value? (by decide +kernel)
  exact ⟨hcode,
    ⟨_, _, c', value, w₁, _, henters, harrives, hvalue, by decide +kernel, hcall⟩,
    _, hnone, by decide +kernel⟩

end Eval

end ObjectLang
