import ObjectLang.Proofs.Eval.Lockstep
import ObjectLang.Proofs.Eval.Meter
import ObjectLang.Proofs.Scope.Growth

/-!
# Growth of a world

Evaluation only adds to the world. Frames keep their parents and the order of their names, functions
stay in the table, gas is never given back, and texts and values are printed and logged after those
that were printed and logged before. This holds of every run, however it ends.

Names are added where they should be: an expression and a call add none to the frames that they
find, a statement adds at most its own name and only to the frame of its context. -/

namespace ObjectLang

/-- `w'` is a later state of `w`, in which only the frame `g` of `w` has got new names. -/
structure World.Grows (g : Option FrameId) (w w' : World) : Prop where
  store : Store.Grows Prod.fst g w.store w'.store
  functions : w.functions.toList <+: w'.functions.toList
  gas_le : ∀ m, (w.meter m).gas ≤ (w'.meter m).gas
  printed : w.printed.toList <+: w'.printed.toList
  logged : w.logged.toList <+: w'.logged.toList

theorem prefix_push {α : Type} (xs : Array α) (a : α) : xs.toList <+: (xs.push a).toList := by
  rw [Array.toList_push]
  exact List.prefix_append _ _

namespace World.Grows

variable {g : Option FrameId} {w w' w'' : World}

theorem refl (g : Option FrameId) (w : World) : Grows g w w :=
  ⟨.refl _ g _, List.prefix_rfl, fun _ => le_rfl, List.prefix_rfl, List.prefix_rfl⟩

theorem trans (h : Grows g w w') (h' : Grows g w' w'') : Grows g w w'' :=
  ⟨h.store.trans h'.store, h.functions.trans h'.functions,
    fun m => (h.gas_le m).trans (h'.gas_le m), h.printed.trans h'.printed,
    h.logged.trans h'.logged⟩

theorem weaken (h : Grows none w w') (g : Option FrameId) : Grows g w w' :=
  ⟨h.store.weaken g, h.functions, h.gas_le, h.printed, h.logged⟩

/-- A change of the store alone. -/
theorem of_store {store : Store Value} (h : Store.Grows Prod.fst g w.store store) :
    Grows g w { w with store := store } :=
  ⟨h, List.prefix_rfl, fun _ => le_rfl, List.prefix_rfl, List.prefix_rfl⟩

theorem opened (w : World) (p : FrameId) : Grows none w (w.opened p) :=
  .of_store (.newFrame _ w.store (some p))

/-- What is done to a frame that was opened before is not done to an older one. -/
theorem enclosed {p : FrameId} (h : Grows (some w.store.size) (w.opened p) w') :
    Grows none w w' := by
  have hopened := opened w p
  have hall := (hopened.weaken _).trans h
  exact ⟨hopened.store.enclosed le_rfl h.store, hall.functions, hall.gas_le, hall.printed,
    hall.logged⟩

/-- A change of a meter that takes no gas back. -/
theorem modifyMeter (w : World) (m : MeterId) {h : Meter → Meter} (hh : ∀ μ, μ.gas ≤ (h μ).gas) :
    Grows none w (w.modifyMeter m h) := by
  refine ⟨.refl _ _ _, List.prefix_rfl, fun m' => ?_, List.prefix_rfl, List.prefix_rfl⟩
  rw [meter_modifyMeter]
  split
  · exact hh _
  · exact le_rfl

theorem withFunction (g : Option FrameId) (w : World) (function : Function) :
    Grows g w (w.withFunction function) :=
  ⟨.refl _ _ _, prefix_push _ _, fun _ => le_rfl, List.prefix_rfl, List.prefix_rfl⟩

/-- No frame that was there before has got a new name. -/
theorem names_eq (h : Grows none w w') {f : FrameId} (hf : f < w.store.size) :
    w'.store.names f = w.store.names f :=
  h.store.view_eq f hf (by simp)

end World.Grows

namespace Eval

/-- However `x` ends, the world has only grown, and names were added to the frame `g` only. -/
def Confined (g : Option FrameId) {α : Type} (x : EvalM α) : Prop :=
  ∀ w : World, w.Grows g (x w).state

theorem Confined.bind {g : Option FrameId} {α β : Type} {x : EvalM α} {k : α → EvalM β}
    (hx : Confined g x) (hk : ∀ a, Confined g (k a)) : Confined g (x >>= k) := by
  intro w
  have hw := hx w
  rw [bind_run]
  cases h : x w with
  | ok a w' =>
    rw [h] at hw
    exact hw.trans (hk a w')
  | error e w' =>
    rw [h] at hw
    exact hw

/-- What is done to a frame that is opened on the way is not done to an older one. -/
theorem Confined.opened (p : FrameId) {α : Type} {k : FrameId → EvalM α}
    (hk : ∀ f, Confined (some f) (k f)) : Confined none (newFrame p >>= k) := by
  intro w
  exact (hk w.store.size (w.opened p)).enclosed

theorem Confined.withCall (m : MeterId) {α : Type} {x : EvalM α} (h : Confined none x) :
    Confined none (withCall m x) := by
  intro w
  rcases withCall_state m x w with hs | hs
  · rw [hs]
    exact .refl _ w
  · rw [hs]
    have henter : World.Grows none w (w.enter m) := .modifyMeter w m fun _ => le_rfl
    exact (henter.trans (h (w.enter m))).trans (.modifyMeter _ m fun _ => le_rfl)

/-- Confinement is kept by evaluation. -/
theorem confined_calls : Lockstep.Calls fun g _ x _ => Confined g x where
  pure _ := fun w => .refl _ w
  fail _ _ := fun w => .refl _ w
  weaken g h := fun w => (h w).weaken g
  bind hx hk := Confined.bind hx hk
  read _ h := fun w => h w w
  tick m := by
    intro _ w
    have hcharge : World.Grows none w (w.charge m) := .modifyMeter w m fun _ => Nat.le_succ _
    rw [tick_run]
    dsimp only
    split <;> exact hcharge
  opened p := fun hk => Confined.opened p hk
  append f name v := fun w => .of_store (.append _ _ f name v)
  replace f name v := fun w => .of_store (.replace _ f name v)
  newFunction function := fun _ w => .withFunction none w function
  function id := fun h w => h (w.function id) w
  recordPrinted text := fun w =>
    ⟨.refl _ _ _, List.prefix_rfl, fun _ => le_rfl, prefix_push w.printed text,
      List.prefix_rfl⟩
  recordLogged v := fun w =>
    ⟨.refl _ _ _, List.prefix_rfl, fun _ => le_rfl, List.prefix_rfl, prefix_push w.logged v⟩
  withCall m := fun h => Confined.withCall m h
  outOfFuel _ := fun w => .refl _ w

theorem confined : Lockstep (fun _ => True) fun g _ x _ => Confined g x := confined_calls.toLockstep

section Trees

variable {invoke : Invoke} (hi : ∀ id arguments, Confined none (invoke id arguments)) (c : Context)
include hi

theorem Confined.expr (e : Expr) : Confined none (expr invoke c e) :=
  @Treewise.sameExpr _ _ _ confined.treewise invoke invoke hi c trivial e

theorem Confined.optionalExpr (e : Option Expr) : Confined none (optionalExpr invoke c e) :=
  @Treewise.sameOption _ _ _ confined.treewise invoke invoke hi c trivial e

theorem Confined.stmt (s : Stmt) : Confined (s.home c.frame) (stmt invoke c s) :=
  @Treewise.sameStmt _ _ _ confined.treewise invoke invoke hi c trivial s

theorem Confined.stmts (last : Value) (body : List Stmt) :
    Confined (some c.frame) (stmts invoke c last body) :=
  @Treewise.sameStmts _ _ _ confined.treewise invoke invoke hi c trivial last body

end Trees

/-- A call adds no name to a frame that it finds. -/
theorem call_confined (fuel : Nat) (id : FunctionId) (arguments : List Value) :
    Confined none (call fuel id arguments) :=
  confined_calls.call le_rfl id arguments

/-! ## The names of a statement -/

theorem lookup_of_eq_some {f : FrameId} {name : String} {w : World} {v : Value}
    (h : w.store.lookup f name = some v) : lookup f name w = .ok v w := by
  unfold lookup
  rw [get_bind_run, h]
  rfl

theorem member_of_own? {members : FrameId} {name : String} {w : World} {v : Value}
    (h : w.store.own? members name = some v) : member members name w = .ok v w := by
  unfold member
  rw [get_bind_run, h]
  rfl

theorem set_of_owner {f owner : FrameId} {name : String} {w : World}
    (h : w.store.owner? f name = some owner) (v : Value) :
    set f name v w = .ok true { w with store := w.store.replace owner name v } := by
  unfold set
  rw [get_bind_run, h]
  rfl

theorem setOwn_of_own? {members : FrameId} {name : String} {w : World} {old : Value}
    (h : w.store.own? members name = some old) (v : Value) :
    setOwn members name v w = .ok true { w with store := w.store.replace members name v } := by
  unfold setOwn
  rw [get_bind_run, Store.defines, h]
  rfl

theorem requireFree_of_defines {f : FrameId} {name : String} {w : World}
    (h : w.store.defines f name = true) :
    requireFree f name w = .error (.error (.alreadyDefined name)) w :=
  congrFun (if_pos h) w

theorem requireFree_of_free {f : FrameId} {name : String} {w : World}
    (h : w.store.defines f name = false) : requireFree f name w = .ok () w :=
  congrFun (if_neg (by rw [h]; simp)) w

theorem define_of_defines {f : FrameId} {name : String} {w : World}
    (h : w.store.defines f name = true) (v : Value) :
    define f name v w = .error (.error (.alreadyDefined name)) w :=
  bind_run_error (requireFree_of_defines h) _

theorem define_of_free {f : FrameId} {name : String} {w : World}
    (h : w.store.defines f name = false) (v : Value) :
    define f name v w = .ok () { w with store := w.store.append f name v } :=
  bind_run_ok (requireFree_of_free h) _

/-- A name that is bound to what a quiet run yields is the only new one, and is added only if both
succeed. -/
theorem names_bind_define {α β : Type} {x : EvalM α} (hx : Confined none x) {frame : FrameId}
    {name : String} {v : α → Value} {k : α → β} {w : World}
    {r : EStateM.Result Stop World β}
    (hr : (do let a ← x; define frame name (v a); return k a : EvalM β) w = r) {f : FrameId}
    (hf : f < w.store.size) :
    r.state.store.names f =
      w.store.names f ++ if f = frame ∧ r.isOk = true then [name] else [] := by
  have hw := hx w
  have hnames : (x w).state.store.names f = w.store.names f := hw.names_eq hf
  have hsize : f < (x w).state.store.size := hf.trans_le hw.store.size_le
  cases h : x w with
  | error e w' =>
    rw [bind_run_error h] at hr
    subst hr
    simpa [h] using hnames
  | ok a w' =>
    rw [h, EStateM.Result.state_ok] at hnames hsize
    rw [bind_run_ok h] at hr
    cases hd : w'.store.defines frame name with
    | true =>
      rw [bind_run_error (define_of_defines hd _)] at hr
      subst hr
      simpa using hnames
    | false =>
      rw [bind_run_ok (define_of_free hd _), pure_run] at hr
      subst hr
      rw [← hnames]
      simp only [EStateM.Result.state_ok, EStateM.Result.isOk_ok, and_true, Store.names,
        Store.bindings_append]
      by_cases hframe : frame = f
      · subst hframe
        simp [hsize]
      · simp [hframe, Ne.symm hframe]

/-- A statement adds its own name at the end of the frame of its context, if it succeeds, and adds
no other name to the frames that it finds. -/
theorem names_stmt {invoke : Invoke} (hi : ∀ id arguments, Confined none (invoke id arguments))
    (c : Context) (s : Stmt) (w : World) {f : FrameId} (hf : f < w.store.size) :
    (stmt invoke c s w).state.store.names f =
      w.store.names f ++ if f = c.frame ∧ (stmt invoke c s w).isOk = true then s.binds else [] := by
  -- a statement that binds no name is confined to the frames that it opens
  have quiet (hs : s.home c.frame = none) (hb : s.binds = []) :
      (stmt invoke c s w).state.store.names f =
        w.store.names f ++ if f = c.frame ∧ (stmt invoke c s w).isOk = true then s.binds else [] := by
    have hw := Confined.stmt hi c s w
    rw [hs] at hw
    simpa [hb] using hw.names_eq hf
  cases s with
  | declare d =>
    obtain ⟨name, typeName, value⟩ := d
    have hx : Confined none
        (do tick c.meter; requireFree c.frame name; optionalExpr invoke c value) :=
      (confined.tick _ trivial).bind fun _ => (confined.requireFree _ _).bind fun _ =>
        .optionalExpr hi c value
    refine names_bind_define (v := id) (k := Completion.normal) hx ?_ hf
    simp only [stmt, declaration, bind_assoc, pure_bind, id]
  | define d =>
    have hx : Confined none
        (do tick c.meter; requireFree c.frame d.name; newClosure c d c.frame false) :=
      (confined.tick _ trivial).bind fun _ => (confined.requireFree _ _).bind fun _ =>
        confined.newClosure trivial _ _ _
    refine names_bind_define (v := Value.function)
      (k := fun id => Completion.normal (.function id)) hx ?_ hf
    simp only [stmt, bind_assoc]
  | _ => exact quiet rfl rfl

end Eval

end ObjectLang
