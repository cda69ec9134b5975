import Mathlib.Data.List.Forall2
import ObjectLang.Proofs.Agreement
import ObjectLang.Proofs.Check.Accepted
import ObjectLang.Proofs.Eval.Blocks
import ObjectLang.Proofs.Eval.Growth
import ObjectLang.Proofs.Program.FirstOrder

/-!
# Accepted first-order programs keep to their types

A first-order program that the checker accepts gives values of the types that the checker has found,
and nothing but a division by zero or the gas limit stops it. What carries this through a run is
that the frames agree with the type frames. An expression changes neither; a statement changes both
alike.

The checker visits a block once, in a type frame of its own, while a run may open many frames for
it. Each of them agrees with that one type frame, because type frames do not change once a block is
checked. -/

namespace ObjectLang

/-- The run stopped for another reason than a division by zero or the gas limit. -/
def Stop.IsFault : Stop → Prop
  | .error .divisionByZero | .error (.gasExhausted _) => False
  | _ => True

namespace Eval

/-! ## Runs that leave frames and functions alone -/

/-- The run neither faults nor changes frames or functions, and `P` holds of its value. -/
def Yields {α : Type} (x : EvalM α) (w : World) (P : α → Prop) : Prop :=
  Ends Stop.IsFault x w fun a w' => w.Same w' ∧ P a

namespace Yields

variable {α β : Type} {w : World} {x : EvalM α} {P Q : α → Prop}

theorem of_ok {a : α} {w' : World} (hx : x w = .ok a w') (hw : w.Same w') (h : P a) :
    Yields x w P := Ends.of_ok hx ⟨hw, h⟩

theorem pure {a : α} (h : P a) : Yields (pure a) w P := .of_ok rfl (.refl w) h

theorem bind {k : α → EvalM β} {R : β → Prop} (hx : Yields x w P)
    (hk : ∀ a w', w.Same w' → P a → Yields (k a) w' R) : Yields (x >>= k) w R := by
  refine Ends.bind hx ?_
  rintro a w' ⟨hw, ha⟩
  refine Ends.mono (hk a w' hw ha) ?_
  intro b w'' _ h
  exact ⟨hw.trans h.1, h.2⟩

theorem mono (hx : Yields x w P) (h : ∀ a, P a → Q a) : Yields x w Q :=
  Ends.mono hx fun a _ _ ha => ⟨ha.1, h a ha.2⟩

theorem read {k : World → EvalM α} (h : Yields (k w) w P) : Yields (get >>= k) w P := by
  rw [Yields, Ends, get_bind_run]
  exact h

theorem tick (m : MeterId) (w : World) : Yields (tick m) w fun _ => True := by
  have hrun := tick_run m w
  dsimp only at hrun
  split at hrun
  · exact Ends.of_error hrun id
  · exact .of_ok hrun ⟨rfl, rfl⟩ trivial

theorem result {functions : Array Function} {ty : Ty} {r : Except EvalError Value}
    (h : Delivers functions ty r) : Yields (result r) w (·.Fits functions ty) := by
  cases r with
  | ok v => exact .pure h
  | error e =>
    cases h
    exact Ends.of_error rfl id

theorem truth {functions : Array Function} {v : Value} (h : v.Fits functions .boolean) :
    Yields (Eval.result v.truth) w fun _ => True := by
  obtain ⟨b, rfl⟩ := Value.eq_boolean_of_kind h
  exact .pure trivial

/-- A host function takes arguments that fit its parameters to a value that fits its result. -/
theorem host {functions : Array Function} (name : String) {f : HostFunction} {params : List Ty}
    {returns : Ty} (hf : f.ty? = some (.function params returns)) {arguments : List Value}
    (h : List.Forall₂ (·.Fits functions ·) arguments params) :
    Yields (host name f arguments) w (·.Fits functions returns) := by
  cases f with
  | log =>
    cases hf
    obtain ⟨v, _, -, htail, rfl⟩ := List.forall₂_cons_right_iff.mp h
    cases htail
    exact .of_ok rfl ⟨rfl, rfl⟩ trivial
  | print =>
    cases hf
    obtain ⟨v, _, -, htail, rfl⟩ := List.forall₂_cons_right_iff.mp h
    cases htail
    exact .of_ok rfl ⟨rfl, rfl⟩ rfl
  | range =>
    cases hf
    obtain ⟨v, _, hv, htail, rfl⟩ := List.forall₂_cons_right_iff.mp h
    obtain ⟨u, _, hu, htail', rfl⟩ := List.forall₂_cons_right_iff.mp htail
    cases htail'
    obtain ⟨a, rfl⟩ := Value.eq_integer_of_kind hv
    obtain ⟨b, rfl⟩ := Value.eq_integer_of_kind hu
    exact .pure ⟨integersBetween a b, rfl⟩
  | _ => cases hf

end Yields

/-! ## Expressions -/

section

variable {n : Nat} {f : FrameId} {types types' : Store Ty} {c : Context} {w : World}

/-- A name that has a type is looked up without a fault. -/
theorem Yields.lookup (h : Agree types w f c.frame) {name : String} {ty : Ty}
    (hty : types.lookup f name = some ty) :
    Yields (lookup c.frame name) w (·.Fits w.functions ty) := by
  obtain ⟨v, hv, hfits⟩ := h.lookup hty
  exact .of_ok (lookup_of_eq_some hv) (.refl w) hfits

/-- A call of a function that fits a function type gives a value of its result type. -/
theorem Yields.call {id : FunctionId} {params : List Ty} {returns : Ty} {arguments : List Value}
    (hid : (Value.function id).Fits w.functions (.function params returns))
    (h : List.Forall₂ (·.Fits w.functions ·) arguments params) :
    Yields (call n id arguments) w (·.Fits w.functions returns) := by
  obtain ⟨id', host, heq, hcode, hty⟩ := hid
  cases heq
  have happly : applyFunction n (w.function id) arguments =
      Eval.host (w.function id).name host arguments := by
    rw [applyFunction, World.function, hcode]
  rw [call_eq]
  refine .read ?_
  rw [happly]
  exact Yields.host _ hty h

theorem not_isAbstract_of_ty? {host : HostFunction} {params : List Ty} {returns : Ty}
    (h : host.ty? = some (.function params returns)) : ∀ ty ∈ params, ¬ ty.IsAbstract := by
  intro ty hmem
  cases host <;> cases h
  all_goals
    simp only [List.mem_cons, List.not_mem_nil, or_false, or_self] at hmem
    subst hmem
    exact id

theorem result_ok_bind {α β : Type} (a : α) (k : α → EvalM β) :
    (result (.ok a) >>= k) = k a := rfl

theorem callable_bind {β : Type} (name : String) (id : FunctionId) (k : FunctionId → EvalM β) :
    (callable name (.function id) >>= k) = k id := rfl

mutual

/-- An accepted expression changes no type frame, and gives a value of its type. -/
theorem typed_expr : ∀ {types types' : Store Ty} {t : TypedExpr} (e : Expr), e.FirstOrder →
    Check.expr f e types = .ok t types' → types' = types ∧ ∀ (c : Context) (w : World),
      Agree types w f c.frame → Yields (expr (call n) c e) w (·.Fits w.functions t.ty)
  | _, _, _, .literal value, _, h => by
    rw [Check.expr] at h
    cases h
    refine ⟨rfl, ?_⟩
    intro c w _
    rw [expr]
    exact (Yields.tick c.meter w).bind fun _ _ _ _ => .pure (value.fits w.functions)
  | _, _, _, .group inner, he, h => by
    simp only [Check.expr, bind_run_eq_ok_iff, pure_run_eq_ok_iff] at h
    obtain ⟨tinner, _, hinner, rfl, rfl⟩ := h
    obtain ⟨rfl, hvalue⟩ := typed_expr inner he hinner
    refine ⟨rfl, ?_⟩
    intro c w hagree
    rw [expr]
    refine (Yields.tick c.meter w).bind ?_
    intro _ w₁ hw₁ _
    rw [← hw₁.functions]
    exact hvalue c w₁ (hagree.same hw₁)
  | _, _, _, .binary op left right, he, h => by
    simp only [Check.expr, bind_run_eq_ok_iff, pure_run_eq_ok_iff] at h
    obtain ⟨tleft, _, hleft, tright, _, hright, ty, _, hrule, rfl, rfl⟩ := h
    obtain ⟨rfl, hleft⟩ := typed_expr left he.1 hleft
    obtain ⟨rfl, hright⟩ := typed_expr right he.2 hright
    obtain ⟨hty, rfl⟩ := Check.result_eq_ok hrule
    refine ⟨rfl, ?_⟩
    intro c w hagree
    rw [expr]
    refine (Yields.tick c.meter w).bind ?_
    intro _ w₁ hw₁ _
    refine (hleft c w₁ (hagree.same hw₁)).bind ?_
    intro a w₂ hw₂ ha
    rw [hw₁.functions] at ha
    obtain ⟨r, hr, hdecided⟩ := Operator.decidedBy_of_fits hty ha
    rw [hr, result_ok_bind]
    cases r with
    | some v => exact .pure (hdecided v rfl)
    | none =>
      have hw := hw₁.trans hw₂
      refine (hright c w₂ (hagree.same hw)).bind ?_
      intro b w₃ _ hb
      rw [hw.functions] at hb
      exact .read (.result (Operator.delivers_apply hty ha hb))
  | _, _, _, .variable name, _, h => by
    simp only [Check.expr, bind_run_eq_ok_iff, pure_run_eq_ok_iff] at h
    obtain ⟨ty, _, hlookup, rfl, rfl⟩ := h
    obtain ⟨hty, rfl⟩ := Check.lookup_eq_ok hlookup
    refine ⟨rfl, ?_⟩
    intro c w hagree
    rw [expr]
    refine (Yields.tick c.meter w).bind ?_
    intro _ w₁ hw₁ _
    rw [← hw₁.functions]
    exact .lookup (hagree.same hw₁) hty
  | _, _, _, .call name arguments, he, h => by
    simp only [Check.expr, bind_run_eq_ok_iff, pure_run_eq_ok_iff] at h
    obtain ⟨ty, _, hlookup, ⟨params, returns⟩, _, hcallable, ts, _, harguments, rfl, rfl⟩ := h
    obtain ⟨hty, rfl⟩ := Check.lookup_eq_ok hlookup
    obtain ⟨rfl, hlength, rfl⟩ := Check.callable_eq_ok hcallable
    obtain ⟨rfl, hvalues⟩ := typed_exprs arguments params he harguments hlength.symm
    refine ⟨rfl, ?_⟩
    intro c w hagree
    rw [expr]
    refine (Yields.tick c.meter w).bind ?_
    intro _ w₁ hw₁ _
    refine (Yields.lookup (hagree.same hw₁) hty).bind ?_
    rintro target w₂ hw₂ ⟨id, host, rfl, hcode, hhost⟩
    have hw := hw₁.trans hw₂
    have hfits : (Value.function id).Fits w₁.functions (.function params returns) :=
      ⟨id, host, rfl, hcode, hhost⟩
    rw [callable_bind]
    refine (hvalues c w₂ (hagree.same hw) (not_isAbstract_of_ty? hhost)).bind
      fun values w₃ hw₃ harguments => ?_
    rw [← hw₃.functions] at harguments
    have hfunctions : w₃.functions = w₁.functions := (hw₂.trans hw₃).functions
    rw [← hw₁.functions, ← hfunctions]
    exact .call (hfunctions ▸ hfits) harguments

/-- Accepted arguments change no type frame, and give values that fit the parameters. -/
theorem typed_exprs :
    ∀ {types types' : Store Ty} {ts : List TypedExpr} (es : List Expr) (params : List Ty),
    FirstOrderExprs es → Check.exprs f es params types = .ok ts types' →
    es.length = params.length → types' = types ∧ ∀ (c : Context) (w : World),
      Agree types w f c.frame → (∀ ty ∈ params, ¬ ty.IsAbstract) →
      Yields (exprs (call n) c es) w fun vs => List.Forall₂ (·.Fits w.functions ·) vs params
  | _, _, _, [], [], _, h, _ => by
    rw [Check.exprs.eq_def] at h
    cases h
    refine ⟨rfl, ?_⟩
    intro c w _ _
    rw [exprs]
    exact .pure .nil
  | _, _, _, e :: rest, ty :: params, he, h, hlength => by
    simp only [Check.exprs, bind_run_eq_ok_iff, pure_run_eq_ok_iff] at h
    obtain ⟨t, _, hexpr, _, _, hsubtype, trest, _, hrest, rfl, rfl⟩ := h
    obtain ⟨rfl, hvalue⟩ := typed_expr e he.1 hexpr
    obtain ⟨hsub, rfl⟩ := Check.requireSubtype_eq_ok hsubtype
    obtain ⟨rfl, hvalues⟩ := typed_exprs rest params he.2 hrest (Nat.succ.inj hlength)
    refine ⟨rfl, ?_⟩
    intro c w hagree habstract
    rw [exprs]
    refine (hvalue c w hagree).bind ?_
    intro v w₁ hw₁ hv
    refine (hvalues c w₁ (hagree.same hw₁) fun ty' hmem =>
      habstract ty' (List.mem_cons_of_mem _ hmem)).bind fun vs w₂ hw₂ hvs => ?_
    rw [hw₁.functions] at hvs
    exact .pure (.cons (hv.subtype hsub (habstract ty List.mem_cons_self)) hvs)

end

end

/-! ## Statements -/

end Eval

/-- The value is one of the type that the statement is about: of what it binds, evaluates or assigns
to. Nothing is said of the values of other statements. -/
def TypedStmt.Gives : TypedStmt → Value → Prop
  | .declare declaration, v => v.Conforms declaration.ty
  | .expression value, v => v.Conforms value.ty
  | .assignVariable _ ty _, v => v.Conforms ty
  | _, _ => True

namespace Eval

/-- The run does not fault. If it completes, then normally, with a value of which `P` holds, and the
frame agrees with the type frame. -/
def Completes (types : Store Ty) (f g : FrameId) (x : EvalM Completion) (w : World)
    (P : Value → Prop) : Prop :=
  Ends Stop.IsFault x w fun completion w' =>
    ∃ v, completion = .normal v ∧ P v ∧ Agree types w' f g

/-- What is said of a value where nothing is said of it. -/
def anyValue (_ : Value) : Prop := True

section

variable {n : Nat} {f g p : FrameId} {types types' : Store Ty} {c : Context} {w : World}
  {P Q : Value → Prop}

theorem Completes.normal (h : Agree types w f g) {v : Value} (hv : P v) :
    Completes types f g (pure (.normal v)) w P :=
  .of_ok rfl ⟨v, rfl, hv, h⟩

theorem Completes.mono {x : EvalM Completion} (hx : Completes types f g x w P)
    (h : ∀ v w', P v → Agree types w' f g → Q v ∧ Agree types' w' f g) :
    Completes types' f g x w Q := by
  refine Ends.mono hx ?_
  rintro completion w' _ ⟨v, hv, hP, hagree⟩
  exact ⟨v, hv, h v w' hP hagree⟩

theorem Yields.completes {α : Type} {x : EvalM α} {R : α → Prop} {k : α → EvalM Completion}
    (hx : Yields x w R) (hk : ∀ a w', w.Same w' → R a → Completes types f g (k a) w' P) :
    Completes types f g (x >>= k) w P :=
  Ends.bind hx fun a w' h => hk a w' h.1 h.2

/-- Frames agree with their type frames for as long as these are not changed themselves. -/
theorem agree_grows_iff (hp : types.parent? f = some p) (h : Store.Grows id none types types') :
    Agree types w f g ↔ Agree types' w f g := by
  have hsame : types.SameUpTo types' f := .of_grows h (types.parent?_lt_size hp)
  constructor
  · intro hagree
    exact hagree.congr hsame (.refl w.store g) rfl
  · intro hagree
    exact hagree.congr hsame.symm (.refl w.store g) rfl

/-- When a block is left, the frames around it agree with the types before the block. -/
theorem Completes.leave {frame k : FrameId} {inner : Store Ty} {body : List Stmt}
    {typed : List TypedStmt}
    (hbody : Completes types' k frame (stmts (call n) { c with frame := frame } .nil body) w P)
    (hparent : w.store.parent? frame = some c.frame) (hp : types.parent? f = some p)
    (hblock : Check.AcceptsBlock f k types inner types' body typed) :
    Completes types f c.frame (stmts (call n) { c with frame := frame } .nil body) w P := by
  refine Ends.mono hbody ?_
  rintro completion w' hrun ⟨v, hv, hP, hagree⟩
  have hgrows := Confined.stmts (call_confined n) { c with frame := frame } .nil body w
  rw [hrun] at hgrows
  have hparent' : w'.store.parent? frame = some c.frame := by
    rw [← hparent]
    exact hgrows.store.parent_eq frame (w.store.parent?_lt_size hparent)
  have hagree' := hagree.parent hblock.parent_eq' hparent'
  exact ⟨v, hv, hP, (agree_grows_iff hp hblock.grows).mpr hagree'⟩

/-- The frame was opened just now below the frame of the context, which agrees with the types. -/
def Opened (types : Store Ty) (f : FrameId) (c : Context) (frame : FrameId) (w : World) : Prop :=
  ∃ w₀ : World, Agree types w₀ f c.frame ∧ frame = w₀.store.size ∧
    w = w₀.opened c.frame

/-- An opened frame agrees with a type frame that was opened below the same types. -/
theorem Opened.agree {frame : FrameId} (h : Opened types f c frame w)
    (hp : types.parent? f = some p) :
    w.store.parent? frame = some c.frame ∧
      Agree (types.newFrame (some f)).2 w types.size frame := by
  obtain ⟨w₀, hagree, rfl, rfl⟩ := h
  exact ⟨w₀.store.parent?_newFrame_size (hagree.lt_size hp).2, hagree.opened hp⟩

theorem Opened.grows {frame : FrameId} (h : Opened types f c frame w)
    (hp : types.parent? f = some p) (htypes : Store.Grows id none types types') :
    Opened types' f c frame w := by
  obtain ⟨w₀, hagree, hframe, hw⟩ := h
  exact ⟨w₀, (agree_grows_iff hp htypes).mp hagree, hframe, hw⟩

/-- A branch whose condition is a truth value opens the frame of its block. -/
theorem enterBranch_ends {condition : Expr} (hcondition : ∀ w, Agree types w f c.frame →
      Yields (expr (call n) c condition) w (·.Fits w.functions .boolean))
    (h : Agree types w f c.frame) :
    Ends Stop.IsFault (enterBranch (call n) c condition) w fun entered w' =>
      Opened types f c entered.2 w' := by
  rw [enterBranch]
  refine Ends.bind (Yields.tick c.meter w) ?_
  intro _ w₁ hw₁
  have h₁ := h.same hw₁.1
  refine Ends.bind (hcondition w₁ h₁) ?_
  rintro v w₂ ⟨hsame, hfits⟩
  refine Ends.bind (Yields.truth hfits) ?_
  intro holds w₃ hw₃
  exact Ends.of_ok rfl ⟨w₃, (h₁.same hsame).same hw₃.1, rfl, rfl⟩

/-- A loop over what can be iterated over finds integers. -/
theorem loopItems_yields {items : Expr} (hitems : ∀ w, Agree types w f c.frame →
      Yields (expr (call n) c items) w (·.Fits w.functions .iterable))
    (h : Agree types w f c.frame) :
    Yields (loopItems (call n) c items) w fun values =>
      ∃ ints : List Int, values = ints.map .integer := by
  rw [loopItems]
  refine (Yields.tick c.meter w).bind ?_
  intro _ w₁ hw₁ _
  refine (hitems w₁ (h.same hw₁)).bind ?_
  rintro v w₂ _ ⟨ints, rfl⟩
  exact .pure ⟨ints, rfl⟩

theorem requireFree_of_own? {name : String} (h : w.store.own? g name = none) :
    requireFree g name w = .ok () w := by
  refine requireFree_of_free ?_
  rw [Store.defines, h]
  rfl

/-- An iteration opens a frame in which the name has an integer. -/
theorem enterIteration_ends {name : String} {i : Int} (h : Agree types w f c.frame)
    (hp : types.parent? f = some p) :
    Ends Stop.IsFault (enterIteration c name (.integer i)) w fun frame w' =>
      w'.store.parent? frame = some c.frame ∧
        Agree ((types.newFrame (some f)).2.append types.size name .integer) w' types.size frame := by
  have hopened : Opened types f c w.store.size (w.opened c.frame) := ⟨w, h, rfl, rfl⟩
  obtain ⟨hparent, hagree⟩ := hopened.agree hp
  have hf := types.parent?_lt_size hp
  have hempty : (types.newFrame (some f)).2.own? types.size name = none := by
    rw [Store.own?, Store.bindings_newFrame, types.bindings_of_size_le le_rfl]
    rfl
  have hfits : (Value.integer i).Fits w.functions .integer := rfl
  obtain ⟨hfree, hagree'⟩ := hagree.define (types.parent?_newFrame_size hf) hempty hfits
  have hdefines : (w.opened c.frame).store.defines w.store.size name = false := by
    rw [Store.defines, hfree]
    rfl
  have hdefine := define_of_free hdefines (.integer i)
  refine Ends.of_ok ((bind_run_ok (newFrame_run c.frame w) _).trans (bind_run_ok hdefine _))
    ⟨?_, hagree'⟩
  dsimp only
  rw [Store.parent?_append]
  exact hparent

/-- A loop keeps what each of its iterations keeps. -/
theorem forEach_ends {E : Stop → Prop} {Inv : World → Prop} {body : Value → EvalM Completion}
    {items : List Value} (hbody : ∀ item ∈ items, ∀ w, Inv w →
      Ends E (body item) w fun completion w' => (∃ v, completion = .normal v) ∧ Inv w')
    (h : Inv w) :
    Ends E (forEach body items) w fun completion w' => (∃ v, completion = .normal v) ∧ Inv w' := by
  induction items generalizing w with
  | nil => exact Ends.of_ok rfl ⟨⟨.nil, rfl⟩, h⟩
  | cons item rest ih =>
    rw [forEach]
    refine Ends.bind (hbody item List.mem_cons_self w h) ?_
    rintro completion w' ⟨⟨v, rfl⟩, h'⟩
    exact ih (fun item hmem => hbody item (List.mem_cons_of_mem _ hmem)) h'

/-- An opened block completes and leaves the frames around it in agreement with their types. -/
theorem Opened.completes {frame : FrameId} {body : List Stmt} {typed : List TypedStmt}
    (h : Opened types f c frame w) (hp : types.parent? f = some p)
    (hblock : Check.AcceptsBlock f types.size types (types.newFrame (some f)).2 types' body typed)
    (hbody : ∀ (c : Context) (w : World),
      Agree (types.newFrame (some f)).2 w types.size c.frame →
      Completes types' types.size c.frame (stmts (call n) c .nil body) w anyValue) :
    Completes types f c.frame (stmts (call n) { c with frame := frame } .nil body) w anyValue := by
  obtain ⟨hparent, hagree⟩ := h.agree hp
  exact (hbody { c with frame := frame } w hagree).leave hparent hp hblock

/-- The iterations of a loop over integers complete and leave the frames in agreement with their
types. -/
theorem forEach_completes {name : String} {body : List Stmt} {typed : List TypedStmt}
    (ints : List Int) (h : Agree types w f c.frame) (hp : types.parent? f = some p)
    (hblock : Check.AcceptsBlock f types.size types
      ((types.newFrame (some f)).2.append types.size name .integer) types' body typed)
    (hbody : ∀ (c : Context) (w : World),
      Agree ((types.newFrame (some f)).2.append types.size name .integer) w types.size c.frame →
      Completes types' types.size c.frame (stmts (call n) c .nil body) w anyValue) :
    Completes types f c.frame (forEach (iteration (call n) c name body) (ints.map .integer)) w
      anyValue := by
  have hiteration : ∀ item ∈ ints.map .integer, ∀ w, Agree types w f c.frame →
      Ends Stop.IsFault (iteration (call n) c name body item) w fun completion w' =>
        (∃ v, completion = .normal v) ∧ Agree types w' f c.frame := by
    intro item hmem w hagree
    obtain ⟨i, -, rfl⟩ := List.mem_map.mp hmem
    rw [iteration]
    refine Ends.bind (enterIteration_ends hagree hp) ?_
    rintro frame w₁ ⟨hparent, hagree₁⟩
    have hcompletes := (hbody { c with frame := frame } w₁ hagree₁).leave hparent hp hblock
    refine Ends.mono hcompletes ?_
    rintro completion w₂ _ ⟨v, hv, -, hagree₂⟩
    exact ⟨⟨v, hv⟩, hagree₂⟩
  refine (forEach_ends hiteration h).mono ?_
  rintro completion w' _ ⟨⟨v, hv⟩, hagree⟩
  exact ⟨v, hv, trivial, hagree⟩

theorem not_isAbstract_of_primitive {name : String} {ty : Ty} (hname : name ∈ primitiveNames)
    (h : Ty.ofName? name = some ty) : ¬ ty.IsAbstract := by
  simp only [primitiveNames, List.mem_cons, List.not_mem_nil, or_false] at hname
  rcases hname with rfl | rfl | rfl | rfl | rfl
  all_goals
    cases h
    exact id

/-- An accepted declaration binds its name alike in a frame and in its type frame. -/
theorem typed_declaration {d : Declaration} {t : TypedDeclaration} (hd : d.FirstOrder)
    (hcheck : Check.declaration f d types = .ok t types') :
    types' = types ∧ t.name = d.name ∧ (types.own? f d.name = none → types.parent? f = some p →
      ∀ (c : Context) (w : World), Agree types w f c.frame →
      Ends Stop.IsFault (declaration (call n) c d) w fun v w' =>
        v.Conforms t.ty ∧ Agree (types.append f d.name t.ty) w' f c.frame) := by
  obtain ⟨name, typeName, value⟩ := d
  cases value with
  | none => exact absurd hd id
  | some value =>
    obtain ⟨htypeName, hvalue⟩ := hd
    simp only [Check.declaration, Check.optionalExpr, bind_run_eq_ok_iff,
      pure_run_eq_ok_iff] at hcheck
    obtain ⟨declared, _, hdeclared, _, _, ⟨tvalue, _, hexpr, rfl, rfl⟩, ty, _, hbinding, rfl, rfl⟩ :=
      hcheck
    obtain ⟨rfl, hnamed⟩ := Check.declaredTy?_eq_ok hdeclared
    obtain ⟨rfl, hyields⟩ := typed_expr value hvalue hexpr
    obtain ⟨rfl, hty⟩ := Check.bindingTy_eq_ok hbinding
    -- what fits the type of the initial value fits the type of the name
    have hfits {functions : Array Function} {v : Value} (hv : v.Fits functions tvalue.ty) :
        v.Fits functions ty := by
      rcases hty with ⟨-, rfl⟩ | ⟨hdeclared, hsub⟩
      · exact hv
      · obtain ⟨typeName', hmem, hname⟩ := hnamed ty hdeclared
        exact hv.subtype hsub (not_isAbstract_of_primitive (htypeName _ hmem) hname)
    refine ⟨rfl, rfl, ?_⟩
    intro hfree hp c w hagree
    obtain ⟨q, -, -, honly, -⟩ := hagree.of_parent? hp
    rw [declaration, optionalExpr]
    refine Ends.bind (Ends.of_ok (Q := fun _ w' => w' = w)
      (requireFree_of_own? (honly name hfree)) rfl) ?_
    rintro _ _ rfl
    refine Ends.bind (hyields c _ hagree) ?_
    rintro v w₁ ⟨hw₁, hv⟩
    have hv₁ : v.Fits w₁.functions ty := hw₁.functions ▸ hfits hv
    obtain ⟨hown, hagree₁⟩ := (hagree.same hw₁).define hp hfree hv₁
    have hdefines : w₁.store.defines c.frame name = false := by
      rw [Store.defines, hown]
      rfl
    exact Ends.of_ok (bind_run_ok (define_of_free hdefines v) _) ⟨hv₁.conforms, hagree₁⟩

end

/-! ## Blocks -/

section

variable {n : Nat}

mutual

/-- An accepted statement completes, gives a value of its type, and keeps frames and type frames in
agreement. -/
theorem typed_stmt : ∀ {f p : FrameId} {types types' : Store Ty} {t : TypedStmt} (s : Stmt),
    s.FirstOrder → Check.stmt f s types = .ok t types' → types.parent? f = some p →
    ∀ (c : Context) (w : World), Agree types w f c.frame →
      Completes types' f c.frame (stmt (call n) c s) w t.Gives
  | f, p, types, _, _, .declare d, hs, h, hp => by
    simp only [Check.stmt, bind_run_eq_ok_iff, pure_run_eq_ok_iff] at h
    obtain ⟨_, _, hfree, t, _, hcheck, _, _, hdefine, rfl, rfl⟩ := h
    obtain ⟨hname, rfl⟩ := Check.requireFree_eq_ok hfree
    obtain ⟨rfl, hname', hends⟩ := typed_declaration hs hcheck
    obtain ⟨-, rfl⟩ := Check.define_eq_ok hdefine
    have hown := Option.not_isSome_iff_eq_none.mp (mt (Store.own?_isSome_iff _ f d.name).mp hname)
    intro c w hagree
    rw [stmt]
    refine (Yields.tick c.meter w).completes ?_
    intro _ w₁ hw₁ _
    refine Ends.bind (hends hown hp c w₁ (hagree.same hw₁)) ?_
    rintro v w₂ ⟨hv, hagree₂⟩
    rw [hname']
    exact Completes.normal hagree₂ hv
  | f, p, types, _, _, .branch condition thenBody elseBody, hs, h, hp => by
    obtain ⟨hcondition, hthen, helse⟩ := hs
    obtain ⟨tcondition, _, tthen, types₁, telse, rfl, hexpr, hsub, hblock, hblock'⟩ :=
      Check.branch_eq_ok (types.parent?_lt_size hp) h
    obtain ⟨rfl, hyields⟩ := typed_expr condition hcondition hexpr
    have hp₁ := Check.parent?_of_grows hp hblock.grows
    intro c w hagree
    rw [stmt_branch]
    refine Ends.bind (enterBranch_ends (fun w hagree => (hyields c w hagree).mono
      fun v hv => hv.subtype hsub id) hagree) fun entered w₁ hopened => ?_
    obtain ⟨holds, frame⟩ := entered
    cases holds with
    | true =>
      have hcompletes := hopened.completes hp hblock fun c w =>
        typed_stmts thenBody hthen hblock.accepts hblock.parent_eq c .nil w
      refine hcompletes.mono fun v w₂ _ hagree₂ => ⟨trivial, ?_⟩
      exact (agree_grows_iff hp (hblock.grows.trans hblock'.grows)).mp hagree₂
    | false =>
      have hcompletes := (hopened.grows hp hblock.grows).completes hp₁ hblock' fun c w =>
        typed_stmts elseBody helse hblock'.accepts hblock'.parent_eq c .nil w
      refine hcompletes.mono fun v w₂ _ hagree₂ => ⟨trivial, ?_⟩
      exact (agree_grows_iff hp₁ hblock'.grows).mp hagree₂
  | f, p, types, _, _, .forEach name items body, hs, h, hp => by
    obtain ⟨hitems, hbody⟩ := hs
    obtain ⟨titems, _, tbody, rfl, hexpr, hsub, hblock⟩ :=
      Check.forEach_eq_ok (types.parent?_lt_size hp) h
    obtain ⟨rfl, hyields⟩ := typed_expr items hitems hexpr
    intro c w hagree
    rw [stmt_forEach]
    refine (loopItems_yields (fun w hagree => (hyields c w hagree).mono
      fun v hv => hv.subtype hsub id) hagree).completes fun values w₁ hw₁ hvalues => ?_
    obtain ⟨ints, rfl⟩ := hvalues
    have hloop := forEach_completes ints (hagree.same hw₁) hp hblock fun c w =>
      typed_stmts body hbody hblock.accepts hblock.parent_eq c .nil w
    refine hloop.mono fun v w₂ _ hagree₂ => ⟨trivial, ?_⟩
    exact (agree_grows_iff hp hblock.grows).mp hagree₂
  | _, _, _, _, _, .expression value, hs, h, hp => by
    simp only [Check.stmt, bind_run_eq_ok_iff, pure_run_eq_ok_iff] at h
    obtain ⟨t, _, hexpr, rfl, rfl⟩ := h
    obtain ⟨rfl, hyields⟩ := typed_expr value hs hexpr
    intro c w hagree
    rw [stmt]
    refine (Yields.tick c.meter w).completes ?_
    intro _ w₁ hw₁ _
    have hagree₁ := hagree.same hw₁
    refine (hyields c w₁ hagree₁).completes ?_
    intro v w₂ hw₂ hv
    exact .normal (hagree₁.same hw₂) hv.conforms
  | _, _, _, _, _, .assign (.variable name) value, hs, h, hp => by
    simp only [Check.stmt, bind_run_eq_ok_iff, pure_run_eq_ok_iff] at h
    obtain ⟨ty, _, hlookup, t, _, hexpr, _, _, hsubtype, rfl, rfl⟩ := h
    obtain ⟨hty, rfl⟩ := Check.lookup_eq_ok hlookup
    obtain ⟨rfl, hyields⟩ := typed_expr value hs hexpr
    obtain ⟨hsub, rfl⟩ := Check.requireSubtype_eq_ok hsubtype
    intro c w hagree
    rw [stmt]
    refine (Yields.tick c.meter w).completes ?_
    intro _ w₁ hw₁ _
    have hagree₁ := hagree.same hw₁
    refine (Yields.lookup hagree₁ hty).completes ?_
    intro old w₂ hw₂ hold
    have hagree₂ := hagree₁.same hw₂
    refine (hyields c w₂ hagree₂).completes ?_
    intro v w₃ hw₃ hv
    have hagree₃ := hagree₂.same hw₃
    -- the old value shows that some value fits the type of the variable
    have hfits : v.Fits w₃.functions ty := by
      rw [hw₃.functions]
      exact hv.subtype hsub hold.not_isAbstract
    obtain ⟨owner, howner, hagree₄⟩ := hagree₃.set hty hfits
    exact Ends.of_ok (bind_run_ok (set_of_owner howner v) _) ⟨v, rfl, hfits.conforms, hagree₄⟩

/-- Accepted statements complete and keep frames and type frames in agreement. -/
theorem typed_stmts : ∀ {f p : FrameId} {types types' : Store Ty} {ts : List TypedStmt}
    (body : List Stmt), FirstOrderStmts body → Check.stmts f body types = .ok ts types' →
    types.parent? f = some p → ∀ (c : Context) (last : Value) (w : World), Agree types w f c.frame →
      Completes types' f c.frame (stmts (call n) c last body) w anyValue
  | _, _, _, _, _, [], _, h, _ => by
    rw [Check.stmts] at h
    cases h
    intro c last w hagree
    rw [stmts]
    exact .normal hagree trivial
  | f, p, types, _, _, s :: rest, hs, h, hp => by
    simp only [Check.stmts, bind_run_eq_ok_iff, pure_run_eq_ok_iff] at h
    obtain ⟨t, types₁, hstmt, trest, _, hrest, rfl, rfl⟩ := h
    have hp₁ := Check.parent?_of_grows hp ((Check.confined.stmt f s).grows hstmt)
    intro c last w hagree
    rw [stmts]
    refine Ends.bind (typed_stmt s hs.1 hstmt hp c w hagree) ?_
    rintro completion w₁ ⟨v, rfl, -, hagree₁⟩
    exact typed_stmts rest hs.2 hrest hp₁ c v w₁ hagree₁

end

end

end Eval

end ObjectLang
