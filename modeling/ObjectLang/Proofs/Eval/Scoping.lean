import ObjectLang.Proofs.Eval.Growth
import ObjectLang.Proofs.Eval.Operators

/-!
# Well-scoped programs bind their names

A well-scoped program never fails because of a name that is missing or bound twice, nor because of a
misplaced statement. What carries this through a run is an invariant of the world: every function
that was ever defined is well-scoped in the frame that it remembers. Frames only gain names, so it
stays so for as long as the function can be called. -/

namespace ObjectLang

/-- The failures that have to do with names and the places of statements. -/
def EvalError.IsBinding : EvalError → Prop
  | .undefinedName _ | .alreadyDefined _ | .duplicateParameter _ | .invalidAssignmentTarget
  | .returnOutsideFunction => True
  | _ => False

/-- A run stopped because of a name or the place of a statement. -/
def Stop.IsBinding : Stop → Prop
  | .error e => e.IsBinding
  | .outOfFuel => False

/-- The body is well-scoped in a frame below the remembered one that binds what a call binds. -/
def Closure.Scoped (s : Store Value) (c : Closure) : Prop :=
  c.bindings.Nodup ∧ ∃ visible, s.Shows c.captured visible ∧
    ScopedStmts true (c.bindings ++ visible) c.bindings c.body

/-- Every function of the world is well-scoped. -/
def World.Scoped (w : World) : Prop :=
  ∀ function ∈ w.functions.toList, ∀ c, function.code = .closure c → c.Scoped w.store

theorem Closure.Scoped.grows {s t : Store Value} {c : Closure} {g : Option FrameId}
    (h : c.Scoped s) (hst : s.Grows Prod.fst g t) : c.Scoped t := by
  obtain ⟨hnodup, visible, hshows, hbody⟩ := h
  exact ⟨hnodup, visible, hshows.grows hst, hbody⟩

namespace World.Scoped

variable {w w' : World}

/-- Functions stay well-scoped while frames gain names. -/
theorem of_functions_eq {g : Option FrameId} (h : w.Scoped) (hg : w.Grows g w')
    (hf : w'.functions = w.functions) : w'.Scoped := by
  intro function hmem c hc
  rw [hf] at hmem
  exact (h function hmem c hc).grows hg.store

theorem of_push {g : Option FrameId} (h : w.Scoped) (hg : w.Grows g w') {function : Function}
    (hf : w'.functions = w.functions.push function)
    (hc : ∀ c, function.code = .closure c → c.Scoped w'.store) : w'.Scoped := by
  intro function' hmem c hc'
  rw [hf, Array.toList_push, List.mem_append, List.mem_singleton] at hmem
  rcases hmem with hmem | rfl
  · exact (h function' hmem c hc').grows hg.store
  · exact hc c hc'

/-- A function that can be called is well-scoped. -/
theorem function (h : w.Scoped) {id : FunctionId} {c : Closure}
    (hc : (w.function id).code = .closure c) : c.Scoped w.store := by
  by_cases hid : id < w.functions.size
  · refine h (w.function id) ?_ c hc
    rw [World.function_of_lt hid]
    exact Array.mem_toList_iff.mpr (Array.getElem_mem hid)
  · rw [World.function_of_size_le (Nat.le_of_not_lt hid)] at hc
    cases hc

end World.Scoped

/-- What is wrong with operands is not a matter of names. -/
theorem EvalError.IsOperand.not_isBinding {e : EvalError} (h : e.IsOperand) : ¬ e.IsBinding := by
  cases e <;> first | exact id | exact absurd h id

namespace Eval

/-! ## Steps that concern no names -/

/-- The run neither binds names nor makes functions, and does not fail because of names. -/
def Quiet {α : Type} (x : EvalM α) : Prop := ∀ w : World,
  Ends Stop.IsBinding x w fun _ w' => w.Grows none w' ∧ w'.functions = w.functions

namespace Quiet

variable {α β : Type}

theorem pure (a : α) : Quiet (pure a) := fun w => .of_ok rfl ⟨.refl _ w, rfl⟩

theorem fail {e : EvalError} (he : ¬ e.IsBinding) : Quiet (fail e : EvalM α) :=
  fun _ => .of_error rfl he

theorem bind {x : EvalM α} {k : α → EvalM β} (hx : Quiet x) (hk : ∀ a, Quiet (k a)) :
    Quiet (x >>= k) := by
  intro w
  refine (hx w).bind ?_
  rintro a w' ⟨hg, hf⟩
  refine (hk a w').mono ?_
  intro b w'' _ hw'
  exact ⟨hg.trans hw'.1, hw'.2.trans hf⟩

theorem read {x : World → EvalM α} (h : ∀ w, Quiet (x w)) : Quiet (get >>= x) := fun w => h w w

theorem result {r : Except EvalError α} (h : ∀ e, r = .error e → ¬ e.IsBinding) :
    Quiet (result r) := by
  cases r with
  | ok a => exact .pure a
  | error e => exact .fail (h e rfl)

theorem tick (m : MeterId) : Quiet (tick m) := by
  intro w
  have hg : World.Grows none w (w.charge m) := .modifyMeter w m fun _ => Nat.le_succ _
  have hrun := tick_run m w
  dsimp only at hrun
  split at hrun
  · exact .of_error hrun id
  · exact .of_ok hrun ⟨hg, rfl⟩

theorem member (f : FrameId) (name : String) : Quiet (member f name) := by
  refine .read ?_
  intro w
  split
  · exact .pure _
  · exact .fail id

theorem membersOf (v : Value) : Quiet (membersOf v) := by
  cases v with
  | object name members => exact .pure members
  | _ => exact .fail id

theorem callable (name : String) (v : Value) : Quiet (callable name v) := by
  cases v with
  | function id => exact .pure id
  | _ => exact .fail id

theorem itemsOf (v : Value) : Quiet (itemsOf v) := by
  cases v with
  | list items => exact .pure items
  | _ => exact .fail id

theorem replace (f : FrameId) (name : String) (v : Value) :
    Quiet (modify fun w => { w with store := w.store.replace f name v }) :=
  fun _ => .of_ok rfl ⟨.of_store (.replace _ f name v), rfl⟩

theorem setOwn (f : FrameId) (name : String) (v : Value) : Quiet (setOwn f name v) := by
  refine .read ?_
  intro w
  split
  · exact (Quiet.replace f name v).bind fun _ => .pure _
  · exact .pure _

theorem set (f : FrameId) (name : String) (v : Value) : Quiet (set f name v) := by
  refine .read ?_
  intro w
  split
  · exact (Quiet.replace _ name v).bind fun _ => .pure _
  · exact .pure _

theorem oneArgument (name : String) (arguments : List Value) :
    Quiet (oneArgument name arguments) := by
  rw [Eval.oneArgument.eq_def]
  split
  · exact .pure _
  · exact .fail id

theorem recordPrinted (text : String) : Quiet (recordPrinted text) :=
  fun w => .of_ok rfl ⟨confined.recordPrinted text w, rfl⟩

theorem recordLogged (v : Value) : Quiet (recordLogged v) :=
  fun w => .of_ok rfl ⟨confined.recordLogged v w, rfl⟩

theorem host (name : String) (f : HostFunction) (arguments : List Value) :
    Quiet (host name f arguments) := by
  cases f with
  | log =>
    exact (Quiet.oneArgument name arguments).bind fun v =>
      (Quiet.recordLogged v).bind fun _ => .pure v
  | print =>
    refine (Quiet.oneArgument name arguments).bind fun v => .read fun w => ?_
    exact (Quiet.recordPrinted _).bind fun _ => .pure _
  | list => exact .pure _
  | range =>
    unfold Eval.host
    dsimp only
    split
    · exact .pure _
    · exact .fail id
    · exact .fail id
  | nothing =>
    unfold Eval.host
    dsimp only
    split
    · exact .pure _
    · exact .fail id
  | fail => exact (Quiet.oneArgument name arguments).bind fun v => .read fun w => .fail id
  | count => exact .pure _

end Quiet

/-! ## Safe runs -/

/-- The run does not fail because of names. If it succeeds, it has put names into the frame `g`
only, all functions are well-scoped, and `P` holds. -/
def Safe (g : Option FrameId) {α : Type} (x : EvalM α) (w : World) (P : α → World → Prop) : Prop :=
  Ends Stop.IsBinding x w fun a w' => w.Grows g w' ∧ w'.Scoped ∧ P a w'

/-- Nothing more is said of the end of a run. -/
def anything {α : Type} (_ : α) (_ : World) : Prop := True

namespace Safe

variable {α β : Type} {g : Option FrameId} {w : World} {P Q : α → World → Prop}

theorem pure (hw : w.Scoped) {a : α} (h : P a w) : Safe g (pure a) w P :=
  .of_ok rfl ⟨.refl g w, hw, h⟩

theorem bind {x : EvalM α} {k : α → EvalM β} {R : β → World → Prop} (hx : Safe g x w P)
    (hk : ∀ a w', w.Grows g w' → w'.Scoped → P a w' → Safe g (k a) w' R) :
    Safe g (x >>= k) w R := by
  refine Ends.bind hx ?_
  rintro a w' ⟨hg, hs, hP⟩
  refine Ends.mono (hk a w' hg hs hP) ?_
  intro b w'' _ h
  exact ⟨hg.trans h.1, h.2⟩

theorem mono {x : EvalM α} (hx : Safe g x w P) (h : ∀ a w', x w = .ok a w' → P a w' → Q a w') :
    Safe g x w Q :=
  Ends.mono hx fun a w' hr hP => ⟨hP.1, hP.2.1, h a w' hr hP.2.2⟩

theorem weaken {x : EvalM α} (hx : Safe none x w P) (g : Option FrameId) : Safe g x w P :=
  Ends.mono hx fun _ _ _ hP => ⟨hP.1.weaken g, hP.2⟩

/-- A run goes on from where its first part ends. -/
theorem bind_of_ok {x : EvalM α} {k : α → EvalM β} {R : β → World → Prop} {a : α} {w' : World}
    (hx : x w = .ok a w') (hg : w.Grows g w') (hk : Safe g (k a) w' R) : Safe g (x >>= k) w R := by
  rw [Safe, Ends, bind_run_ok hx]
  refine Ends.mono hk ?_
  intro b w'' _ h
  exact ⟨hg.trans h.1, h.2⟩

theorem quiet {x : EvalM α} (hx : Quiet x) (hw : w.Scoped) : Safe g x w anything :=
  (hx w).mono fun _ _ _ h => ⟨h.1.weaken g, hw.of_functions_eq h.1 h.2, trivial⟩

/-- After a part that names nothing a run goes on from a world in which frames look the same. -/
theorem inner_bind {x : EvalM α} {k : α → EvalM β} {R : β → World → Prop} (hx : Safe none x w P)
    (hk : ∀ a w', w.Grows none w' → w'.Scoped → P a w' → Safe g (k a) w' R) :
    Safe g (x >>= k) w R := by
  refine Ends.bind hx ?_
  rintro a w' ⟨hg, hs, hP⟩
  refine Ends.mono (hk a w' hg hs hP) ?_
  intro b w'' _ h
  exact ⟨(hg.weaken g).trans h.1, h.2⟩

theorem quiet_bind {x : EvalM α} (hx : Quiet x) (hw : w.Scoped) {k : α → EvalM β}
    {R : β → World → Prop} (hk : ∀ a w', w.Grows none w' → w'.Scoped → Safe g (k a) w' R) :
    Safe g (x >>= k) w R :=
  (Safe.quiet hx hw).inner_bind fun a w' hg hs _ => hk a w' hg hs

/-- What is put into a frame that is opened on the way is not put into an older one. -/
theorem opened {p : FrameId} {visible : List String} {k : FrameId → EvalM β}
    {R : β → World → Prop} (hw : w.Scoped) (hp : w.store.Shows p visible)
    (hk : ∀ w' : World, w.Grows none w' → w'.Scoped → w'.store.Shows w.store.size visible →
      w'.store.names w.store.size = [] → Safe (some w.store.size) (k w.store.size) w' R) :
    Safe none (newFrame p >>= k) w R := by
  have hgrows := World.Grows.opened w p
  have hbody := hk (w.opened p) hgrows (hw.of_functions_eq hgrows rfl) hp.child
    (w.store.names_newFrame_size _)
  refine Ends.mono hbody ?_
  rintro b w' _ ⟨hg, hs, hR⟩
  exact ⟨hg.enclosed, hs, hR⟩

end Safe

theorem lookup_of_shows {w : World} {f : FrameId} {visible : List String} {name : String}
    (h : w.store.Shows f visible) (hname : name ∈ visible) : ∃ v, lookup f name w = .ok v w := by
  obtain ⟨v, hv⟩ := Option.isSome_iff_exists.mp (h.isSome name hname)
  exact ⟨v, lookup_of_eq_some hv⟩

/-! ## Steps that bind names -/

section

variable {w : World} {f : FrameId}

theorem requireFree_of_not_mem {name : String} (h : name ∉ w.store.names f) :
    requireFree f name w = .ok () w :=
  requireFree_of_free ((Store.defines_eq_false_iff _ _ _).mpr h)

theorem Safe.define {name : String} (hw : w.Scoped) (hf : f < w.store.size)
    (hname : name ∉ w.store.names f) (v : Value) :
    Safe (some f) (define f name v) w fun _ w' =>
      w'.store.names f = w.store.names f ++ [name] := by
  have hg : World.Grows (some f) w { w with store := w.store.append f name v } :=
    .of_store (.append _ _ f name v)
  refine .of_ok (define_of_free ((Store.defines_eq_false_iff _ _ _).mpr hname) v) ?_
  exact ⟨hg, hw.of_functions_eq hg rfl, w.store.names_append hf name v⟩

theorem Safe.defineAll {bindings : List (String × Value)} (hw : w.Scoped) (hf : f < w.store.size)
    (hnodup : (w.store.names f ++ bindings.map Prod.fst).Nodup) :
    Safe (some f) (defineAll f bindings) w fun _ w' =>
      w'.store.names f = w.store.names f ++ bindings.map Prod.fst := by
  induction bindings generalizing w with
  | nil => exact .pure hw (by simp)
  | cons b rest ih =>
    obtain ⟨name, v⟩ := b
    have hname : name ∉ w.store.names f := by
      intro hmem
      exact (List.nodup_append.mp hnodup).2.2 name hmem name (by simp) rfl
    refine (Safe.define hw hf hname v).bind ?_
    intro _ w₁ hg₁ hw₁ hnames₁
    have hnodup₁ : (w₁.store.names f ++ rest.map Prod.fst).Nodup := by
      rw [hnames₁]
      simpa using hnodup
    refine (ih hw₁ (hf.trans_le hg₁.store.size_le) hnodup₁).mono ?_
    intro _ w₂ _ hnames₂
    rw [hnames₂, hnames₁]
    simp

/-- A function that is well-scoped once its name is bound can be made and bound. -/
theorem Safe.bindClosure {c : Context} {d : Definition} {captured : FrameId} {isMethod : Bool}
    {visible : List String} {β : Type} {k : FunctionId → EvalM β} {R : β → World → Prop}
    (hw : w.Scoped) (hf : f < w.store.size) (hname : d.name ∉ w.store.names f)
    (hd : d.Scoped visible isMethod)
    (hshows : ∀ v, (w.store.append f d.name v).Shows captured visible)
    (hk : ∀ id w', w.Grows (some f) w' → w'.Scoped →
      w'.store.names f = w.store.names f ++ [d.name] → Safe (some f) (k id) w' R) :
    Safe (some f) (newClosure c d captured isMethod >>= fun id =>
      Eval.define f d.name (.function id) >>= fun _ => k id) w R := by
  obtain ⟨name, parameters, returnType, body⟩ := d
  obtain ⟨hnodup, hbody⟩ := hd
  have hparameters : (parameters.map (·.name)).Nodup := by
    cases isMethod with
    | true => exact (List.nodup_cons.mp hnodup).2
    | false => exact hnodup
  let closure : Closure := ⟨parameters.map (·.name), body, captured, c.meter, isMethod⟩
  let w₁ : World := w.withFunction ⟨name, .closure closure⟩
  have hnew : newClosure c ⟨name, parameters, returnType, body⟩ captured isMethod w =
      .ok w.functions.size w₁ :=
    newClosure_of_distinct w (firstRepeated?_eq_none hparameters (by simp))
  have hg₁ : World.Grows (some f) w w₁ := .withFunction _ w _
  refine bind_of_ok hnew hg₁ ?_
  let w₂ : World := { w₁ with store := w.store.append f name (.function w.functions.size) }
  have hfree : w₁.store.defines f name = false := (Store.defines_eq_false_iff _ _ _).mpr hname
  have hdefine : Eval.define f name (.function w.functions.size) w₁ = .ok () w₂ :=
    define_of_free hfree _
  have hg₂ : World.Grows (some f) w₁ w₂ := .of_store (.append _ _ f name _)
  have hclosure : closure.Scoped w₂.store := ⟨hnodup, visible, hshows _, hbody⟩
  have hw₂ : w₂.Scoped := by
    refine hw.of_push (hg₁.trans hg₂) rfl ?_
    intro c' hc'
    cases hc'
    exact hclosure
  exact bind_of_ok hdefine hg₂ (hk _ w₂ (hg₁.trans hg₂) hw₂ (w.store.names_append hf name _))

end

/-- If each iteration is safe, wherever the names are visible, so is the loop. -/
theorem Safe.forEach {f : FrameId} {visible : List String} {inFunction : Bool}
    {body : Value → EvalM Completion}
    (h : ∀ item w, w.Scoped → w.store.Shows f visible → Safe none (body item) w fun completion _ =>
      inFunction = false → ∃ v, completion = .normal v) (items : List Value) {w : World}
    (hw : w.Scoped) (hv : w.store.Shows f visible) :
    Safe none (forEach body items) w fun completion _ =>
      inFunction = false → ∃ v, completion = .normal v := by
  induction items generalizing w with
  | nil => exact .pure hw fun _ => ⟨.nil, rfl⟩
  | cons item rest ih =>
    refine (h item w hw hv).bind ?_
    intro completion w₁ hg₁ hw₁ hnormal
    cases completion with
    | normal v => exact ih hw₁ (hv.grows hg₁.store)
    | returned v => exact .pure hw₁ hnormal

/-! ## Trees -/

/-- Calls are safe, and add no names to the frames that they find. -/
structure SafeCalls (invoke : Invoke) : Prop where
  confined : ∀ id arguments, Confined none (invoke id arguments)
  safe : ∀ id arguments w, w.Scoped → Safe none (invoke id arguments) w anything

section Trees

set_option linter.unusedSectionVars false

variable {invoke : Invoke} (hi : SafeCalls invoke)
include hi

mutual

theorem safe_expr (c : Context) {visible : List String} {w : World} (hw : w.Scoped)
    (hv : w.store.Shows c.frame visible) : ∀ e : Expr, e.Scoped visible →
    Safe none (expr invoke c e) w anything
  | .literal value, _ => by
    rw [expr]
    exact .quiet_bind (.tick _) hw fun _ w₁ _ hw₁ => .pure hw₁ trivial
  | .group inner, h => by
    rw [expr]
    refine .quiet_bind (.tick _) hw ?_
    intro _ w₁ hg₁ hw₁
    exact safe_expr c hw₁ (hv.grows hg₁.store) inner h
  | .binary op left right, h => by
    obtain ⟨hleft, hright⟩ := h
    rw [expr]
    refine .quiet_bind (.tick _) hw ?_
    intro _ w₁ hg₁ hw₁
    have hv₁ := hv.grows hg₁.store
    refine (safe_expr c hw₁ hv₁ left hleft).bind ?_
    intro a w₂ hg₂ hw₂ _
    have hv₂ := hv₁.grows hg₂.store
    refine .quiet_bind (.result fun e h => (Operator.isOperand_decidedBy h).not_isBinding) hw₂
      fun decided w₃ hg₃ hw₃ => ?_
    cases decided with
    | some v => exact .pure hw₃ trivial
    | none =>
      refine (safe_expr c hw₃ (hv₂.grows hg₃.store) right hright).bind ?_
      intro b w₄ _ hw₄ _
      exact .quiet (.read fun w => .result fun e h => (Operator.isOperand_apply h).not_isBinding) hw₄
  | .variable name, h => by
    rw [expr]
    refine .quiet_bind (.tick _) hw ?_
    intro _ w₁ hg₁ hw₁
    obtain ⟨v, hlookup⟩ := lookup_of_shows (hv.grows hg₁.store) h
    exact .of_ok hlookup ⟨.refl _ _, hw₁, trivial⟩
  | .property receiver name, h => by
    rw [expr]
    refine .quiet_bind (.tick _) hw ?_
    intro _ w₁ hg₁ hw₁
    refine (safe_expr c hw₁ (hv.grows hg₁.store) receiver h).bind ?_
    intro object w₂ _ hw₂ _
    refine .quiet_bind (.membersOf _) hw₂ ?_
    intro members w₃ _ hw₃
    exact .quiet (.member members name) hw₃
  | .call name arguments, h => by
    obtain ⟨hname, harguments⟩ := h
    rw [expr]
    refine .quiet_bind (.tick _) hw ?_
    intro _ w₁ hg₁ hw₁
    have hv₁ := hv.grows hg₁.store
    obtain ⟨target, hlookup⟩ := lookup_of_shows hv₁ hname
    refine .bind_of_ok hlookup (.refl _ w₁) ?_
    refine .quiet_bind (.callable name target) hw₁ ?_
    intro id w₂ hg₂ hw₂
    refine (safe_exprs c hw₂ (hv₁.grows hg₂.store) arguments harguments).bind
      fun arguments w₃ _ hw₃ _ => ?_
    exact hi.safe id arguments w₃ hw₃
  | .method receiver name arguments, h => by
    obtain ⟨hreceiver, harguments⟩ := h
    rw [expr]
    refine .quiet_bind (.tick _) hw ?_
    intro _ w₁ hg₁ hw₁
    have hv₁ := hv.grows hg₁.store
    refine (safe_expr c hw₁ hv₁ receiver hreceiver).bind ?_
    intro object w₂ hg₂ hw₂ _
    have hv₂ := hv₁.grows hg₂.store
    refine .quiet_bind (.membersOf _) hw₂ ?_
    intro members w₃ hg₃ hw₃
    have hv₃ := hv₂.grows hg₃.store
    refine .quiet_bind (.member members name) hw₃ ?_
    intro target w₄ hg₄ hw₄
    have hv₄ := hv₃.grows hg₄.store
    refine .quiet_bind (.callable name target) hw₄ ?_
    intro id w₅ hg₅ hw₅
    refine (safe_exprs c hw₅ (hv₄.grows hg₅.store) arguments harguments).bind
      fun arguments w₆ _ hw₆ _ => ?_
    exact hi.safe id (object :: arguments) w₆ hw₆
  | .object name fields methods, h => by
    obtain ⟨hnodup, hfields, hmethods⟩ := h
    rw [expr]
    refine .quiet_bind (.tick _) hw ?_
    intro _ w₁ hg₁ hw₁
    have hv₁ := hv.grows hg₁.store
    refine .opened hw₁ hv₁ ?_
    intro w₂ hg₂ hw₂ hv₂ hempty
    refine (safe_fields ⟨w₁.store.size, c.meter⟩ hw₂ hv₂ fields ?_ hfields).bind
      fun _ w₃ hg₃ hw₃ hnames => ?_
    · rw [hempty]
      exact (List.nodup_append.mp hnodup).1
    have hmethodNames : (w₃.store.names w₁.store.size ++ methods.map (·.name)).Nodup := by
      rw [hnames, hempty]
      exact hnodup
    have hv₃ := (hv₁.grows hg₂.store).grows hg₃.store
    refine (safe_methods c hw₃ hv₃ (hv₂.lt_size.trans_le hg₃.store.size_le) methods hmethodNames
      hmethods).bind fun _ w₄ _ hw₄ _ => ?_
    exact .pure hw₄ trivial

theorem safe_exprs (c : Context) {visible : List String} {w : World} (hw : w.Scoped)
    (hv : w.store.Shows c.frame visible) : ∀ es : List Expr, ScopedExprs visible es →
    Safe none (exprs invoke c es) w anything
  | [], _ => by
    rw [exprs]
    exact .pure hw trivial
  | e :: rest, h => by
    obtain ⟨he, hrest⟩ := h
    rw [exprs]
    refine (safe_expr c hw hv e he).bind ?_
    intro v w₁ hg₁ hw₁ _
    refine (safe_exprs c hw₁ (hv.grows hg₁.store) rest hrest).bind ?_
    intro vs w₂ _ hw₂ _
    exact .pure hw₂ trivial

theorem safe_optionalExpr (c : Context) {visible : List String} {w : World} (hw : w.Scoped)
    (hv : w.store.Shows c.frame visible) : ∀ e : Option Expr, ScopedOption visible e →
    Safe none (optionalExpr invoke c e) w anything
  | none, _ => by
    rw [optionalExpr]
    exact .pure hw trivial
  | some e, h => by
    rw [optionalExpr]
    exact safe_expr c hw hv e h

theorem safe_declaration (c : Context) {visible : List String} {w : World} (hw : w.Scoped)
    (hv : w.store.Shows c.frame visible) : ∀ d : Declaration, d.name ∉ w.store.names c.frame →
    d.Scoped visible → Safe (some c.frame) (declaration invoke c d) w fun _ w' =>
      w'.store.names c.frame = w.store.names c.frame ++ [d.name]
  | ⟨name, typeName, value⟩, hname, h => by
    rw [declaration]
    refine .bind_of_ok (requireFree_of_not_mem hname) (.refl _ w) ?_
    refine (safe_optionalExpr c hw hv value h).inner_bind ?_
    intro v w₁ hg₁ hw₁ _
    have hnames₁ := hg₁.names_eq hv.lt_size
    refine (Safe.define hw₁ (hv.grows hg₁.store).lt_size (hnames₁ ▸ hname) v).bind
      fun _ w₂ _ hw₂ hnames₂ => ?_
    exact .pure hw₂ (hnames₂.trans (by rw [hnames₁]))

theorem safe_fields (c : Context) {visible : List String} {w : World} (hw : w.Scoped)
    (hv : w.store.Shows c.frame visible) : ∀ fields : List Declaration,
    (w.store.names c.frame ++ fields.map (·.name)).Nodup → ScopedFields visible fields →
    Safe (some c.frame) (objectFields invoke c fields) w fun _ w' =>
      w'.store.names c.frame = w.store.names c.frame ++ fields.map (·.name)
  | [], _, _ => by
    rw [objectFields]
    exact .pure hw (by simp)
  | d :: rest, hnodup, h => by
    obtain ⟨hd, hrest⟩ := h
    rw [objectFields]
    have hname : d.name ∉ w.store.names c.frame := fun hmem =>
      (List.nodup_append.mp hnodup).2.2 d.name hmem d.name (by simp) rfl
    refine (safe_declaration c hw hv d hname hd).bind ?_
    intro _ w₁ hg₁ hw₁ hnames₁
    have hnodup₁ : (w₁.store.names c.frame ++ rest.map (·.name)).Nodup := by
      rw [hnames₁]
      simpa using hnodup
    refine (safe_fields c hw₁ (hv.grows hg₁.store) rest hnodup₁ hrest).mono
      fun _ w₂ _ hnames₂ => ?_
    rw [hnames₂, hnames₁]
    simp

theorem safe_methods (c : Context) {visible : List String} {w : World} {members : FrameId}
    (hw : w.Scoped) (hv : w.store.Shows c.frame visible) (hmembers : members < w.store.size) :
    ∀ methods : List Definition, (w.store.names members ++ methods.map (·.name)).Nodup →
    ScopedMethods visible methods →
    Safe (some members) (objectMethods c members methods) w anything
  | [], _, _ => .pure hw trivial
  | d :: rest, hnodup, h => by
    obtain ⟨hd, hrest⟩ := h
    have hname : d.name ∉ w.store.names members := fun hmem =>
      (List.nodup_append.mp hnodup).2.2 d.name hmem d.name (by simp) rfl
    rw [objectMethods]
    refine .bind_of_ok (requireFree_of_not_mem hname) (.refl _ w) ?_
    refine .bindClosure hw hmembers hname hd (fun v => hv.grows (.append _ _ members d.name v))
      fun id w₁ hg₁ hw₁ hnames₁ => ?_
    have hnodup₁ : (w₁.store.names members ++ rest.map (·.name)).Nodup := by
      rw [hnames₁]
      simpa using hnodup
    exact safe_methods c hw₁ (hv.grows hg₁.store) (hmembers.trans_le hg₁.store.size_le) rest
      hnodup₁ hrest

theorem safe_stmt (c : Context) {inFunction : Bool} {visible own : List String} {w : World}
    (hw : w.Scoped) (hv : w.store.Shows c.frame visible)
    (hown : ∀ name ∈ w.store.names c.frame, name ∈ own) : ∀ s : Stmt,
    s.Scoped inFunction visible own → Safe (some c.frame) (stmt invoke c s) w fun completion _ =>
      inFunction = false → ∃ v, completion = .normal v
  | .declare d, h => by
    obtain ⟨hname, hd⟩ := h
    rw [stmt]
    refine .quiet_bind (.tick _) hw ?_
    intro _ w₁ hg₁ hw₁
    have hname₁ : d.name ∉ w₁.store.names c.frame := by
      rw [hg₁.names_eq hv.lt_size]
      exact fun hmem => hname (hown _ hmem)
    refine (safe_declaration c hw₁ (hv.grows hg₁.store) d hname₁ hd).bind ?_
    intro v w₂ _ hw₂ _
    exact .pure hw₂ fun _ => ⟨v, rfl⟩
  | .define d, h => by
    obtain ⟨hname, hd⟩ := h
    rw [stmt]
    refine .quiet_bind (.tick _) hw ?_
    intro _ w₁ hg₁ hw₁
    have hv₁ := hv.grows hg₁.store
    have hname₁ : d.name ∉ w₁.store.names c.frame := by
      rw [hg₁.names_eq hv.lt_size]
      exact fun hmem => hname (hown _ hmem)
    refine .bind_of_ok (requireFree_of_not_mem hname₁) (.refl _ w₁) ?_
    -- the function sees its own name once it is bound
    have hself (v : Value) :
        (w₁.store.append c.frame d.name v).Shows c.frame (d.name :: visible) := by
      have hown : ∀ name ∈ [d.name], name ∈ (w₁.store.append c.frame d.name v).names c.frame := by
        intro name hmem
        rw [w₁.store.names_append hv₁.lt_size]
        exact List.mem_append_right _ hmem
      exact (hv₁.grows (.append _ _ c.frame d.name v)).own hown
    exact .bindClosure hw₁ hv₁.lt_size hname₁ hd hself
      fun id w₂ _ hw₂ _ => .pure hw₂ fun _ => ⟨.function id, rfl⟩
  | .branch condition thenBody elseBody, h => by
    obtain ⟨hcondition, hthen, helse⟩ := h
    rw [stmt]
    refine .quiet_bind (.tick _) hw ?_
    intro _ w₁ hg₁ hw₁
    have hv₁ := hv.grows hg₁.store
    refine (safe_expr c hw₁ hv₁ condition hcondition).inner_bind ?_
    intro v w₂ hg₂ hw₂ _
    have hv₂ := hv₁.grows hg₂.store
    refine .quiet_bind (.result fun e h => (Value.isOperand_truth h).not_isBinding) hw₂
      fun holds w₃ hg₃ hw₃ => ?_
    refine Safe.weaken ?_ _
    refine .opened hw₃ (hv₂.grows hg₃.store) ?_
    intro w₄ _ hw₄ hv₄ hempty
    cases holds with
    | true => exact safe_stmts ⟨_, c.meter⟩ .nil hw₄ hv₄ (hempty ▸ fun _ h => h) thenBody hthen
    | false => exact safe_stmts ⟨_, c.meter⟩ .nil hw₄ hv₄ (hempty ▸ fun _ h => h) elseBody helse
  | .forEach name items body, h => by
    obtain ⟨hitems, hbody⟩ := h
    rw [stmt]
    refine .quiet_bind (.tick _) hw ?_
    intro _ w₁ hg₁ hw₁
    have hv₁ := hv.grows hg₁.store
    refine (safe_expr c hw₁ hv₁ items hitems).inner_bind ?_
    intro v w₂ hg₂ hw₂ _
    have hv₂ := hv₁.grows hg₂.store
    refine .quiet_bind (.itemsOf v) hw₂ ?_
    intro items w₃ hg₃ hw₃
    refine Safe.weaken (.forEach (fun item w₄ hw₄ hv₄ => ?_) items hw₃ (hv₂.grows hg₃.store)) _
    refine .opened hw₄ hv₄ ?_
    intro w₅ _ hw₅ hv₅ hempty
    refine (Safe.define hw₅ hv₅.lt_size (by simp [hempty]) item).bind
      fun _ w₆ hg₆ hw₆ hnames => ?_
    rw [hempty, List.nil_append] at hnames
    have hown : ∀ name' ∈ [name], name' ∈ w₆.store.names w₄.store.size := hnames ▸ fun _ h => h
    have hv₆ := (hv₅.grows hg₆.store).own hown
    exact safe_stmts ⟨_, c.meter⟩ .nil hw₆ hv₆ (hnames ▸ fun _ h => h) body hbody
  | .ret value, h => by
    obtain ⟨hfunction, hvalue⟩ := h
    rw [stmt]
    refine .quiet_bind (.tick _) hw ?_
    intro _ w₁ hg₁ hw₁
    refine (safe_optionalExpr c hw₁ (hv.grows hg₁.store) value hvalue).inner_bind
      fun v w₂ _ hw₂ _ => ?_
    exact .pure hw₂ fun hfalse => absurd hfunction (by simp [hfalse])
  | .expression value, h => by
    rw [stmt]
    refine .quiet_bind (.tick _) hw ?_
    intro _ w₁ hg₁ hw₁
    refine (safe_expr c hw₁ (hv.grows hg₁.store) value h).inner_bind ?_
    intro v w₂ _ hw₂ _
    exact .pure hw₂ fun _ => ⟨v, rfl⟩
  | .assign (.variable name) value, h => by
    obtain ⟨hname, hvalue⟩ := h
    rw [stmt]
    refine .quiet_bind (.tick _) hw ?_
    intro _ w₁ hg₁ hw₁
    have hv₁ := hv.grows hg₁.store
    obtain ⟨old, hlookup⟩ := lookup_of_shows hv₁ hname
    refine .bind_of_ok hlookup (.refl _ w₁) ?_
    refine (safe_expr c hw₁ hv₁ value hvalue).inner_bind ?_
    intro v w₂ _ hw₂ _
    refine .quiet_bind (.set c.frame name v) hw₂ ?_
    intro _ w₃ _ hw₃
    exact .pure hw₃ fun _ => ⟨v, rfl⟩
  | .assign (.property receiver name) value, h => by
    obtain ⟨hreceiver, hvalue⟩ := h
    rw [stmt]
    refine .quiet_bind (.tick _) hw ?_
    intro _ w₁ hg₁ hw₁
    have hv₁ := hv.grows hg₁.store
    refine (safe_expr c hw₁ hv₁ receiver hreceiver).inner_bind ?_
    intro object w₂ hg₂ hw₂ _
    have hv₂ := hv₁.grows hg₂.store
    refine .quiet_bind (.membersOf object) hw₂ ?_
    intro members w₃ hg₃ hw₃
    have hv₃ := hv₂.grows hg₃.store
    refine .quiet_bind (.member members name) hw₃ ?_
    intro _ w₄ hg₄ hw₄
    have hv₄ := hv₃.grows hg₄.store
    refine (safe_expr c hw₄ hv₄ value hvalue).inner_bind ?_
    intro v w₅ _ hw₅ _
    refine .quiet_bind (.setOwn members name v) hw₅ ?_
    intro _ w₆ _ hw₆
    exact .pure hw₆ fun _ => ⟨v, rfl⟩

theorem safe_stmts (c : Context) (last : Value) {inFunction : Bool} {visible own : List String}
    {w : World} (hw : w.Scoped) (hv : w.store.Shows c.frame visible)
    (hown : ∀ name ∈ w.store.names c.frame, name ∈ own) : ∀ body : List Stmt,
    ScopedStmts inFunction visible own body →
    Safe (some c.frame) (stmts invoke c last body) w fun completion _ =>
      inFunction = false → ∃ v, completion = .normal v
  | [], _ => by
    rw [stmts]
    exact .pure hw fun _ => ⟨last, rfl⟩
  | s :: rest, h => by
    obtain ⟨hs, hrest⟩ := h
    rw [stmts]
    have hstmt : Safe (some c.frame) (stmt invoke c s) w fun completion w' =>
        (inFunction = false → ∃ v, completion = .normal v) ∧
          w'.store.names c.frame = w.store.names c.frame ++ s.binds := by
      refine (safe_stmt c hw hv hown s hs).mono ?_
      intro completion w₁ hrun hnormal
      have hnames := names_stmt hi.confined c s w hv.lt_size
      rw [hrun] at hnames
      exact ⟨hnormal, by simpa using hnames⟩
    refine hstmt.bind ?_
    rintro completion w₁ hg₁ hw₁ ⟨hnormal, hnames⟩
    cases completion with
    | returned v => exact .pure hw₁ hnormal
    | normal v =>
      refine safe_stmts c v hw₁ ((hv.grows hg₁.store).own ?_) ?_ rest hrest
      · intro name hname
        rw [hnames]
        exact List.mem_append_right _ hname
      · intro name hname
        rw [hnames] at hname
        rcases List.mem_append.mp hname with hname | hname
        · exact List.mem_append_right _ (hown name hname)
        · exact List.mem_append_left _ hname

end

end Trees

/-! ## Calls -/

theorem Safe.withCall {α : Type} {x : EvalM α} {m : MeterId} {w : World} (hw : w.Scoped)
    (h : ∀ w' : World, w.Grows none w' → w'.Scoped → Safe none x w' anything) :
    Safe none (withCall m x) w anything := by
  have henter : World.Grows none w (w.enter m) := .modifyMeter w m fun _ => le_rfl
  have hbody := h (w.enter m) henter (hw.of_functions_eq henter rfl)
  have hrun := withCall_run m x w
  split at hrun
  · exact .of_error hrun id
  · rw [Safe, Ends] at hbody
    cases hx : x (w.enter m) with
    | error e w' =>
      rw [hx] at hbody hrun
      exact .of_error hrun hbody
    | ok a w' =>
      rw [hx] at hbody hrun
      obtain ⟨hg, hs, -⟩ := hbody
      have hleave : World.Grows none w' (w'.leave m) := .modifyMeter w' m fun _ => le_rfl
      exact .of_ok hrun
        ⟨(henter.trans hg).trans hleave, hs.of_functions_eq hleave rfl, trivial⟩

/-- The body of a well-scoped function runs in a frame that binds what a call binds. -/
theorem safe_runBody {n : Nat} (hi : SafeCalls (call n)) {c : Closure} {arguments : List Value}
    {w : World} (hw : w.Scoped) (hc : c.Scoped w.store)
    (hlength : arguments.length = c.bindings.length) :
    Safe none (runBody (n + 1) c arguments) w anything := by
  obtain ⟨hnodup, visible, hv, hbody⟩ := hc
  have hzip : (c.bindings.zip arguments).map Prod.fst = c.bindings :=
    List.map_fst_zip hlength.ge
  refine .opened hw hv ?_
  intro w₁ _ hw₁ hv₁ hempty
  have hbindings : (w₁.store.names w.store.size ++
      (c.bindings.zip arguments).map Prod.fst).Nodup := by
    rw [hempty, hzip]
    exact hnodup
  refine (Safe.defineAll hw₁ hv₁.lt_size hbindings).bind ?_
  intro _ w₂ hg₂ hw₂ hnames
  rw [hempty, hzip, List.nil_append] at hnames
  have hown : ∀ name ∈ c.bindings, name ∈ w₂.store.names w.store.size := hnames ▸ fun _ h => h
  have hv₂ := (hv₁.grows hg₂.store).own hown
  refine (safe_stmts hi ⟨_, c.meter⟩ .nil hw₂ hv₂ (hnames ▸ fun _ h => h) c.body hbody).bind
    fun completion w₃ _ hw₃ _ => ?_
  exact .pure hw₃ trivial

theorem safe_call {n : Nat} (hbody : ∀ c arguments w, w.Scoped → c.Scoped w.store →
      arguments.length = c.bindings.length → Safe none (runBody n c arguments) w anything)
    (id : FunctionId) (arguments : List Value) (w : World) (hw : w.Scoped) :
    Safe none (call n id arguments) w anything := by
  have happly : Safe none (applyFunction n (w.function id) arguments) w anything := by
    rw [applyFunction]
    cases hcode : (w.function id).code with
    | host f => exact .quiet (.host _ f arguments) hw
    | closure c =>
      have hc := hw.function hcode
      dsimp only
      by_cases hlength : arguments.length = c.bindings.length
      · have hrequire : requireArguments (w.function id).name c.bindings arguments w = .ok () w :=
          congrFun (if_pos hlength) w
        refine .bind_of_ok hrequire (.refl _ w) (.withCall hw fun w' hg hw' => ?_)
        exact hbody c arguments w' hw' (hc.grows hg.store) hlength
      · have hrequire : requireArguments (w.function id).name c.bindings arguments w =
            .error (.error (.wrongArgumentCount _ c.bindings.length arguments.length)) w :=
          congrFun (if_neg hlength) w
        exact Ends.of_error (bind_run_error hrequire _) fun h => h
  rw [call_eq]
  exact happly

/-- Calls are safe in a world of well-scoped functions. -/
theorem safeCalls (n : Nat) : SafeCalls (call n) := by
  induction n with
  | zero => exact ⟨call_confined 0, safe_call fun _ _ _ _ _ _ => .of_error rfl id⟩
  | succ n ih =>
    exact ⟨call_confined (n + 1), safe_call fun _ _ _ hw hc hlength => safe_runBody ih hw hc hlength⟩

end Eval

/-- A well-scoped program does not fail because of names. -/
theorem Program.safe_run {c : Context} {p : Program} {visible own : List String} {w : World}
    (hw : w.Scoped) (hv : w.store.Shows c.frame visible)
    (hown : ∀ name ∈ w.store.names c.frame, name ∈ own)
    (hp : ScopedStmts false visible own p.statements) :
    Eval.Safe (some c.frame) (p.run c) w Eval.anything := by
  have hstmts := Eval.safe_stmts (Eval.safeCalls w.freeDepth) c .nil hw hv hown p.statements hp
  have hrun : Eval.Safe (some c.frame) (p.runFueled w.freeDepth c) w Eval.anything := by
    refine hstmts.bind ?_
    intro completion w₁ _ hw₁ hnormal
    obtain ⟨v, rfl⟩ := hnormal rfl
    exact .pure hw₁ trivial
  exact hrun

end ObjectLang
