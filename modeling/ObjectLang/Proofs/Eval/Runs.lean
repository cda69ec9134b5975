import ObjectLang.Proofs.Eval.Operators
import ObjectLang.Proofs.Eval.Plan
import ObjectLang.Proofs.Eval.Typing

/-!
# Runs that follow a plan

A run in a world that follows a plan ends in a world that follows an extension of the plan, and does
not misuse functions or objects. There is one rule for each step of the evaluator, and one for each
way to put steps together.
-/

namespace ObjectLang

/-- The failures that have to do with the use of functions and objects. -/
def EvalError.IsMisuse : EvalError → Prop
  | .notCallable _ _ | .notAnObject _ | .undefinedMember _ | .wrongArgumentCount _ _ _ => True
  | _ => False

/-- A run stopped because of the use of a function or an object. -/
def Stop.IsMisuse : Stop → Prop
  | .error e => e.IsMisuse
  | .outOfFuel => False

/-- What is wrong with operands is not a matter of functions and objects. -/
theorem EvalError.IsOperand.not_isMisuse {e : EvalError} (h : e.IsOperand) : ¬ e.IsMisuse := by
  cases e <;> first | exact id | exact absurd h id

namespace Eval

variable {Δ : FrameId → List (String × Ty)} {ρ : Receivers} {g : Option FrameId}
  {plan : Plan} {w : World} {f : FrameId} {senses pending : Senses}

/-! ## Runs -/

/-- The run does not misuse functions or objects. If it succeeds, it has put names into the frame
`g` only, the world follows an extension of the plan, and `P` holds. -/
def Runs (Δ : FrameId → List (String × Ty)) (ρ : Receivers) (g : Option FrameId) (plan : Plan)
    {α : Type} (x : EvalM α) (w : World) (P : α → Plan → World → Prop) : Prop :=
  Ends Stop.IsMisuse x w fun a w' => ∃ plan', Later Δ ρ g plan w plan' w' ∧ P a plan' w'

/-- Nothing more is said of the end of a run. -/
def whatever {α : Type} (_ : α) (_ : Plan) (_ : World) : Prop := True

namespace Runs

variable {α β : Type} {x : EvalM α} {k : α → EvalM β} {P Q : α → Plan → World → Prop}
  {R : β → Plan → World → Prop}

theorem of_ok {a : α} {w' : World} (hx : x w = .ok a w') (hl : Later Δ ρ g plan w plan w')
    (h : P a plan w') : Runs Δ ρ g plan x w P :=
  Ends.of_ok hx ⟨plan, hl, h⟩

theorem pure (hw : w.Follows Δ ρ plan) {a : α} (h : P a plan w) :
    Runs Δ ρ g plan (pure a) w P :=
  .of_ok rfl (.refl hw g) h

theorem mono (hx : Runs Δ ρ g plan x w P) (h : ∀ a plan' w', Later Δ ρ g plan w plan' w' →
    x w = .ok a w' → P a plan' w' → Q a plan' w') : Runs Δ ρ g plan x w Q := by
  refine Ends.mono hx ?_
  rintro a w' hr ⟨plan', hl, hP⟩
  exact ⟨plan', hl, h a plan' w' hl hr hP⟩

theorem weaken (hx : Runs Δ ρ none plan x w P) (g : Option FrameId) : Runs Δ ρ g plan x w P := by
  refine Ends.mono hx ?_
  rintro a w' _ ⟨plan', hl, hP⟩
  exact ⟨plan', hl.weaken g, hP⟩

theorem bind (hx : Runs Δ ρ g plan x w P)
    (hk : ∀ a plan' w', Later Δ ρ g plan w plan' w' → P a plan' w' →
      Runs Δ ρ g plan' (k a) w' R) : Runs Δ ρ g plan (x >>= k) w R := by
  refine Ends.bind hx ?_
  rintro a w' ⟨plan', hl, hP⟩
  refine Ends.mono (hk a plan' w' hl hP) ?_
  rintro b w'' _ ⟨plan'', hl', hR⟩
  exact ⟨plan'', hl.trans hl', hR⟩

/-- After a part that names nothing a run goes on from a world in which frames look the same. -/
theorem inner_bind (hx : Runs Δ ρ none plan x w P)
    (hk : ∀ a plan' w', Later Δ ρ none plan w plan' w' → P a plan' w' →
      Runs Δ ρ g plan' (k a) w' R) : Runs Δ ρ g plan (x >>= k) w R := by
  refine Ends.bind hx ?_
  rintro a w' ⟨plan', hl, hP⟩
  refine Ends.mono (hk a plan' w' hl hP) ?_
  rintro b w'' _ ⟨plan'', hl', hR⟩
  exact ⟨plan'', (hl.weaken g).trans hl', hR⟩

theorem bind_of_ok {a : α} {w' : World} (hx : x w = .ok a w') (hl : Later Δ ρ g plan w plan w')
    (hk : Runs Δ ρ g plan (k a) w' R) : Runs Δ ρ g plan (x >>= k) w R :=
  bind (P := fun b plan' w'' => b = a ∧ plan' = plan ∧ w'' = w') (.of_ok hx hl ⟨rfl, rfl, rfl⟩)
    fun b plan' w'' _ h => by
      obtain ⟨rfl, rfl, rfl⟩ := h
      exact hk

theorem read {k : World → EvalM β} (h : Runs Δ ρ g plan (k w) w R) :
    Runs Δ ρ g plan (get >>= k) w R := by
  rw [Runs, Ends, get_bind_run]
  exact h

/-! ## Steps that leave frames and functions alone -/

theorem same {P : α → Prop} (hx : Confined none x) (hw : w.Follows Δ ρ plan)
    (h : Ends Stop.IsMisuse x w fun a w' => w.Same w' ∧ P a) :
    Runs Δ ρ none plan x w fun a _ _ => P a := by
  refine Ends.mono h ?_
  rintro a w' hr ⟨hsame, hP⟩
  have hg : World.Grows none w w' := by
    have hgrows := hx w
    rwa [hr] at hgrows
  exact ⟨plan, ⟨.refl _ _ _, hg, hw.same hg hsame⟩, hP⟩

theorem tick (hw : w.Follows Δ ρ plan) (m : MeterId) : Runs Δ ρ none plan (tick m) w whatever := by
  refine same (P := fun _ => True) (confined.tick m trivial) hw ?_
  have hrun := tick_run m w
  dsimp only at hrun
  split at hrun
  · exact .of_error hrun id
  · exact .of_ok hrun ⟨⟨rfl, rfl⟩, trivial⟩

theorem result (hw : w.Follows Δ ρ plan) {r : Except EvalError α}
    (h : ∀ e, r = .error e → e.IsOperand) : Runs Δ ρ none plan (result r) w whatever := by
  cases r with
  | ok a => exact .pure hw trivial
  | error e => exact Ends.of_error rfl (h e rfl).not_isMisuse

theorem itemsOf (hw : w.Follows Δ ρ plan) (v : Value) :
    Runs Δ ρ none plan (itemsOf v) w whatever := by
  cases v with
  | list items => exact .pure hw trivial
  | _ => exact Ends.of_error rfl id

/-- What is found under a name suits one of its meanings. A name that is not found is no misuse. -/
theorem lookup (hs : Stands Δ ρ plan w f senses pending) (name : String) :
    Runs Δ ρ none plan (lookup f name) w fun v plan' w' =>
      ∃ σ, (name, σ) ∈ senses ∧ v.Suits Δ ρ plan' w' σ := by
  refine read ?_
  split
  · next v hv => exact .pure hs.follows (hs.lookup hv)
  · exact Ends.of_error rfl id

theorem requireFree (hw : w.Follows Δ ρ plan) (f : FrameId) (name : String) :
    Runs Δ ρ none plan (requireFree f name) w whatever := by
  refine same (P := fun _ => True) (confined.requireFree f name) hw ?_
  cases h : w.store.defines f name with
  | true => exact .of_error (requireFree_of_defines h) id
  | false => exact .of_ok (requireFree_of_free h) ⟨.refl w, trivial⟩

/-- A host function takes as many arguments as its type says. -/
theorem host (hw : w.Follows Δ ρ plan) (name : String) {f : HostFunction} {params : List Ty}
    {returns : Ty} (hf : f.ty? = some (.function params returns)) {arguments : List Value}
    (hlength : arguments.length = params.length) :
    Runs Δ ρ none plan (host name f arguments) w whatever := by
  refine same (P := fun _ => True) (confined.host name f arguments) hw ?_
  cases f with
  | log =>
    cases hf
    obtain ⟨v, rfl⟩ := List.length_eq_one_iff.mp hlength
    exact .of_ok rfl ⟨⟨rfl, rfl⟩, trivial⟩
  | print =>
    cases hf
    obtain ⟨v, rfl⟩ := List.length_eq_one_iff.mp hlength
    exact .of_ok rfl ⟨⟨rfl, rfl⟩, trivial⟩
  | range =>
    cases hf
    obtain ⟨a, b, rfl⟩ := List.length_eq_two.mp hlength
    unfold Eval.host
    dsimp only
    split
    · exact .of_ok rfl ⟨.refl w, trivial⟩
    · exact .of_error rfl id
    · next hno => exact absurd rfl (hno a b)
  | _ => cases hf

/-! ## Steps that change frames and functions -/

/-- A name may be bound to what suits the plan once the name is bound. -/
theorem define (hw : w.Follows Δ ρ plan) (hf : f < w.store.size) {name : String} {v : Value}
    {σ : Sense} (hplan : plan.own? f name = some σ)
    (hv : v.Suits Δ ρ plan { w with store := w.store.append f name v } σ) :
    Runs Δ ρ (some f) plan (define f name v) w fun _ _ w' =>
      w'.store.names f = w.store.names f ++ [name] := by
  have hg : World.Grows (some f) w { w with store := w.store.append f name v } :=
    .of_store (.append _ _ f name v)
  cases h : w.store.defines f name with
  | true => exact Ends.of_error (define_of_defines h v) id
  | false =>
    exact .of_ok (define_of_free h v) ⟨.refl _ _ _, hg, hw.append hg rfl hf hplan hv⟩
      (w.store.names_append hf name v)

/-- A name may get a value that suits whatever the name may mean. -/
theorem set (hs : Stands Δ ρ plan w f senses pending) {name : String} {v : Value}
    (hv : ∀ σ, (name, σ) ∈ senses → v.Suits Δ ρ plan w σ) :
    Runs Δ ρ none plan (set f name v) w whatever := by
  refine read ?_
  split
  · next owner howner =>
    obtain ⟨σ, hσ, hplan⟩ := hs.owner howner
    exact .of_ok rfl (.replace hs.follows hplan (hv σ hσ)) trivial
  · exact .pure hs.follows trivial

/-- A function that suits the plan once its name is bound can be made and bound. -/
theorem bindClosure {c : Context} {d : Definition} {captured : FrameId} {params : List Ty}
    {returns : Ty} (receiver : Option FrameId) {k : FunctionId → EvalM β}
    (hw : w.Follows Δ ρ plan) (hf : f < w.store.size)
    (hplan : plan.own? f d.name = some (.function params returns, receiver))
    (hc : ∀ v, Closure.Answers .calls Δ ρ plan (w.store.append f d.name v) params returns receiver d
      ⟨d.parameters.map (·.name), d.body, captured, c.meter, receiver.isSome⟩)
    (hk : ∀ id plan' w', Later Δ ρ (some f) plan w plan' w' →
      w'.store.names f = w.store.names f ++ [d.name] → Runs Δ ρ (some f) plan' (k id) w' R) :
    Runs Δ ρ (some f) plan (newClosure c d captured receiver.isSome >>= fun id =>
      Eval.define f d.name (.function id) >>= fun _ => k id) w R := by
  cases hrepeated : firstRepeated? [] (d.parameters.map (·.name)) with
  | some name =>
    exact Ends.of_error (bind_run_error (newClosure_of_repeated w hrepeated) _) id
  | none =>
    have hg₁ := World.Grows.withFunction (some f) w (d.function captured c.meter receiver.isSome)
    have hw₁ : (w.withFunction (d.function captured c.meter receiver.isSome)).Follows Δ ρ plan :=
      hw.step (.refl _ _ _) hg₁ hw.size_eq hw.parent_eq fun _ _ _ hv => .inl hv
    refine bind_of_ok (newClosure_of_distinct w hrepeated) ⟨.refl _ _ _, hg₁, hw₁⟩ ?_
    have hsuits : (d.function captured c.meter receiver.isSome).Suits Δ ρ plan
        (w.store.append f d.name (.function w.functions.size)) params returns receiver :=
      ⟨d, hc _⟩
    refine (Runs.define hw₁ hf hplan ⟨_, _, rfl, ?_, hsuits⟩).bind
      fun _ plan₂ w₂ hl₂ hnames => ?_
    · exact Array.getElem?_push_size
    · exact hk _ plan₂ w₂ (Later.trans ⟨.refl _ _ _, hg₁, hw₁⟩ hl₂) hnames

/-- What is put into a frame that is opened on the way is not put into an older one. -/
theorem opened {k : FrameId → EvalM β} (hs : Stands Δ ρ plan w f senses pending)
    (bindings : Senses)
    (hk : Stands Δ ρ (plan.openWith f bindings) (w.opened f) w.store.size senses
        (bindings ++ pending) →
      (plan.openWith f bindings).bindings w.store.size = bindings →
      Runs Δ ρ (some w.store.size) (plan.openWith f bindings) (k w.store.size) (w.opened f) R) :
    Runs Δ ρ none plan (newFrame f >>= k) w R := by
  have hsize := hs.follows.size_eq
  have hstands : Stands Δ ρ (plan.openWith f bindings) (w.opened f) w.store.size senses
      (bindings ++ pending) :=
    ⟨hs.follows.opened f bindings, hs.finds.opened hsize bindings⟩
  have hbindings : (plan.openWith f bindings).bindings w.store.size = bindings := by
    rw [Store.bindings_openWith, if_pos hsize.symm]
  have hrun := hk hstands hbindings
  rw [Runs, Ends, bind_run_ok (newFrame_run f w)]
  refine Ends.mono hrun ?_
  rintro b w' _ ⟨plan', hl, hR⟩
  exact ⟨plan', ⟨(plan.grows_openWith f bindings).trans hl.plan, hl.world.enclosed, hl.follows⟩, hR⟩

/-- A tree is charged one step before anything else. -/
theorem charged {x : EvalM β} (hs : Stands Δ ρ plan w f senses pending) (m : MeterId)
    (hx : ∀ plan' w', Later Δ ρ none plan w plan' w' → Stands Δ ρ plan' w' f senses pending →
      Runs Δ ρ g plan' x w' R) : Runs Δ ρ g plan (Eval.tick m >>= fun _ => x) w R :=
  (Runs.tick hs.follows m).inner_bind fun _ plan' w' hl _ => hx plan' w' hl (hs.later hl)

/-- If each iteration runs wherever names are found alike, so does the loop. -/
theorem forEach {body : Value → EvalM Completion}
    (h : ∀ item plan w, Stands Δ ρ plan w f senses pending →
      Runs Δ ρ none plan (body item) w whatever) (items : List Value)
    (hs : Stands Δ ρ plan w f senses pending) :
    Runs Δ ρ none plan (forEach body items) w whatever := by
  induction items generalizing plan w with
  | nil => exact .pure hs.follows trivial
  | cons item rest ih =>
    refine (h item plan w hs).bind ?_
    intro completion plan₁ w₁ hl₁ _
    cases completion with
    | normal v => exact ih (hs.later hl₁)
    | returned v => exact .pure hl₁.follows trivial

end Runs

/-! ## Frames -/

/-- Names can be bound to values that suit the plan. -/
theorem Runs.defineAll {bindings : List (String × Value)} (hw : w.Follows Δ ρ plan)
    (hf : f < w.store.size) (hplan : ∀ b ∈ bindings, ∃ σ,
      plan.own? f b.1 = some σ ∧ b.2.Suits Δ ρ plan w σ) :
    Runs Δ ρ (some f) plan (defineAll f bindings) w fun _ _ w' =>
      w'.store.names f = w.store.names f ++ bindings.map Prod.fst := by
  induction bindings generalizing plan w with
  | nil => exact .pure hw (by simp)
  | cons b rest ih =>
    obtain ⟨σ, hown, hv⟩ := hplan b List.mem_cons_self
    refine (Runs.define hw hf hown (hv.grows hw.size_eq (.refl _ _ _)
      (.of_store (.append _ _ f b.1 b.2)))).bind fun _ plan₁ w₁ hl₁ hnames₁ => ?_
    refine (ih hl₁.follows (hf.trans_le hl₁.world.store.size_le) fun b' hb' => ?_).mono
      fun _ plan₂ w₂ _ _ hnames₂ => ?_
    · obtain ⟨σ', hown', hv'⟩ := hplan b' (List.mem_cons_of_mem _ hb')
      exact ⟨σ', (hl₁.plan.own?_eq (hw.size_eq ▸ hf) _).trans hown', hv'.later hw hl₁⟩
    · rw [hnames₂, hnames₁]
      simp

theorem Runs.withCall {α : Type} {x : EvalM α} {m : MeterId} (hw : w.Follows Δ ρ plan)
    (h : ∀ w' : World, Later Δ ρ none plan w plan w' → Runs Δ ρ none plan x w' whatever) :
    Runs Δ ρ none plan (withCall m x) w whatever := by
  have henter : World.Grows none w (w.enter m) := .modifyMeter w m fun _ => le_rfl
  have hfollows : (w.enter m).Follows Δ ρ plan := hw.same henter ⟨rfl, rfl⟩
  have hl : Later Δ ρ none plan w plan (w.enter m) := ⟨.refl _ _ _, henter, hfollows⟩
  have hbody := h (w.enter m) hl
  have hrun := withCall_run m x w
  split at hrun
  · exact Ends.of_error hrun id
  · rw [Runs, Ends] at hbody
    cases hx : x (w.enter m) with
    | error e w' =>
      rw [hx] at hbody hrun
      exact Ends.of_error hrun hbody
    | ok a w' =>
      rw [hx] at hbody hrun
      obtain ⟨plan', hl', -⟩ := hbody
      have hleave : World.Grows none w' (w'.leave m) := .modifyMeter w' m fun _ => le_rfl
      exact Ends.of_ok hrun ⟨plan', hl.trans (hl'.trans
        ⟨.refl _ _ _, hleave, hl'.follows.same hleave ⟨rfl, rfl⟩⟩), trivial⟩

/-- A block runs in a frame of its own, in which the names of `own` are bound from the start. -/
theorem Runs.enter {own block : Senses} (bindOwn : FrameId → EvalM Unit)
    {β : Type} {k : FrameId → EvalM β} {R : β → Plan → World → Prop}
    (hs : Stands Δ ρ plan w f senses pending)
    (hnodup : ((own ++ block).map Prod.fst).Nodup)
    (hown : ∀ plan' w', Later Δ ρ none plan w plan' w' → w.store.size < w'.store.size →
      plan'.Promises w.store.size own →
      Runs Δ ρ (some w.store.size) plan' (bindOwn w.store.size) w' fun _ _ w'' =>
        w''.store.names w.store.size = w'.store.names w.store.size ++ own.map Prod.fst)
    (hk : ∀ plan' w', Stands Δ ρ plan' w' w.store.size (senses.bind own)
        (block ++ pending.without (own.map Prod.fst)) →
      plan'.Promises w.store.size block →
      Runs Δ ρ (some w.store.size) plan' (k w.store.size) w' R) :
    Runs Δ ρ none plan (newFrame f >>= fun frame => bindOwn frame >>= fun _ => k frame) w R := by
  refine .opened hs (own ++ block) fun hs₁ hbindings => ?_
  have hpromises := Plan.Promises.of_bindings hbindings hnodup
  have hsize := hs₁.follows.size_eq
  have hlt := hs₁.finds.lt_size
  have hl₁ : Later Δ ρ none plan w _ (w.opened f) :=
    ⟨plan.grows_openWith f _, .opened w f, hs₁.follows⟩
  refine (hown _ _ hl₁ hlt (hpromises.mono (List.subset_append_left _ _))).bind
    fun _ plan₂ w₂ hl₂ hnames => ?_
  have hpromises₂ := hpromises.grows (hsize ▸ hlt) hl₂.plan
  exact hk plan₂ w₂ ⟨hl₂.follows, hs₁.finds.body hsize hl₂.plan hl₂.world.store hnames
    (hpromises₂.mono (List.subset_append_left _ _))⟩
    (hpromises₂.mono (List.subset_append_right _ _))

end Eval

end ObjectLang
