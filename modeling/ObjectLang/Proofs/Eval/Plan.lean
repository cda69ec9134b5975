import ObjectLang.Proofs.Eval.Growth
import ObjectLang.Proofs.Typed.Steady

/-!
# Plans of a run

A plan has the frames of a world, and says of each which names it will bind in the end, and what
these will mean. A world follows the plan if its frames bind nothing else, and if functions and
objects are what their types say. Frames that are opened later extend the plan; what it says of a
frame does not change.

A function looks names up in frames that go on binding names after its definition. What it may find
is what the plan says of all frames in which a search may end. These can only become fewer, so what
holds of the meanings of a name when a function is defined holds of what it finds when it is run.
-/

namespace ObjectLang

/-! ## Plans -/

/-- What the frames of a world will bind. -/
abbrev Plan := Store Sense

/-- Whatever a search from the frame `f` finds, now or later, has one of the meanings. -/
structure FindsForGood (plan : Plan) (s : Store Value) (f : FrameId) (senses : Senses) : Prop where
  lt_size : f < s.size
  mem : ∀ name g σ, s.MayOwn name f g → plan.own? g name = some σ → (name, σ) ∈ senses

/-- What a search from the frame `f` finds now has one of the meanings in `senses`. What it finds
later may have one of those in `pending` as well. -/
structure Finds (plan : Plan) (s : Store Value) (f : FrameId) (senses pending : Senses) :
    Prop where
  forGood : FindsForGood plan s f (senses ++ pending)
  mem : ∀ name g σ, s.owner? f name = some g → plan.own? g name = some σ → (name, σ) ∈ senses

/-- The plan lets the frame bind the names, with these meanings. -/
def Plan.Promises (plan : Plan) (f : FrameId) (senses : Senses) : Prop :=
  ∀ b ∈ senses, plan.own? f b.1 = some b.2

section

variable (q : Demand) (Δ : FrameId → List (String × Ty)) (ρ : Receivers)

/-- The closure was made of the definition, which gives it these parameters and this result. Its
body is well-typed, and steady whatever it finds. -/
def Closure.Answers (plan : Plan) (s : Store Value) (params : List Ty) (returns : Ty)
    (receiver : Option FrameId) (d : Definition) (c : Closure) : Prop :=
  ∃ (Γ : Scope) (senses : Senses) (t : TypedDefinition),
    c = ⟨d.parameters.map (·.name), d.body, c.captured, c.meter, receiver.isSome⟩ ∧
    Γ.Memberless ∧ TypesDefinition Δ Γ (receiver.map .object) d t ∧
    params = t.parameters.map (·.ty) ∧ returns = t.returns ∧
    FindsForGood plan s c.captured senses ∧ t.Steady q ρ receiver senses

/-- The function takes arguments for the parameters, and such a receiver. -/
def Function.Suits (plan : Plan) (s : Store Value) (params : List Ty) (returns : Ty)
    (receiver : Option FrameId) (function : Function) : Prop :=
  match function.code with
  | .host f => receiver = none ∧ f.ty? = some (.function params returns)
  | .closure c => ∃ d, c.Answers .calls Δ ρ plan s params returns receiver d

/-- The value is a function or an object of the type, if this is the type of functions or objects;
nothing is said of values of other types. -/
def Value.Suits (plan : Plan) (w : World) (v : Value) : Sense → Prop
  | (.function params returns, receiver) => ∃ id function, v = .function id ∧
      w.functions[id]? = some function ∧
      function.Suits Δ ρ plan w.store params returns receiver
  | (.object o, _) => ∃ name members, v = .object name members ∧ members < w.store.size ∧
      plan.bindings members = ρ.members o (Δ o) ∧
      ∀ b ∈ Δ o, b.1 ∈ w.store.names members
  | _ => True

/-- The world has the frames of the plan, and these bind what the plan says. -/
structure World.Follows (w : World) (plan : Plan) : Prop where
  size_eq : plan.size = w.store.size
  parent_eq : ∀ f, plan.parent? f = w.store.parent? f
  suits : ∀ f name v, w.store.own? f name = some v →
    ∃ σ, plan.own? f name = some σ ∧ v.Suits Δ ρ plan w σ

end

variable {q : Demand} {Δ : FrameId → List (String × Ty)} {ρ : Receivers} {plan plan' : Plan}
  {w w' : World} {s t : Store Value} {f : FrameId} {g : Option FrameId}
  {senses pending own : Senses} {name : String} {v : Value} {σ : Sense}

/-! ## What is found -/

namespace FindsForGood

theorem mono {senses' : Senses} (h : FindsForGood plan s f senses) (hsub : senses ⊆ senses') :
    FindsForGood plan s f senses' :=
  ⟨h.lt_size, fun name g σ hg hown => hsub (h.mem name g σ hg hown)⟩

/-- What is found for good is found whatever frames bind meanwhile. -/
theorem grows (h : FindsForGood plan s f senses) (hsize : plan.size = s.size)
    (hplan : Store.Grows id none plan plan') (hst : Store.Grows Prod.fst g s t) :
    FindsForGood plan' t f senses := by
  refine ⟨h.lt_size.trans_le hst.size_le, fun name g σ hg hown => ?_⟩
  have hold := hg.of_grows hst h.lt_size
  rw [hplan.own?_eq (hsize ▸ hold.le.trans_lt h.lt_size)] at hown
  exact h.mem name g σ hold hown

/-- Once the frame has bound a name, only this meaning of the name is left. -/
theorem bound (h : FindsForGood plan s f senses) (hsize : plan.size = s.size)
    (hplan : Store.Grows id none plan plan') (hst : Store.Grows Prod.fst g s t)
    (hnames : own.map Prod.fst ⊆ t.names f) (hown : plan'.Promises f own) :
    FindsForGood plan' t f (senses.bind own) := by
  have hgrows := h.grows hsize hplan hst
  refine ⟨hgrows.lt_size, fun name g σ hg hσ => ?_⟩
  by_cases hname : name ∈ own.map Prod.fst
  · obtain rfl := hg.eq_of_mem (hnames hname)
    obtain ⟨b, hb, rfl⟩ := List.mem_map.mp hname
    cases (hown b hb).symm.trans hσ
    exact Senses.mem_bind_of_mem hb
  · exact Senses.mem_bind_of_not_mem (hgrows.mem name g σ hg hσ) hname

/-- What is found for good is found at any time. -/
theorem finds (h : FindsForGood plan s f senses) : Finds plan s f senses [] :=
  ⟨h.mono (List.subset_append_left _ _), fun name g σ howner => h.mem name g σ (.of_owner? howner)⟩

end FindsForGood

namespace Finds

theorem lt_size (h : Finds plan s f senses pending) : f < s.size := h.forGood.lt_size

theorem mono {pending' : Senses} (h : Finds plan s f senses pending) (hsub : pending ⊆ pending') :
    Finds plan s f senses pending' :=
  ⟨h.forGood.mono (List.append_subset.mpr
    ⟨List.subset_append_left _ _, List.subset_append_of_subset_right _ hsub⟩), h.mem⟩

/-- Names stay where they are while other frames get names. -/
theorem later (h : Finds plan s f senses pending) (hsize : plan.size = s.size)
    (hplan : Store.Grows id none plan plan') (hst : Store.Grows Prod.fst none s t) :
    Finds plan' t f senses pending := by
  refine ⟨h.forGood.grows hsize hplan hst, fun name g σ howner hown => ?_⟩
  rw [hst.owner?_eq h.lt_size fun _ _ heq => by cases heq] at howner
  rw [hplan.own?_eq (hsize ▸ (s.owner?_le howner).trans_lt h.lt_size)] at hown
  exact h.mem name g σ howner hown

/-- The names that the frame has bound meanwhile are found there. -/
theorem bound (h : Finds plan s f senses pending) (hsize : plan.size = s.size)
    (hplan : Store.Grows id none plan plan') (hst : Store.Grows Prod.fst (some f) s t)
    (hnames : t.names f = s.names f ++ own.map Prod.fst) (hown : plan'.Promises f own) :
    Finds plan' t f (senses.bind own) (pending.without (own.map Prod.fst)) := by
  have hbound : own.map Prod.fst ⊆ t.names f := hnames ▸ List.subset_append_right _ _
  refine ⟨Senses.append_bind senses pending own ▸ h.forGood.bound hsize hplan hst hbound hown,
    fun name g σ howner hσ => ?_⟩
  by_cases hname : name ∈ own.map Prod.fst
  · obtain rfl := (Store.MayOwn.of_owner? howner).eq_of_mem (hbound hname)
    obtain ⟨b, hb, rfl⟩ := List.mem_map.mp hname
    cases (hown b hb).symm.trans hσ
    exact Senses.mem_bind_of_mem hb
  · have hold : s.owner? f name = some g := by
      rw [← hst.owner?_eq h.lt_size, howner]
      rintro _ _ ⟨⟩ hmem
      rw [hnames, List.mem_append] at hmem
      exact hmem.resolve_right hname
    rw [hplan.own?_eq (hsize ▸ (s.owner?_le hold).trans_lt h.lt_size)] at hσ
    exact Senses.mem_bind_of_not_mem (h.mem name g σ hold hσ) hname

/-- In a new frame names are found as around it, and later those that it will bind. -/
theorem opened (h : Finds plan s f senses pending) (hsize : plan.size = s.size)
    (bindings : Senses) :
    Finds (plan.openWith f bindings) (s.newFrame (some f)).2 s.size senses
      (bindings ++ pending) := by
  have hold {g : FrameId} {name : String} {σ : Sense} (hg : g ≤ f)
      (hσ : (plan.openWith f bindings).own? g name = some σ) : plan.own? g name = some σ := by
    rwa [(plan.grows_openWith f bindings).own?_eq (hsize ▸ hg.trans_lt h.lt_size)] at hσ
  refine ⟨⟨by simp, fun name g σ hg hσ => ?_⟩, fun name g σ howner hσ => ?_⟩
  · rcases hg.of_newFrame h.lt_size with rfl | hg
    · rw [Store.own?, Store.bindings_openWith, if_pos hsize.symm] at hσ
      exact List.mem_append_right _ (List.mem_append_left _ (mem_of_lookup_eq_some hσ))
    · have hmem := h.forGood.mem name g σ hg (hold hg.le hσ)
      rw [List.mem_append] at hmem ⊢
      exact hmem.imp_right (List.mem_append_right _)
  · rw [Store.owner?_step, s.parent?_newFrame_size h.lt_size, Store.own?,
      Store.bindings_newFrame, s.bindings_of_size_le le_rfl] at howner
    have howner : (s.newFrame (some f)).2.owner? f name = some g := howner
    rw [(Store.Grows.newFrame Prod.fst s (some f)).owner?_eq h.lt_size
      fun _ _ heq => by cases heq] at howner
    exact h.mem name g σ howner (hold (s.owner?_le howner) hσ)

/-- The names of a block that binds `own` from the start are found in the frame of the block, once
these names are bound. -/
theorem body {block : Senses} (h : Finds plan s f senses (own ++ block ++ pending))
    (hsize : plan.size = s.size) (hplan : Store.Grows id none plan plan')
    (hst : Store.Grows Prod.fst (some f) s t)
    (hnames : t.names f = s.names f ++ own.map Prod.fst) (hown : plan'.Promises f own) :
    Finds plan' t f (senses.bind own) (block ++ pending.without (own.map Prod.fst)) := by
  refine (h.bound hsize hplan hst hnames hown).mono ?_
  rintro ⟨name, σ⟩ hmem
  rw [Senses.mem_without, List.append_assoc, List.mem_append] at hmem
  obtain ⟨hmem | hmem, hname⟩ := hmem
  · exact absurd (List.mem_map_of_mem hmem) hname
  · rw [List.mem_append] at hmem ⊢
    exact hmem.imp_right fun hmem => Senses.mem_without.mpr ⟨hmem, hname⟩

/-- A function finds itself, and what is around its definition, once its name is bound. -/
theorem define (h : Finds plan s f senses pending) (hsize : plan.size = s.size)
    (hplan : plan.Promises f [(name, σ)]) (v : Value) :
    FindsForGood plan (s.append f name v) f ((senses ++ pending).bind [(name, σ)]) := by
  refine h.forGood.bound hsize (.refl _ _ _) (.append Prod.fst _ f name v) ?_ hplan
  rw [s.names_append h.lt_size name v]
  exact List.subset_append_right _ _

end Finds

/-! ## Promises -/

namespace Plan.Promises

theorem of_bindings (h : plan.bindings f = senses) (hnodup : (senses.map Prod.fst).Nodup) :
    plan.Promises f senses := by
  intro b hb
  rw [Store.own?, h]
  exact lookup_eq_some_of_mem hnodup hb

theorem mono {senses' : Senses} (h : plan.Promises f senses) (hsub : senses' ⊆ senses) :
    plan.Promises f senses' :=
  fun b hb => h b (hsub hb)

theorem grows (h : plan.Promises f senses) (hf : f < plan.size)
    (hplan : Store.Grows id none plan plan') : plan'.Promises f senses := by
  intro b hb
  rw [hplan.own?_eq hf]
  exact h b hb

end Plan.Promises

/-! ## What lasts -/

theorem Closure.Answers.grows {params : List Ty} {returns : Ty} {receiver : Option FrameId}
    {d : Definition} {c : Closure} (h : c.Answers q Δ ρ plan s params returns receiver d)
    (hsize : plan.size = s.size) (hplan : Store.Grows id none plan plan')
    (hst : Store.Grows Prod.fst g s t) : c.Answers q Δ ρ plan' t params returns receiver d := by
  obtain ⟨Γ, senses, td, hc, hΓ, htypes, hparams, hreturns, hfinds, hsteady⟩ := h
  exact ⟨Γ, senses, td, hc, hΓ, htypes, hparams, hreturns, hfinds.grows hsize hplan hst, hsteady⟩

theorem Function.Suits.grows {params : List Ty} {returns : Ty} {receiver : Option FrameId}
    {function : Function} (h : function.Suits Δ ρ plan s params returns receiver)
    (hsize : plan.size = s.size) (hplan : Store.Grows id none plan plan')
    (hst : Store.Grows Prod.fst g s t) :
    function.Suits Δ ρ plan' t params returns receiver := by
  obtain ⟨name, code⟩ := function
  cases code with
  | host f => exact h
  | closure c =>
    obtain ⟨d, hc⟩ := h
    exact ⟨d, hc.grows hsize hplan hst⟩

/-- A value goes on suiting its type. -/
theorem Value.Suits.grows (h : v.Suits Δ ρ plan w σ) (hsize : plan.size = w.store.size)
    (hplan : Store.Grows id none plan plan') (hw : w.Grows g w') : v.Suits Δ ρ plan' w' σ := by
  obtain ⟨ty, receiver⟩ := σ
  cases ty with
  | function params returns =>
    obtain ⟨id, function, rfl, hfunction, hsuits⟩ := h
    refine ⟨id, function, rfl, ?_, hsuits.grows hsize hplan hw.store⟩
    rw [← Array.getElem?_toList] at hfunction ⊢
    obtain ⟨more, hmore⟩ := hw.functions
    rw [← hmore, List.getElem?_append_left (List.getElem?_eq_some_iff.mp hfunction).1]
    exact hfunction
  | object o =>
    obtain ⟨name, members, rfl, hlt, hbindings, hnames⟩ := h
    refine ⟨name, members, rfl, hlt.trans_le hw.store.size_le, ?_, ?_⟩
    · rw [hplan.bindings_eq (hsize ▸ hlt)]
      exact hbindings
    · intro b hb
      exact hw.store.names_subset hlt (hnames b hb)
  | _ => trivial

theorem Value.suits_of_isPlain (h : σ.1.IsPlain) : v.Suits Δ ρ plan w σ := by
  obtain ⟨ty, receiver⟩ := σ
  cases ty with
  | function params returns => exact absurd h id
  | object o => exact absurd h id
  | _ => trivial

/-- A value suits what it may stand for. -/
theorem Value.Suits.serves {expected : Sense} (h : v.Suits Δ ρ plan w σ)
    (hserves : σ.Serves .calls expected) : v.Suits Δ ρ plan w expected := by
  by_cases hplain : expected.1.IsPlain
  · exact Value.suits_of_isPlain hplain
  obtain ⟨hbelow, hreceiver⟩ := hserves hplain
  have heq := hbelow.isPlain_or_eq.resolve_left hplain
  obtain ⟨ty, receiver⟩ := σ
  obtain ⟨_, receiver'⟩ := expected
  cases heq
  cases ty with
  | function params returns =>
    cases hreceiver trivial
    exact h
  | object o => exact h
  | _ => trivial

/-! ## Worlds that follow a plan -/

namespace World.Follows

/-- A world goes on following the plan if its frames bind nothing new but what suits. -/
theorem step (h : w.Follows Δ ρ plan) (hplan : Store.Grows id none plan plan') (hw : w.Grows g w')
    (hsize : plan'.size = w'.store.size)
    (hparent : ∀ f, plan'.parent? f = w'.store.parent? f)
    (hown : ∀ f name v, w'.store.own? f name = some v → w.store.own? f name = some v ∨
      ∃ σ, plan'.own? f name = some σ ∧ v.Suits Δ ρ plan' w' σ) :
    w'.Follows Δ ρ plan' := by
  refine ⟨hsize, hparent, fun f name v hv => ?_⟩
  rcases hown f name v hv with hold | hnew
  · obtain ⟨σ, hp, hsuits⟩ := h.suits f name v hold
    have hf : f < plan.size := Store.lt_size_of_mem_names (Store.mem_names_of_own? hp)
    exact ⟨σ, (hplan.own?_eq hf name).trans hp, hsuits.grows h.size_eq hplan hw⟩
  · exact hnew

theorem same (h : w.Follows Δ ρ plan) (hg : w.Grows none w') (hw : w.Same w') :
    w'.Follows Δ ρ plan := by
  refine h.step (.refl id none plan) hg (hw.store ▸ h.size_eq) (hw.store ▸ h.parent_eq)
    fun f name v hv => .inl ?_
  rwa [hw.store] at hv

theorem opened (h : w.Follows Δ ρ plan) (p : FrameId) (bindings : Senses) :
    (w.opened p).Follows Δ ρ (plan.openWith p bindings) := by
  refine h.step (plan.grows_openWith p bindings) (.opened w p) ?_ (fun f => ?_)
    fun f name v hv => .inl ?_
  · rw [Store.size_openWith, h.size_eq]
    exact (w.store.size_newFrame _).symm
  · rw [Store.parent?_openWith, Store.parent?_newFrame, h.size_eq, h.parent_eq]
    exact (w.store.parent?_newFrame _ f).symm
  · rwa [World.opened, Store.own?, Store.bindings_newFrame] at hv

/-- A frame may bind a name to what suits the plan once the name is bound. -/
theorem append (h : w.Follows Δ ρ plan) {w' : World} (hg : w.Grows (some f) w')
    (hw' : w'.store = w.store.append f name v) (hf : f < w.store.size)
    (hplan : plan.own? f name = some σ) (hv : v.Suits Δ ρ plan w' σ) : w'.Follows Δ ρ plan := by
  refine h.step (.refl id none plan) hg ?_ (fun f' => ?_) fun f' name' v' hv' => ?_
  · rw [hw', Store.size_append, h.size_eq]
  · rw [hw', Store.parent?_append, h.parent_eq]
  · rw [hw'] at hv'
    by_cases hf' : f' = f
    · subst hf'
      rw [Store.own?_append _ hf] at hv'
      cases hown : w.store.own? f' name' with
      | some old =>
        rw [hown] at hv'
        exact .inl hv'
      | none =>
        rw [hown, Option.none_or] at hv'
        split at hv'
        · next heq =>
          cases hv'
          exact .inr ⟨σ, heq ▸ hplan, hv⟩
        · cases hv'
    · rw [Store.own?, Store.bindings_append, if_neg fun h => hf' h.1.symm] at hv'
      exact .inl hv'

/-- A name may get another value that suits the plan. -/
theorem replace (h : w.Follows Δ ρ plan) (hplan : plan.own? f name = some σ)
    (hv : v.Suits Δ ρ plan w σ) :
    World.Follows Δ ρ { w with store := w.store.replace f name v } plan := by
  have hg : World.Grows none w { w with store := w.store.replace f name v } :=
    .of_store (.replace _ f name v)
  refine h.step (.refl id none plan) hg ?_ (fun f' => ?_) fun f' name' v' hv' => ?_
  · rw [Store.size_replace, h.size_eq]
  · rw [Store.parent?_replace, h.parent_eq]
  · by_cases hf' : f' = f ∧ name' = name
    · obtain ⟨rfl, rfl⟩ := hf'
      rw [Store.own?_replace, if_pos rfl] at hv'
      obtain ⟨old, -, rfl⟩ := Option.map_eq_some_iff.mp hv'
      exact .inr ⟨σ, hplan, hv.grows h.size_eq (.refl id none plan) hg⟩
    · left
      rwa [Store.own?_replace_of_ne _ v hf'] at hv'

end World.Follows

/-! ## Places of evaluation -/

/-- The world follows the plan, and what is found from the frame has one of the meanings. -/
structure Stands (Δ : FrameId → List (String × Ty)) (ρ : Receivers) (plan : Plan) (w : World)
    (f : FrameId) (senses pending : Senses) : Prop where
  follows : w.Follows Δ ρ plan
  finds : Finds plan w.store f senses pending

/-- `w'` follows the plan `plan'`, and is a later state of the world `w`, which follows `plan`. -/
structure Later (Δ : FrameId → List (String × Ty)) (ρ : Receivers) (g : Option FrameId)
    (plan : Plan) (w : World) (plan' : Plan) (w' : World) : Prop where
  plan : Store.Grows id none plan plan'
  world : w.Grows g w'
  follows : w'.Follows Δ ρ plan'

namespace Later

variable {plan'' : Plan} {w'' : World}

theorem refl (h : w.Follows Δ ρ plan) (g : Option FrameId) : Later Δ ρ g plan w plan w :=
  ⟨.refl _ _ _, .refl g w, h⟩

theorem trans (h : Later Δ ρ g plan w plan' w') (h' : Later Δ ρ g plan' w' plan'' w'') :
    Later Δ ρ g plan w plan'' w'' :=
  ⟨h.plan.trans h'.plan, h.world.trans h'.world, h'.follows⟩

theorem weaken (h : Later Δ ρ none plan w plan' w') (g : Option FrameId) :
    Later Δ ρ g plan w plan' w' :=
  ⟨h.plan, h.world.weaken g, h.follows⟩

/-- A name may get another value that suits the plan. -/
theorem replace (h : w.Follows Δ ρ plan) (hplan : plan.own? f name = some σ)
    (hv : v.Suits Δ ρ plan w σ) :
    Later Δ ρ none plan w plan { w with store := w.store.replace f name v } :=
  ⟨.refl _ _ _, .of_store (.replace _ f name v), h.replace hplan hv⟩

end Later

theorem Value.Suits.later (h : v.Suits Δ ρ plan w σ) (hw : w.Follows Δ ρ plan)
    (hl : Later Δ ρ g plan w plan' w') : v.Suits Δ ρ plan' w' σ :=
  h.grows hw.size_eq hl.plan hl.world

namespace Stands

theorem later (h : Stands Δ ρ plan w f senses pending) (hl : Later Δ ρ none plan w plan' w') :
    Stands Δ ρ plan' w' f senses pending :=
  ⟨hl.follows, h.finds.later h.follows.size_eq hl.plan hl.world.store⟩

/-- The names that the frame has bound meanwhile are found there. -/
theorem bound (h : Stands Δ ρ plan w f senses pending) (hl : Later Δ ρ (some f) plan w plan' w')
    (hnames : w'.store.names f = w.store.names f ++ own.map Prod.fst)
    (hown : plan'.Promises f own) :
    Stands Δ ρ plan' w' f (senses.bind own) (pending.without (own.map Prod.fst)) :=
  ⟨hl.follows, h.finds.bound h.follows.size_eq hl.plan hl.world.store hnames hown⟩

/-- Whatever frame owns the name, the plan gives it one of its meanings there. -/
theorem owner {owner : FrameId} (h : Stands Δ ρ plan w f senses pending)
    (howner : w.store.owner? f name = some owner) :
    ∃ σ, (name, σ) ∈ senses ∧ plan.own? owner name = some σ := by
  obtain ⟨v, hv⟩ := Option.isSome_iff_exists.mp
    ((w.store.own?_isSome_iff owner name).mpr (Store.mem_names_of_owner? howner))
  obtain ⟨σ, hplan, -⟩ := h.follows.suits owner name v hv
  exact ⟨σ, h.finds.mem name owner σ howner hplan, hplan⟩

/-- What is found under a name suits one of its meanings. -/
theorem lookup (h : Stands Δ ρ plan w f senses pending) (hv : w.store.lookup f name = some v) :
    ∃ σ, (name, σ) ∈ senses ∧ v.Suits Δ ρ plan w σ := by
  rw [Store.lookup_eq] at hv
  obtain ⟨owner, howner, hv⟩ := Option.bind_eq_some_iff.mp hv
  obtain ⟨σ, hplan, hsuits⟩ := h.follows.suits owner name v hv
  exact ⟨σ, h.finds.mem name owner σ howner hplan, hsuits⟩

end Stands

/-- The plan says of members what the type of the object says. -/
theorem Receivers.own?_members {o : FrameId} {bindings : List (String × Ty)} {ty : Ty}
    (h : plan.bindings f = ρ.members o bindings) (hty : bindings.lookup name = some ty) :
    plan.own? f name = some (ty, ρ o name) := by
  rw [Store.own?, h, lookup_members, hty]
  rfl

/-- An object that suits its type has the members of the type. -/
theorem Value.Suits.member {o : FrameId} {receiver : Option FrameId} {ty : Ty}
    (h : v.Suits Δ ρ plan w (.object o, receiver)) (hw : w.Follows Δ ρ plan)
    (hty : (Δ o).lookup name = some ty) :
    ∃ label members u, v = .object label members ∧ w.store.own? members name = some u ∧
      plan.own? members name = some (ty, ρ o name) ∧ u.Suits Δ ρ plan w (ty, ρ o name) := by
  obtain ⟨label, members, rfl, -, hbindings, hnames⟩ := h
  have hplan := Receivers.own?_members hbindings hty
  obtain ⟨u, hu⟩ := Option.isSome_iff_exists.mp
    ((w.store.own?_isSome_iff members name).mpr (hnames _ (mem_of_lookup_eq_some hty)))
  obtain ⟨σ, hplan', hsuits⟩ := hw.suits members name u hu
  cases hplan.symm.trans hplan'
  exact ⟨label, members, u, rfl, hu, hplan, hsuits⟩

end ObjectLang
