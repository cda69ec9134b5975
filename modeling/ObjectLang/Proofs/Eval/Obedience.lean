import ObjectLang.Proofs.Eval.Plan
import ObjectLang.Proofs.Eval.Trace
import ObjectLang.Proofs.Program.Initialized
import ObjectLang.Proofs.Value.Missing

/-!
# Traces that obey a plan

A plan says of the names in each frame what types they have. A trace obeys the plan if all that is
bound is of its type. For a function this means that it was made of a definition with the same
parameters and the same result, which is recorded in the trace, and for an object that its members
obey the plan. All other values are of a kind that their type admits. Only the empty value may stand
for any of them, once a function that declares another result has fallen off its end.

Such a trace also tells of every function body that has completed that its result was of the type
that its definition declares, in the same sense.
-/

namespace ObjectLang

open Eval (Event)

/-! ## Results -/

namespace Eval

/-- Among the events is the end of a function that returned nothing, although the empty value is not
of the type that it declares to return. -/
def FallsOff (es : List Event) : Prop :=
  ∃ d isMethod id v ty, Event.defined d isMethod id ∈ es ∧ Event.completed id (.normal v) ∈ es ∧
    Denotes d.returnType ty ∧ ty.admits .nil = false

/-- If a function has completed, its result meets the type that its definition declares. -/
def Event.Respected (es : List Event) : Event → Prop
  | .completed id completion => ∀ d isMethod ty, .defined d isMethod id ∈ es →
      Denotes d.returnType ty → completion.result.Meets (FallsOff es) ty
  | _ => True

/-- Whenever a function has completed, the type of its result was respected. The latest event is the
first one. -/
def Respects : List Event → Prop
  | [] => True
  | e :: earlier => e.Respected (e :: earlier) ∧ Respects earlier

theorem FallsOff.mono {es es' : List Event} (h : FallsOff es) (hsub : es ⊆ es') : FallsOff es' := by
  obtain ⟨d, isMethod, id, v, ty, hdefined, hcompleted, hty⟩ := h
  exact ⟨d, isMethod, id, v, ty, hsub hdefined, hsub hcompleted, hty⟩

theorem Respects.at {later earlier : List Event} {e : Event}
    (h : Respects (later ++ e :: earlier)) : e.Respected (e :: earlier) := by
  induction later with
  | nil => exact h.1
  | cons _ _ ih => exact ih h.2

end Eval

section

variable (Δ : FrameId → List (String × Ty)) (ρ : Receivers)

/-! ## Values -/

/-- The function with this number has these parameters and this result. -/
def Function.Answers (plan : Plan) (r : Trace Event World) (id : FunctionId) (params : List Ty)
    (returns : Ty) (receiver : Option FrameId) (function : Function) : Prop :=
  match function.code with
  | .host f => receiver = none ∧ f.ty? = some (.function params returns)
  | .closure c => ∃ d, .defined d receiver.isSome id ∈ events r.past ∧
      c.Answers .values Δ ρ plan r.state.store params returns receiver d ∧ d.Initialized

/-- The value is of the type. Functions of the type take such a receiver. -/
def Value.Obeys (plan : Plan) (r : Trace Event World) (v : Value) : Sense → Prop
  | (.function params returns, receiver) => ∃ id function, v = .function id ∧
      r.state.functions[id]? = some function ∧
      function.Answers Δ ρ plan r id params returns receiver
  | (.object o, _) => ∃ name members, v = .object name members ∧ members < r.state.store.size ∧
      plan.bindings members = ρ.members o (Δ o)
  | (ty, _) => v.Meets (Eval.FallsOff (events r.past)) ty

/-! ## Traces -/

/-- The world has the frames of the plan, these bind what the plan says, and the results of all
functions were of the types that they declare. -/
structure Trace.Obeys (r : Trace Event World) (plan : Plan) : Prop where
  size_eq : plan.size = r.state.store.size
  parent_eq : ∀ f, plan.parent? f = r.state.store.parent? f
  obeys : ∀ f name v, r.state.store.own? f name = some v →
    ∃ σ, plan.own? f name = some σ ∧ v.Obeys Δ ρ plan r σ
  defined_lt : ∀ d isMethod id, .defined d isMethod id ∈ events r.past →
    id < r.state.functions.size
  /-- No function is made twice. -/
  defined_eq : ∀ d isMethod d' isMethod' id, .defined d isMethod id ∈ events r.past →
    .defined d' isMethod' id ∈ events r.past → d = d'
  respects : Eval.Respects (events r.past)

/-- `r'` obeys the plan `plan'`, and goes on where the trace `r` ends, which obeys `plan`. Only the
frame `g` has got new names. -/
structure Trace.Continues (g : Option FrameId) (plan : Plan) (r : Trace Event World) (plan' : Plan)
    (r' : Trace Event World) : Prop where
  plan : Store.Grows id none plan plan'
  world : r.state.Grows g r'.state
  past : events r.past ⊆ events r'.past
  obeys : r'.Obeys Δ ρ plan'

/-- The trace obeys the plan, and what is found from the frame has one of the meanings. -/
structure Trace.Stands (r : Trace Event World) (plan : Plan) (f : FrameId)
    (senses pending : Senses) : Prop where
  obeys : r.Obeys Δ ρ plan
  finds : Finds plan r.state.store f senses pending

end

variable {Δ : FrameId → List (String × Ty)} {ρ : Receivers} {plan plan' plan'' : Plan}
  {r r' r'' : Trace Event World} {w : World} {f : FrameId} {senses pending : Senses}
  {v : Value} {σ : Sense} {g : Option FrameId} {name : String}

/-! ## What lasts -/

/-- A value goes on being of its type. -/
theorem Value.Obeys.grows (h : v.Obeys Δ ρ plan r σ)
    (hsize : plan.size = r.state.store.size) (hplan : Store.Grows id none plan plan')
    (hw : r.state.Grows g r'.state) (hevents : events r.past ⊆ events r'.past) :
    v.Obeys Δ ρ plan' r' σ := by
  obtain ⟨ty, receiver⟩ := σ
  cases ty with
  | function params returns =>
    obtain ⟨id, ⟨name, code⟩, rfl, hfunction, hanswers⟩ := h
    refine ⟨id, ⟨name, code⟩, rfl, ?_, ?_⟩
    · rw [← Array.getElem?_toList] at hfunction ⊢
      obtain ⟨more, hmore⟩ := hw.functions
      rw [← hmore, List.getElem?_append_left (List.getElem?_eq_some_iff.mp hfunction).1]
      exact hfunction
    · cases code with
      | host f => exact hanswers
      | closure c =>
        obtain ⟨d, hdefined, hc, hinit⟩ := hanswers
        exact ⟨d, hevents hdefined, hc.grows hsize hplan hw.store, hinit⟩
  | object o =>
    obtain ⟨name, members, rfl, hlt, hbindings⟩ := h
    exact ⟨name, members, rfl, hlt.trans_le hw.store.size_le,
      (hplan.bindings_eq (hsize ▸ hlt)).trans hbindings⟩
  | _ => exact h.mono fun hfalls => hfalls.mono hevents

theorem Value.obeys_iff_of_isPlain (hty : σ.1.IsPlain) :
    v.Obeys Δ ρ plan r σ ↔ v.Meets (Eval.FallsOff (events r.past)) σ.1 := by
  obtain ⟨ty, receiver⟩ := σ
  cases ty with
  | function params returns => exact absurd hty id
  | object o => exact absurd hty id
  | _ => exact Iff.rfl

/-- What is of a type is of a kind that the type admits, or missing. -/
theorem Value.Obeys.meets (h : v.Obeys Δ ρ plan r σ) :
    v.Meets (Eval.FallsOff (events r.past)) σ.1 := by
  obtain ⟨ty, receiver⟩ := σ
  cases ty with
  | function params returns =>
    obtain ⟨id, function, rfl, -⟩ := h
    exact .of_admits rfl nofun
  | object o =>
    obtain ⟨label, members, rfl, -⟩ := h
    exact .of_admits rfl nofun
  | _ => exact h

/-- A value is of any type that it may stand for. -/
theorem Value.Obeys.serves {expected : Sense} (h : v.Obeys Δ ρ plan r σ)
    (hserves : σ.Serves .values expected) : v.Obeys Δ ρ plan r expected := by
  obtain ⟨hbelow, hreceiver⟩ := hserves trivial
  rcases hbelow.isPlain_or_eq with hplain | heq
  · exact (Value.obeys_iff_of_isPlain hplain).mpr (h.meets.below hbelow)
  · obtain ⟨ty, receiver⟩ := σ
    obtain ⟨_, receiver'⟩ := expected
    cases heq
    cases ty with
    | function params returns =>
      cases hreceiver trivial
      exact h
    | _ => exact h

/-- A member of an object is of the type that the object's type gives it. -/
theorem Value.Obeys.member {label : Option String} {members : FrameId} {o : FrameId}
    {receiver : Option FrameId} {ty : Ty}
    (h : (Value.object label members).Obeys Δ ρ plan r (.object o, receiver))
    (hr : r.Obeys Δ ρ plan) (hty : (Δ o).lookup name = some ty) :
    plan.own? members name = some (ty, ρ o name) ∧
      (r.state.store.own? members name = some v → v.Obeys Δ ρ plan r (ty, ρ o name)) := by
  obtain ⟨_, _, ⟨⟩, -, hbindings⟩ := h
  have hplan := Receivers.own?_members hbindings hty
  refine ⟨hplan, fun hv => ?_⟩
  obtain ⟨σ, hplan', hobeys⟩ := hr.obeys members name v hv
  cases hplan.symm.trans hplan'
  exact hobeys

/-! ## Steps -/

namespace Trace.Obeys

/-- A step without event keeps to the plan if frames bind nothing new but what obeys it. -/
theorem step (h : r.Obeys Δ ρ plan) (hplan : Store.Grows id none plan plan')
    (hw : r.state.Grows g w) (hsize : plan'.size = w.store.size)
    (hparent : ∀ f, plan'.parent? f = w.store.parent? f)
    (hown : ∀ f name v, w.store.own? f name = some v → r.state.store.own? f name = some v ∨
      ∃ σ, plan'.own? f name = some σ ∧ v.Obeys Δ ρ plan' (r.next none w) σ) :
    (r.next none w).Obeys Δ ρ plan' := by
  refine ⟨hsize, hparent, fun f name v hv => ?_, fun d isMethod id hd => ?_, h.defined_eq,
    h.respects⟩
  · rcases hown f name v hv with hold | hnew
    · obtain ⟨σ, hp, hobeys⟩ := h.obeys f name v hold
      have hf : f < plan.size := Store.lt_size_of_mem_names (Store.mem_names_of_own? hp)
      exact ⟨σ, (hplan.own?_eq hf name).trans hp,
        hobeys.grows h.size_eq hplan hw (List.Subset.refl _)⟩
    · exact hnew
  · have hle := hw.functions.length_le
    simp only [Array.length_toList] at hle
    exact (h.defined_lt d isMethod id hd).trans_le hle

/-- An event may be recorded if it respects the types of results, and no function is made twice. -/
theorem mark (h : r.Obeys Δ ρ plan) {e : Event} (hrespected : e.Respected (e :: events r.past))
    (hnew : ∀ d isMethod id, e = .defined d isMethod id → id < r.state.functions.size ∧
      ∀ d' isMethod', .defined d' isMethod' id ∉ events r.past) :
    (r.next (some e) r.state).Obeys Δ ρ plan := by
  refine ⟨h.size_eq, h.parent_eq, fun f name v hv => ?_, fun d isMethod id hd => ?_,
    fun d isMethod d' isMethod' id hd hd' => ?_, ⟨hrespected, h.respects⟩⟩
  · obtain ⟨σ, hp, hobeys⟩ := h.obeys f name v hv
    exact ⟨σ, hp, hobeys.grows (g := none) h.size_eq (.refl _ _ _) (.refl _ _)
      (List.subset_cons_self _ _)⟩
  · rcases List.mem_cons.mp hd with heq | hd
    · exact (hnew d isMethod id heq.symm).1
    · exact h.defined_lt d isMethod id hd
  · rcases List.mem_cons.mp hd with heq | hd
    · rcases List.mem_cons.mp hd' with heq' | hd'
      · cases heq.trans heq'.symm
        rfl
      · exact absurd hd' ((hnew d isMethod id heq.symm).2 d' isMethod')
    · rcases List.mem_cons.mp hd' with heq' | hd'
      · exact absurd hd ((hnew d' isMethod' id heq'.symm).2 d isMethod)
      · exact h.defined_eq d isMethod d' isMethod' id hd hd'

end Trace.Obeys

namespace Trace.Continues

theorem refl (h : r.Obeys Δ ρ plan) (g : Option FrameId) : r.Continues Δ ρ g plan plan r :=
  ⟨.refl _ _ _, .refl g _, List.Subset.refl _, h⟩

theorem trans (h : r.Continues Δ ρ g plan plan' r') (h' : r'.Continues Δ ρ g plan' plan'' r'') :
    r.Continues Δ ρ g plan plan'' r'' :=
  ⟨h.plan.trans h'.plan, h.world.trans h'.world, List.Subset.trans h.past h'.past, h'.obeys⟩

theorem weaken (h : r.Continues Δ ρ none plan plan' r') (g : Option FrameId) :
    r.Continues Δ ρ g plan plan' r' :=
  ⟨h.plan, h.world.weaken g, h.past, h.obeys⟩

theorem same (h : r.Obeys Δ ρ plan) (hw : r.state.Grows none w) (hsame : r.state.Same w) :
    r.Continues Δ ρ none plan plan (r.next none w) := by
  refine ⟨.refl _ _ _, hw, List.Subset.refl _, h.step (.refl _ _ _) hw ?_ ?_ ?_⟩
  · rw [hsame.store]
    exact h.size_eq
  · rw [hsame.store]
    exact h.parent_eq
  · rw [hsame.store]
    exact fun _ _ _ hv => .inl hv

theorem opened (h : r.Obeys Δ ρ plan) (p : FrameId) (bindings : Senses) :
    r.Continues Δ ρ none plan (plan.openWith p bindings) (r.next none (r.state.opened p)) := by
  have hplan := plan.grows_openWith p bindings
  have hw := World.Grows.opened r.state p
  refine ⟨hplan, hw, List.Subset.refl _, h.step hplan hw ?_ (fun f => ?_)
    fun f name v hv => .inl ?_⟩
  · rw [Store.size_openWith, h.size_eq]
    exact (r.state.store.size_newFrame _).symm
  · rw [Store.parent?_openWith, Store.parent?_newFrame, h.size_eq, h.parent_eq]
    exact (r.state.store.parent?_newFrame _ f).symm
  · rwa [World.opened, Store.own?, Store.bindings_newFrame] at hv

/-- A frame may bind a name to what obeys the plan once the name is bound. -/
theorem append (h : r.Obeys Δ ρ plan) (hf : f < r.state.store.size)
    (hplan : plan.own? f name = some σ)
    (hv : v.Obeys Δ ρ plan
      (r.next none { r.state with store := r.state.store.append f name v }) σ) :
    r.Continues Δ ρ (some f) plan plan
      (r.next none { r.state with store := r.state.store.append f name v }) := by
  have hw : World.Grows (some f) r.state
      { r.state with store := r.state.store.append f name v } := .of_store (.append _ _ f name v)
  refine ⟨.refl _ _ _, hw, List.Subset.refl _, h.step (.refl _ _ _) hw ?_ (fun f' => ?_)
    fun f' name' v' hv' => ?_⟩
  · rw [Store.size_append, h.size_eq]
  · rw [Store.parent?_append, h.parent_eq]
  · by_cases hf' : f' = f
    · subst hf'
      rw [Store.own?_append _ hf] at hv'
      cases hown : r.state.store.own? f' name' with
      | some old =>
        rw [hown] at hv'
        exact .inl hv'
      | none =>
        rw [hown, Option.none_or] at hv'
        split at hv'
        · next heq =>
          cases hv'
          exact .inr ⟨σ, heq ▸ hplan, hv⟩
        · cases hv'
    · rw [Store.own?, Store.bindings_append, if_neg fun h => hf' h.1.symm] at hv'
      exact .inl hv'

/-- A name may get another value that obeys the plan. -/
theorem replace (h : r.Obeys Δ ρ plan) (hplan : plan.own? f name = some σ)
    (hv : v.Obeys Δ ρ plan r σ) :
    r.Continues Δ ρ none plan plan
      (r.next none { r.state with store := r.state.store.replace f name v }) := by
  have hw : World.Grows none r.state { r.state with store := r.state.store.replace f name v } :=
    .of_store (.replace _ f name v)
  refine ⟨.refl _ _ _, hw, List.Subset.refl _, h.step (.refl _ _ _) hw ?_ (fun f' => ?_)
    fun f' name' v' hv' => ?_⟩
  · rw [Store.size_replace, h.size_eq]
  · rw [Store.parent?_replace, h.parent_eq]
  · by_cases hf' : f' = f ∧ name' = name
    · obtain ⟨rfl, rfl⟩ := hf'
      rw [Store.own?_replace, if_pos rfl] at hv'
      obtain ⟨old, -, rfl⟩ := Option.map_eq_some_iff.mp hv'
      exact .inr ⟨σ, hplan, hv.grows h.size_eq (.refl _ _ _) hw (List.Subset.refl _)⟩
    · left
      rwa [Store.own?_replace_of_ne _ v hf'] at hv'

/-- A function may be entered into the table. -/
theorem withFunction (h : r.Obeys Δ ρ plan) (g : Option FrameId) (function : Function) :
    r.Continues Δ ρ g plan plan (r.next none (r.state.withFunction function)) := by
  have hw := World.Grows.withFunction g r.state function
  exact ⟨.refl _ _ _, hw, List.Subset.refl _,
    h.step (.refl _ _ _) hw h.size_eq h.parent_eq fun _ _ _ hv => .inl hv⟩

theorem mark (h : r.Obeys Δ ρ plan) (g : Option FrameId) {e : Event}
    (hrespected : e.Respected (e :: events r.past))
    (hnew : ∀ d isMethod id, e = .defined d isMethod id → id < r.state.functions.size ∧
      ∀ d' isMethod', .defined d' isMethod' id ∉ events r.past) :
    r.Continues Δ ρ g plan plan (r.next (some e) r.state) :=
  ⟨.refl _ _ _, .refl _ _, List.subset_cons_self _ _, h.mark hrespected hnew⟩

end Trace.Continues

theorem Value.Obeys.later (h : v.Obeys Δ ρ plan r σ) (hr : r.Obeys Δ ρ plan)
    (hl : r.Continues Δ ρ g plan plan' r') : v.Obeys Δ ρ plan' r' σ :=
  h.grows hr.size_eq hl.plan hl.world hl.past

namespace Trace.Stands

theorem lt_size (h : r.Stands Δ ρ plan f senses pending) : f < plan.size :=
  h.obeys.size_eq ▸ h.finds.lt_size

theorem later (h : r.Stands Δ ρ plan f senses pending) (hl : r.Continues Δ ρ none plan plan' r') :
    r'.Stands Δ ρ plan' f senses pending :=
  ⟨hl.obeys, h.finds.later h.obeys.size_eq hl.plan hl.world.store⟩

/-- The names that the frame has bound meanwhile are found there. -/
theorem bound {own : Senses} (h : r.Stands Δ ρ plan f senses pending)
    (hl : r.Continues Δ ρ (some f) plan plan' r')
    (hnames : r'.state.store.names f = r.state.store.names f ++ own.map Prod.fst)
    (hown : plan'.Promises f own) :
    r'.Stands Δ ρ plan' f (senses.bind own) (pending.without (own.map Prod.fst)) :=
  ⟨hl.obeys, h.finds.bound h.obeys.size_eq hl.plan hl.world.store hnames hown⟩

/-- Whatever frame owns the name, the plan gives it one of its meanings there. -/
theorem owner {owner : FrameId} (h : r.Stands Δ ρ plan f senses pending)
    (howner : r.state.store.owner? f name = some owner) :
    ∃ σ, (name, σ) ∈ senses ∧ plan.own? owner name = some σ := by
  obtain ⟨v, hv⟩ := Option.isSome_iff_exists.mp
    ((r.state.store.own?_isSome_iff owner name).mpr (Store.mem_names_of_owner? howner))
  obtain ⟨σ, hplan, -⟩ := h.obeys.obeys owner name v hv
  exact ⟨σ, h.finds.mem name owner σ howner hplan, hplan⟩

/-- What is found under a name is as one of its meanings says. -/
theorem lookup (h : r.Stands Δ ρ plan f senses pending)
    (hv : r.state.store.lookup f name = some v) :
    ∃ σ, (name, σ) ∈ senses ∧ v.Obeys Δ ρ plan r σ := by
  rw [Store.lookup_eq] at hv
  obtain ⟨owner, howner, hv⟩ := Option.bind_eq_some_iff.mp hv
  obtain ⟨σ, hplan, hobeys⟩ := h.obeys.obeys owner name v hv
  exact ⟨σ, h.finds.mem name owner σ howner hplan, hobeys⟩

end Trace.Stands

end ObjectLang
