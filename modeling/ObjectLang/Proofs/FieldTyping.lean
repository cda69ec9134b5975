import ObjectLang.Proofs.Check.Members
import ObjectLang.Proofs.Eval.Completed
import ObjectLang.Proofs.Scope.Owners
import ObjectLang.Proofs.Typed.Sameness
import ObjectLang.Proofs.Value.Admission

/-!
# Types of fields

The initial values of the fields of an object are checked in the scope around the object and
evaluated in the frame of members, which shows the earlier fields as well. The two agree if a field
that an initial value reads in this way has a type below the one that its name has outside.

The main statement is about initial values that make no calls and no objects: if the object is
accepted and its evaluation succeeds, then every field holds a value that its recorded type admits.
-/

namespace ObjectLang

/-- The expression is made of constants, variables, parentheses and operators. -/
def Expr.IsElementary : Expr → Prop
  | .literal _ | .variable _ => True
  | .group inner => inner.IsElementary
  | .binary _ left right => left.IsElementary ∧ right.IsElementary
  | _ => False

/-- The declaration has an elementary initial value. -/
def Declaration.IsElementary (d : Declaration) : Prop := ∃ e, d.value = some e ∧ e.IsElementary

/-- The variables that an elementary expression reads, with the types that were found for them. -/
def TypedExpr.reads : TypedExpr → List (String × Ty)
  | .variable name ty => [(name, ty)]
  | .group inner => inner.reads
  | .binary _ left right _ => left.reads ++ right.reads
  | _ => []

/-- The variables that an elementary initial value reads. -/
def TypedDeclaration.reads (d : TypedDeclaration) : List (String × Ty) :=
  d.value.elim [] (·.reads)

/-- If the initial value of the second field reads the name of the first one, it gets what it was
checked for. -/
def TypedDeclaration.Serves (d e : TypedDeclaration) : Prop :=
  ∀ r ∈ e.reads, r.1 = d.name → d.ty.subtypeOf r.2 = true

/-- Where a name that is read has a value, the type that was found for the name admits it. -/
def Store.Conforms (s : Store Value) (f : FrameId) (reads : List (String × Ty)) : Prop :=
  ∀ r ∈ reads, ∀ v, s.lookup f r.1 = some v → r.2.admits v.kind = true

/-- The field is bound to a value that its recorded type admits. -/
def TypedDeclaration.Holds (d : TypedDeclaration) (b : String × Value) : Prop :=
  b.1 = d.name ∧ d.ty.admits b.2.kind = true

theorem Store.Conforms.mono {s : Store Value} {f : FrameId} {reads reads' : List (String × Ty)}
    (h : s.Conforms f reads) (hsub : reads' ⊆ reads) : s.Conforms f reads' :=
  fun r hr => h r (hsub hr)

/-- What a name means in a frame to which a new name was added. -/
theorem Store.lookup_append {α : Type} {s : Store α} {f : FrameId} {name : String} (v : α)
    (hf : f < s.size) (hname : name ∉ s.names f) (name' : String) :
    (s.append f name v).lookup f name' = if name' = name then some v else s.lookup f name' := by
  have hparent : ((s.parent? f).bind ((s.append f name v).lookup · name')) =
      (s.parent? f).bind (s.lookup · name') := by
    cases hp : s.parent? f with
    | none => rfl
    | some p =>
      have hlt := s.parent?_lt hp
      refine (Store.Grows.append id s f name v).lookup_eq (hlt.trans hf) ?_ name'
      intro g hg heq
      cases heq
      exact absurd ((s.le_of_mem_chain hg).trans_lt hlt) (lt_irrefl _)
  rw [lookup_step, parent?_append, hparent, own?_append s hf, lookup_step]
  split
  · next heq =>
    have hnone : s.own? f name = none := by
      rw [← Option.not_isSome_iff_eq_none, own?_isSome_iff]
      exact hname
    rw [heq, hnone]
    rfl
  · rw [Option.or_none]

/-- A name means in a new frame what it means in the parent. -/
theorem Store.lookup_newFrame {α : Type} {s : Store α} {p : FrameId} (hp : p < s.size)
    (name : String) : (s.newFrame (some p)).2.lookup s.size name = s.lookup p name := by
  rw [lookup_step, s.parent?_newFrame_size hp, own?, bindings_newFrame,
    s.bindings_of_size_le le_rfl]
  exact (Store.Grows.newFrame id s (some p)).lookup_eq hp (by simp) name

theorem Literal.admits (value : Literal) : value.ty.admits value.value.kind = true := by
  cases value <;> rfl

namespace Eval

variable {invoke : Invoke} {f : FrameId} {c : Context}

/-! ## Initial values -/

/-- An accepted elementary expression is checked without a change, and reads names as they are in
scope. -/
theorem elementary_checked : ∀ {types types' : Store Ty} {t : TypedExpr} (e : Expr),
    e.IsElementary → Check.expr f e types = .ok t types' →
    types' = types ∧ ∀ r ∈ t.reads, types.lookup f r.1 = some r.2
  | _, _, _, .literal value, _, h => by
    rw [Check.expr] at h
    cases h
    exact ⟨rfl, fun r hr => absurd hr List.not_mem_nil⟩
  | _, _, _, .variable name, _, h => by
    simp only [Check.expr, bind_run_eq_ok_iff, pure_run_eq_ok_iff] at h
    obtain ⟨ty, _, hlookup, rfl, rfl⟩ := h
    obtain ⟨hty, rfl⟩ := Check.lookup_eq_ok hlookup
    exact ⟨rfl, fun r hr => List.mem_singleton.mp hr ▸ hty⟩
  | _, _, _, .group inner, he, h => by
    simp only [Check.expr, bind_run_eq_ok_iff, pure_run_eq_ok_iff] at h
    obtain ⟨tinner, _, hinner, rfl, rfl⟩ := h
    obtain ⟨rfl, hreads⟩ := elementary_checked inner he hinner
    exact ⟨rfl, hreads⟩
  | _, _, _, .binary op left right, he, h => by
    simp only [Check.expr, bind_run_eq_ok_iff, pure_run_eq_ok_iff] at h
    obtain ⟨tleft, _, hleft, tright, _, hright, ty, _, hrule, rfl, rfl⟩ := h
    obtain ⟨rfl, hreadsL⟩ := elementary_checked left he.1 hleft
    obtain ⟨rfl, hreadsR⟩ := elementary_checked right he.2 hright
    obtain ⟨-, rfl⟩ := Check.result_eq_ok hrule
    exact ⟨rfl, fun r hr => (List.mem_append.mp hr).elim (hreadsL r) (hreadsR r)⟩

/-- Where the names that it reads conform, an accepted elementary expression gives a value that its
type admits, and changes no frame. -/
theorem elementary_evaluated {w w' : World} {v : Value} : ∀ {types types' : Store Ty}
    {t : TypedExpr} (e : Expr), e.IsElementary → Check.expr f e types = .ok t types' →
    w.store.Conforms c.frame t.reads → expr invoke c e w = .ok v w' →
    w'.store = w.store ∧ t.ty.admits v.kind = true
  | _, _, _, .literal value, _, hcheck, _, hrun => by
    rw [Check.expr] at hcheck
    cases hcheck
    simp only [expr, bind_run_eq_ok_iff, pure_run_eq_ok_iff] at hrun
    obtain ⟨_, _, htick, rfl, rfl⟩ := hrun
    exact ⟨tick_eq_ok htick, value.admits⟩
  | _, _, _, .variable name, _, hcheck, hconforms, hrun => by
    simp only [Check.expr, bind_run_eq_ok_iff, pure_run_eq_ok_iff] at hcheck
    obtain ⟨ty, _, -, rfl, rfl⟩ := hcheck
    simp only [expr, bind_run_eq_ok_iff] at hrun
    obtain ⟨_, w₀, htick, hread⟩ := hrun
    obtain ⟨hv, rfl⟩ := lookup_eq_ok hread
    have hstore := tick_eq_ok htick
    exact ⟨hstore, hconforms (name, ty) List.mem_cons_self v (hstore ▸ hv)⟩
  | _, _, _, .group inner, he, hcheck, hconforms, hrun => by
    simp only [Check.expr, bind_run_eq_ok_iff, pure_run_eq_ok_iff] at hcheck
    obtain ⟨tinner, _, hinner, rfl, rfl⟩ := hcheck
    simp only [expr, bind_run_eq_ok_iff] at hrun
    obtain ⟨_, w₀, htick, hrun⟩ := hrun
    have hstore := tick_eq_ok htick
    obtain ⟨hstore', hadmits⟩ := elementary_evaluated inner he hinner (hstore ▸ hconforms) hrun
    exact ⟨hstore'.trans hstore, hadmits⟩
  | _, _, _, .binary op left right, he, hcheck, hconforms, hrun => by
    simp only [Check.expr, bind_run_eq_ok_iff, pure_run_eq_ok_iff] at hcheck
    obtain ⟨tleft, _, hleft, tright, _, hright, ty, _, hrule, rfl, rfl⟩ := hcheck
    obtain ⟨hty, rfl⟩ := Check.result_eq_ok hrule
    have hconformsL := hconforms.mono (List.subset_append_left _ _)
    have hconformsR := hconforms.mono (List.subset_append_right _ _)
    simp only [expr, bind_run_eq_ok_iff] at hrun
    obtain ⟨_, w₀, htick, a, w₁, ha, decided, _, hresult, hrest⟩ := hrun
    have hstore₀ := tick_eq_ok htick
    obtain ⟨hstore₁, hadmitsA⟩ := elementary_evaluated left he.1 hleft (hstore₀ ▸ hconformsL) ha
    have hstore := hstore₁.trans hstore₀
    obtain ⟨hdecided, rfl⟩ := result_eq_ok hresult
    cases decided with
    | some v =>
      cases hrest
      exact ⟨hstore, Operator.admits_of_decidedBy hty hdecided⟩
    | none =>
      obtain ⟨b, w₂, hb, happly⟩ := bind_run_eq_ok_iff.mp hrest
      obtain ⟨hstore₂, hadmitsB⟩ :=
        elementary_evaluated right he.2 hright (hstore ▸ hconformsR) hb
      obtain ⟨happlied, rfl⟩ := result_eq_ok happly
      have hv : op.evaluate w'.print a b = .ok v := by
        rw [Operator.evaluate, hdecided]
        exact happlied
      exact ⟨hstore₂.trans hstore, Operator.admits_of_evaluate hty hadmitsA hadmitsB hv⟩

/-! ## Members -/

/-- The fields of an object are bound one after another. Each of them gets a value that its type
admits if the names that the initial values read conform, and the fields serve each other. -/
theorem objectFields_typed {members o : FrameId} : ∀ {types types' : Store Ty}
    {tfields : List TypedDeclaration} {w w' : World} (fields : List Declaration),
    (∀ d ∈ fields, d.IsElementary) → Check.objectFields f o fields types = .ok tfields types' →
    tfields.Pairwise TypedDeclaration.Serves → members < w.store.size →
    (∀ d ∈ tfields, w.store.Conforms members d.reads) →
    objectFields invoke { c with frame := members } fields w = .ok () w' →
    ∃ entries, w'.store = w.store.appendAll members entries ∧
      List.Forall₂ TypedDeclaration.Holds tfields entries
  | _, _, _, _, _, [], _, hcheck, _, _, _, hrun => by
    rw [Check.objectFields] at hcheck
    rw [objectFields] at hrun
    cases hcheck
    cases hrun
    exact ⟨[], rfl, .nil⟩
  | _, _, _, w, w', ⟨name, typeName, value⟩ :: rest, helementary, hcheck, hserves, hm, hconforms,
      hrun => by
    obtain ⟨⟨e, rfl, he⟩, helementaryRest⟩ := List.forall_mem_cons.mp helementary
    simp only [Check.objectFields, Check.declaration, Check.optionalExpr, bind_run_eq_ok_iff,
      pure_run_eq_ok_iff] at hcheck
    obtain ⟨_, _, hfree, _, _, ⟨declared, _, hdeclared, _, _, ⟨t, _, hexpr, rfl, rfl⟩, ty, _,
      hbinding, rfl, rfl⟩, _, _, hdefine, trest, _, hcheckRest, rfl, rfl⟩ := hcheck
    obtain ⟨-, hty⟩ := Check.bindingTy_eq_ok hbinding
    simp only [objectFields, declaration, optionalExpr, bind_run_eq_ok_iff,
      pure_run_eq_ok_iff] at hrun
    obtain ⟨_, _, ⟨_, _, hfreeRun, v, w₁, hrunValue, _, _, hdefineRun, rfl, rfl⟩, hrunRest⟩ := hrun
    obtain ⟨hname, rfl⟩ := requireFree_eq_ok hfreeRun
    obtain ⟨-, rfl⟩ := define_eq_ok hdefineRun
    obtain ⟨hconformsValue, hconformsRest⟩ := List.forall_mem_cons.mp hconforms
    obtain ⟨hserve, hservesRest⟩ := List.pairwise_cons.mp hserves
    obtain ⟨hstore, hadmits⟩ := elementary_evaluated e he hexpr hconformsValue hrunValue
    have hadmits' : ty.admits v.kind = true := by
      rcases hty with ⟨-, rfl⟩ | ⟨-, hsub⟩
      · exact hadmits
      · exact Ty.admits_of_subtypeOf hadmits hsub
    have hlookup := Store.lookup_append v hm hname
    obtain ⟨entries, hentries, hholds⟩ := objectFields_typed rest helementaryRest hcheckRest hservesRest
      (by simpa [hstore] using hm) (by
        rintro d hd ⟨read, readTy⟩ hr x hx
        rw [hstore, hlookup] at hx
        split at hx
        · next hread =>
          cases hx
          exact Ty.admits_of_subtypeOf hadmits' (hserve d hd _ hr hread)
        · exact hconformsRest d hd _ hr x hx) hrunRest
    refine ⟨(name, v) :: entries, ?_, .cons ⟨rfl, hadmits'⟩ hholds⟩
    rw [hentries, Store.appendAll_cons, hstore]

/-- What initial values read has the types that are in scope around the object. -/
theorem objectFields_reads {o : FrameId} (hfo : f < o) : ∀ {types types' : Store Ty}
    {tfields : List TypedDeclaration} (fields : List Declaration),
    (∀ d ∈ fields, d.IsElementary) → f < types.size →
    Check.objectFields f o fields types = .ok tfields types' →
    ∀ d ∈ tfields, ∀ r ∈ d.reads, types.lookup f r.1 = some r.2
  | _, _, _, [], _, _, hcheck => by
    rw [Check.objectFields] at hcheck
    cases hcheck
    exact fun d hd => absurd hd List.not_mem_nil
  | types, _, _, ⟨name, typeName, value⟩ :: rest, helementary, hf, hcheck => by
    obtain ⟨⟨e, rfl, he⟩, helementaryRest⟩ := List.forall_mem_cons.mp helementary
    simp only [Check.objectFields, Check.declaration, Check.optionalExpr, bind_run_eq_ok_iff,
      pure_run_eq_ok_iff] at hcheck
    obtain ⟨_, _, hfree, _, _, ⟨declared, _, hdeclared, _, _, ⟨t, _, hexpr, rfl, rfl⟩, ty, _,
      hbinding, rfl, rfl⟩, _, _, hdefine, trest, _, hcheckRest, rfl, rfl⟩ := hcheck
    obtain ⟨-, rfl⟩ := Check.requireFree_eq_ok hfree
    obtain ⟨rfl, -⟩ := Check.declaredTy?_eq_ok hdeclared
    obtain ⟨rfl, hreads⟩ := elementary_checked e he hexpr
    obtain ⟨rfl, -⟩ := Check.bindingTy_eq_ok hbinding
    obtain ⟨-, rfl⟩ := Check.define_eq_ok hdefine
    have hscope (n : String) := (Store.Grows.append id _ o name ty).lookup_eq hf (by
      intro g hg heq
      cases heq
      exact absurd ((Store.le_of_mem_chain _ hg).trans_lt hfo) (lt_irrefl _)) n
    refine List.forall_mem_cons.mpr ⟨hreads, fun d hd r hr => ?_⟩
    rw [← hscope r.1]
    exact objectFields_reads hfo rest helementaryRest (by simpa using hf) hcheckRest d hd r hr

/-- The methods of an object are bound after its fields. -/
theorem objectMethods_store {members : FrameId} {w w' : World} {methods : List Definition}
    (h : objectMethods c members methods w = .ok () w') :
    ∃ entries, w'.store = w.store.appendAll members entries := by
  induction methods generalizing w with
  | nil =>
    cases h
    exact ⟨[], rfl⟩
  | cons d rest ih =>
    simp only [objectMethods, bind_run_eq_ok_iff] at h
    obtain ⟨_, _, hfree, id, _, hclosure, _, _, hdefine, hrest⟩ := h
    obtain ⟨-, rfl⟩ := requireFree_eq_ok hfree
    obtain ⟨rfl, rfl⟩ := newClosure_eq_ok hclosure
    obtain ⟨-, rfl⟩ := define_eq_ok hdefine
    obtain ⟨entries, hentries⟩ := ih hrest
    exact ⟨(d.name, _) :: entries, hentries⟩

end Eval

/-- Fields that are bound one after another are found under their names. -/
theorem TypedDeclaration.Holds.lookup {tfields : List TypedDeclaration}
    {entries : List (String × Value)} (h : List.Forall₂ Holds tfields entries) {d : TypedDeclaration}
    (hd : d ∈ tfields) (hnodup : (tfields.map (·.name)).Nodup) :
    ∃ v, entries.lookup d.name = some v ∧ d.ty.admits v.kind = true := by
  induction h with
  | nil => cases hd
  | @cons d' b rest entries hb _ ih =>
    obtain ⟨hname, hadmits⟩ := hb
    rw [List.map_cons, List.nodup_cons] at hnodup
    rcases List.mem_cons.mp hd with rfl | hd
    · exact ⟨b.2, by rw [← hname]; exact List.lookup_cons_self, hadmits⟩
    · have hne : (d.name == b.1) = false := by
        rw [hname, beq_eq_false_iff_ne]
        exact fun heq => hnodup.1 (heq ▸ List.mem_map_of_mem hd)
      rw [show entries.lookup d.name = (b :: entries).lookup d.name by
        rw [List.lookup_cons, hne]] at ih
      exact ih hd hnodup.2

/-- If an object with elementary fields is accepted where the names in scope conform to their types,
and its fields serve each other, then every field of its value holds a value that the type recorded
for the member admits. -/
theorem fields_conform {invoke : Eval.Invoke} {c : Context} {f o : FrameId} {name : Option String}
    {fields : List Declaration} {methods : List Definition} {tfields : List TypedDeclaration}
    {tmethods : List TypedDefinition} {types types' : Store Ty} {w w' : World} {v : Value}
    (helementary : ∀ d ∈ fields, d.IsElementary) (hf : f < types.size)
    (hc : c.frame < w.store.size)
    (hscope : ∀ n ty x, types.lookup f n = some ty → w.store.lookup c.frame n = some x →
      ty.admits x.kind = true)
    (hcheck : Check.expr f (.object name fields methods) types =
      .ok (.object name tfields tmethods (.object o)) types')
    (hserves : tfields.Pairwise TypedDeclaration.Serves)
    (hrun : Eval.expr invoke c (.object name fields methods) w = .ok v w') :
    ∃ members, v = .object name members ∧ ∀ d ∈ fields, ∃ ty x,
      types'.own? o d.name = some ty ∧ w'.store.own? members d.name = some x ∧
        ty.admits x.kind = true := by
  obtain ⟨_, _, hobject, hmembers⟩ := Check.object_eq_ok hcheck
  cases hobject
  obtain ⟨types₂, hfields⟩ := hmembers.filled
  simp only [Eval.expr, bind_run_eq_ok_iff, pure_run_eq_ok_iff] at hrun
  obtain ⟨_, w₀, htick, members, w₁, hopen, _, w₂, hrunFields, _, w₃, hrunMethods, rfl,
    rfl⟩ := hrun
  have hstore₀ := Eval.tick_eq_ok htick
  rw [Eval.newFrame_run] at hopen
  cases hopen
  have hc₀ : c.frame < w₀.store.size := hstore₀ ▸ hc
  have hm : w₀.store.size < (w₀.opened c.frame).store.size := by simp [World.opened]
  have hreads := Eval.objectFields_reads hf fields helementary (hf.trans (by simp)) hfields
  have hconforms : ∀ d ∈ tfields,
      (w₀.opened c.frame).store.Conforms w₀.store.size d.reads := by
    intro d hd r hr x hx
    have hty := hreads d hd r hr
    rw [(Store.Grows.newFrame id types none).lookup_eq hf (by simp)] at hty
    rw [World.opened, Store.lookup_newFrame hc₀, hstore₀] at hx
    exact hscope r.1 r.2 x hty hx
  obtain ⟨entries, hentries, hholds⟩ :=
    Eval.objectFields_typed fields helementary hfields hserves hm hconforms hrunFields
  obtain ⟨more, hmore⟩ := Eval.objectMethods_store hrunMethods
  have hbindings : w₃.store.bindings w₀.store.size = entries ++ more := by
    rw [hmore, hentries, Store.bindings_appendAll, Store.bindings_appendAll,
      if_pos ⟨rfl, by simpa using hm⟩, if_pos ⟨rfl, hm⟩, World.opened, Store.bindings_newFrame,
      w₀.store.bindings_of_size_le le_rfl, List.nil_append]
  refine ⟨w₀.store.size, rfl, fun d hd => ?_⟩
  obtain ⟨td, htd, hname⟩ : ∃ td ∈ tfields, td.name = d.name :=
    List.mem_map.mp (hmembers.fields_eq ▸ List.mem_map_of_mem hd)
  have hnodup := hmembers.nodup
  rw [← hmembers.fields_eq, ← hmembers.methods_eq, ← memberBindings_names] at hnodup
  have hfieldNodup := (List.nodup_append.mp hmembers.nodup).1
  rw [← hmembers.fields_eq] at hfieldNodup
  obtain ⟨x, hx, hadmits⟩ := TypedDeclaration.Holds.lookup hholds htd hfieldNodup
  refine ⟨td.ty, x, ?_, ?_, hadmits⟩
  · rw [Store.own?, hmembers.bindings_eq, ← hname]
    refine lookup_eq_some_of_mem hnodup (b := (td.name, td.ty)) ?_
    exact List.mem_append_left _ (List.mem_map_of_mem htd)
  · rw [Store.own?, hbindings, List.lookup_append, ← hname, hx, Option.some_or]

/-- A store of one frame, in which one name has a meaning. -/
def Store.single {α : Type} (name : String) (a : α) : Store α :=
  (Store.empty.newFrame none).2.append 0 name a

theorem Store.lookup_single {α : Type} {name name' : String} {a b : α}
    (h : (single name a).lookup 0 name' = some b) : b = a := by
  have hnew : name ∉ ((empty : Store α).newFrame none).2.names 0 := by
    rw [show (0 : FrameId) = (empty : Store α).size from rfl, names_newFrame_size]
    exact List.not_mem_nil
  rw [single, lookup_append a (by simp) hnew] at h
  split at h
  · exact (Option.some.inj h).symm
  · rw [lookup_step, own?, bindings_newFrame, bindings_of_size_le _ (Nat.le_of_eq size_empty)] at h
    cases h

/-- A world with one frame, in which `x` has a value. -/
def World.withX (v : Value) : World := { store := .single "x" v, meters := #[{ limits := {} }] }

/-- The first field has the name of a variable, which it adds one to; the second one doubles it. -/
def counting : List Declaration :=
  [⟨"x", none, some (.binary .add (.variable "x") (.literal (.integer 1)))⟩,
   ⟨"y", some "Comparable", some (.binary .mul (.variable "x") (.literal (.integer 2)))⟩]

theorem fields_conform_counting : ∃ tfields types' v w',
    (∀ d ∈ counting, d.IsElementary) ∧
    Check.expr 0 (.object none counting []) (.single "x" .integer) =
      .ok (.object none tfields [] (.object 1)) types' ∧
    tfields.Pairwise TypedDeclaration.Serves ∧
    Eval.expr (Eval.call 0) ⟨0, 0⟩ (.object none counting []) (.withX (.integer 1)) = .ok v w' ∧
    ∃ members, v = .object none members ∧ ∀ d ∈ counting, ∃ ty x,
      types'.own? 1 d.name = some ty ∧ w'.store.own? members d.name = some x ∧
        ty.admits x.kind = true := by
  have helementary : ∀ d ∈ counting, d.IsElementary := by
    simp [counting, Declaration.IsElementary, Expr.IsElementary]
  have hscope : ∀ n ty x, (Store.single "x" Ty.integer).lookup 0 n = some ty →
      (World.withX (.integer 1)).store.lookup 0 n = some x → ty.admits x.kind = true := by
    intro n ty x hty hx
    rw [Store.lookup_single hty, Store.lookup_single hx]
    rfl
  have hcheck : Check.expr 0 (.object none counting []) (.single "x" .integer) =
      .ok (.object none
        [⟨"x", .integer, some (.binary .add (.variable "x" .integer)
          (.literal (.integer 1) .integer) .integer)⟩,
         ⟨"y", .comparable, some (.binary .mul (.variable "x" .integer)
          (.literal (.integer 2) .integer) .integer)⟩] [] (.object 1))
        (Check.expr 0 (.object none counting []) (.single "x" .integer)).state :=
    EStateM.Result.eq_ok_of_any (fun typed => (TypedExpr.same_iff_eq _ typed rfl).mp)
      (by decide +kernel)
  have hserves : List.Pairwise TypedDeclaration.Serves
      [⟨"x", .integer, some (.binary .add (.variable "x" .integer)
          (.literal (.integer 1) .integer) .integer)⟩,
       ⟨"y", .comparable, some (.binary .mul (.variable "x" .integer)
          (.literal (.integer 2) .integer) .integer)⟩] := by
    simp [TypedDeclaration.Serves, TypedDeclaration.reads, TypedExpr.reads, Ty.subtypeOf]
  have hok : (Eval.expr (Eval.call 0) ⟨0, 0⟩ (.object none counting [])
      (.withX (.integer 1))).isOk = true := by
    decide +kernel
  obtain ⟨v, w', hrun⟩ := EStateM.Result.isOk_iff.mp hok
  exact ⟨_, _, v, w', helementary, hcheck, hserves, hrun,
    fields_conform helementary (by simp [Store.single]) (by simp [World.withX, Store.single]) hscope
      hcheck hserves hrun⟩

/-- The first field hides a text behind a number from the second one. -/
def obscuring : List Declaration :=
  [⟨"x", none, some (.literal (.integer 1))⟩, ⟨"y", none, some (.variable "x")⟩]

/-- A field that hides a variable of another type makes the next field differ from its type. -/
theorem not_fields_conform : (∀ d ∈ obscuring, d.IsElementary) ∧
    (∀ n ty x, (Store.single "x" Ty.string).lookup 0 n = some ty →
      (World.withX (.string "s")).store.lookup 0 n = some x → ty.admits x.kind = true) ∧
    ∃ t types' w',
      Check.expr 0 (.object none obscuring []) (.single "x" .string) = .ok t types' ∧
      Eval.expr (Eval.call 0) ⟨0, 0⟩ (.object none obscuring []) (.withX (.string "s")) =
        .ok (.object none 1) w' ∧
      t.ty = .object 1 ∧ types'.own? 1 "y" = some .string ∧
      (w'.store.own? 1 "y").map Value.kind = some .integer := by
  refine ⟨by simp [obscuring, Declaration.IsElementary, Expr.IsElementary], ?_, ?_⟩
  · intro n ty x hty hx
    rw [Store.lookup_single hty, Store.lookup_single hx]
    rfl
  · have hcheck : Check.expr 0 (.object none obscuring []) (.single "x" .string) =
        .ok (.object none [⟨"x", .integer, some (.literal (.integer 1) .integer)⟩,
          ⟨"y", .string, some (.variable "x" .string)⟩] [] (.object 1))
          (Check.expr 0 (.object none obscuring []) (.single "x" .string)).state :=
      EStateM.Result.eq_ok_of_any (fun typed => (TypedExpr.same_iff_eq _ typed rfl).mp)
        (by decide +kernel)
    have hrun : Eval.expr (Eval.call 0) ⟨0, 0⟩ (.object none obscuring [])
        (.withX (.string "s")) = .ok (.object none 1)
          (Eval.expr (Eval.call 0) ⟨0, 0⟩ (.object none obscuring [])
            (.withX (.string "s"))).state :=
      EStateM.Result.eq_ok_of_value? (by decide +kernel)
    exact ⟨_, _, _, hcheck, hrun, rfl, by decide +kernel, by decide +kernel⟩

end ObjectLang
