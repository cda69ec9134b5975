import ObjectLang.Proofs.Check.Accepted

/-!
# Accepted programs are well-scoped

What the checker accepts is well-scoped. The checker looks names up in its type frames, so the proof
relates what a type frame shows to the names that are visible where an expression or statement
stands. The type that returns have to fit is kept in type frames under a name of its own, which a
program must not use itself. -/

namespace ObjectLang.Check

/-- What a type frame shows is visible, apart from the type that returns have to fit, which is shown
inside of functions only. -/
structure Admits (s : Store Ty) (f : FrameId) (inFunction : Bool) (visible : List String) :
    Prop where
  lt_size : f < s.size
  mem : ∀ name, (s.lookup f name).isSome → name ≠ returnsName → name ∈ visible
  returns : (s.lookup f returnsName).isSome → inFunction = true

namespace Admits

variable {s t : Store Ty} {f : FrameId} {inFunction : Bool} {visible : List String}

/-- A frame shows the same after names were put into younger frames. -/
theorem grows {g : Option FrameId} (h : Admits s f inFunction visible)
    (hst : Store.Grows id g s t) (hg : ∀ m, g = some m → f < m) :
    Admits t f inFunction visible := by
  have hlookup (name : String) : t.lookup f name = s.lookup f name := by
    refine hst.lookup_eq h.lt_size (fun f' hf' hgf => ?_) name
    exact absurd (s.le_of_mem_chain hf') (Nat.not_le_of_lt (hg f' hgf))
  refine ⟨h.lt_size.trans_le hst.size_le, ?_, ?_⟩
  · intro name hname
    rw [hlookup] at hname
    exact h.mem name hname
  · intro hreturns
    rw [hlookup] at hreturns
    exact h.returns hreturns

theorem inner (h : Admits s f inFunction visible) (hst : Store.Grows id none s t) :
    Admits t f inFunction visible :=
  h.grows hst fun _ hm => by cases hm

/-- A frame shows what it showed before and the names that it has got. -/
theorem own {names visible' : List String} {inFunction' : Bool}
    (h : Admits s f inFunction visible) (hst : Store.Grows id (some f) s t)
    (hnames : t.names f = s.names f ++ names)
    (hvisible : ∀ name, name ∈ names → name ≠ returnsName → name ∈ visible')
    (hsubset : ∀ name ∈ visible, name ∈ visible')
    (hreturns : returnsName ∈ names ∨ inFunction = true → inFunction' = true) :
    Admits t f inFunction' visible' := by
  have hlookup (name : String) (hname : (t.lookup f name).isSome) :
      name ∈ names ∨ (s.lookup f name).isSome := by
    rw [Store.lookup_isSome_step, hnames, hst.parent_eq f h.lt_size] at hname
    rw [s.lookup_isSome_step f name]
    rcases hname with hmem | ⟨p, hp, hlookup⟩
    · rcases List.mem_append.mp hmem with hmem | hmem
      · exact .inr (.inl hmem)
      · exact .inl hmem
    · have hlt := s.parent?_lt hp
      rw [hst.lookup_eq (hlt.trans h.lt_size)] at hlookup
      · exact .inr (.inr ⟨p, hp, hlookup⟩)
      · intro f' hf' heq
        cases heq
        exact absurd (s.le_of_mem_chain hf') (Nat.not_le_of_lt hlt)
  refine ⟨h.lt_size.trans_le hst.size_le, ?_, fun hname => hreturns ?_⟩
  · intro name hname hne
    rcases hlookup name hname with hmem | hsome
    · exact hvisible name hmem hne
    · exact hsubset name (h.mem name hsome hne)
  · exact (hlookup returnsName hname).imp id h.returns

/-- A new frame shows what its parent shows. -/
theorem child (h : Admits s f inFunction visible) :
    Admits (s.newFrame (some f)).2 s.size inFunction visible := by
  have hgrows := Store.Grows.newFrame id s (some f)
  have hlookup (name : String) (hname : ((s.newFrame (some f)).2.lookup s.size name).isSome) :
      (s.lookup f name).isSome := by
    rw [Store.lookup_isSome_step, s.names_newFrame_size, s.parent?_newFrame_size h.lt_size] at hname
    rcases hname with hmem | ⟨p, hp, hsome⟩
    · cases hmem
    · cases hp
      rwa [hgrows.lookup_eq h.lt_size (by simp)] at hsome
  exact ⟨by simp, fun name hname => h.mem name (hlookup name hname),
    fun hname => h.returns (hlookup _ hname)⟩

/-- A frame also shows what a statement binds in it. -/
theorem binds {names : List String} (h : Admits s f inFunction visible)
    (hst : Store.Grows id (some f) s t) (hnames : t.names f = s.names f ++ names)
    (hn : returnsName ∉ names) : Admits t f inFunction (names ++ visible) := by
  refine h.own hst hnames (fun name hmem _ => List.mem_append_left _ hmem)
    (fun name hmem => List.mem_append_right _ hmem) fun hor => ?_
  rcases hor with hmem | hin
  · exact absurd hmem hn
  · exact hin

/-- The frame of a body also shows what a call binds, and returns are allowed there. -/
theorem body {bindings : List String} (h : Admits s f inFunction visible)
    (hst : Store.Grows id (some f) s t)
    (hnames : t.names f = s.names f ++ (bindings ++ [returnsName])) :
    Admits t f true (bindings ++ visible) := by
  refine h.own hst hnames (fun name hmem hne => ?_)
    (fun name hmem => List.mem_append_right _ hmem) fun _ => rfl
  rcases List.mem_append.mp hmem with hmem | hmem
  · exact List.mem_append_left _ hmem
  · exact absurd (List.mem_singleton.mp hmem) hne

end Admits

/-! ## Names of accepted parts -/

section

variable {f members : FrameId} {s t : Store Ty}

theorem names_eq {g : Option FrameId} (h : Store.Grows id g s t) (hf : f < s.size)
    (hg : g ≠ some f) : t.names f = s.names f :=
  h.names.view_eq f hf hg

theorem parameters_names {seen : List String} {ps : List Parameter} {params : List TypedParameter}
    (h : parameters seen ps s = .ok params t) : params.map (·.name) = ps.map (·.name) := by
  induction ps generalizing seen params s with
  | nil =>
    cases h
    rfl
  | cons p rest ih =>
    simp only [parameters, bind_run_eq_ok_iff, pure_run_eq_ok_iff] at h
    obtain ⟨_, s₁, -, ty, s₂, -, params', s₃, hrest, rfl, rfl⟩ := h
    rw [List.map_cons, List.map_cons, ih hrest]

theorem signature_names {d : Definition} {signature : Signature}
    (h : Check.signature d s = .ok signature t) :
    signature.parameters.map (·.name) = d.parameters.map (·.name) := by
  simp only [Check.signature, bind_run_eq_ok_iff, pure_run_eq_ok_iff] at h
  obtain ⟨params, s₁, hparams, returns, s₂, -, rfl, rfl⟩ := h
  exact parameters_names hparams

/-- The frame of a body gets what a call binds, and the type that returns have to fit. -/
theorem bodyBindings_names {this : Option Ty} {signature : Signature} {d : Definition}
    (h : signature.parameters.map (·.name) = d.parameters.map (·.name)) :
    (bodyBindings this signature).map Prod.fst = d.bindings this.isSome ++ [returnsName] := by
  have hparams : (signature.parameters.map fun p => (p.name, p.ty)).map Prod.fst =
      d.parameters.map (·.name) := by
    rw [← h, List.map_map]
    rfl
  cases this with
  | none =>
    simp only [bodyBindings, List.map_append, hparams]
    rfl
  | some ty =>
    simp only [bodyBindings, List.map_append, hparams]
    rfl

theorem declaration_name : ∀ {d : Declaration} {td : TypedDeclaration},
    declaration f d s = .ok td t → td.name = d.name
  | ⟨name, typeName, value⟩, td, h => by
    simp only [declaration, bind_run_eq_ok_iff, pure_run_eq_ok_iff] at h
    obtain ⟨declared, s₁, -, v, s₂, -, ty, s₃, -, rfl, rfl⟩ := h
    rfl

/-- The frame of members gets the names of the fields, which are distinct. -/
theorem fields_names : ∀ {fields : List Declaration} {s t : Store Ty}
    {tfields : List TypedDeclaration}, members < s.size → (s.names members).Nodup →
    objectFields f members fields s = .ok tfields t →
    t.names members = s.names members ++ fields.map (·.name) ∧ (t.names members).Nodup
  | [], s, t, tfields, hm, hnodup, h => by
    rw [objectFields] at h
    cases h
    exact ⟨by simp, hnodup⟩
  | d :: rest, s, t, tfields, hm, hnodup, h => by
    simp only [objectFields, bind_run_eq_ok_iff, pure_run_eq_ok_iff] at h
    obtain ⟨_, s₁, hfree, td, s₂, hd, _, s₃, hdefine, rest', s₄, hrest, rfl, rfl⟩ := h
    obtain ⟨-, rfl⟩ := requireFree_eq_ok hfree
    have hgrows₂ := (confined.declaration f d).grows hd
    have hm₂ := hm.trans_le hgrows₂.size_le
    have hnames₂ := names_eq hgrows₂ hm (by simp)
    obtain ⟨hnames₃, hnodup₃⟩ := names_of_define hm₂ hdefine (hnames₂ ▸ hnodup)
    have hm₃ := hm₂.trans_le ((confined.define members td.name td.ty).grows hdefine).size_le
    obtain ⟨hnames₄, hnodup₄⟩ := fields_names hm₃ hnodup₃ hrest
    refine ⟨?_, hnodup₄⟩
    rw [hnames₄, hnames₃, hnames₂, declaration_name hd]
    simp

/-- Every method has a signature with its parameters, in the order of the methods. -/
theorem registerMethods_parameters {methods : List Definition} {signatures : List Signature}
    (h : registerMethods members methods s = .ok signatures t) :
    signatures.map (·.parameters.map (·.name)) = methods.map (·.parameters.map (·.name)) := by
  induction methods generalizing s signatures with
  | nil =>
    cases h
    rfl
  | cons d rest ih =>
    simp only [registerMethods, bind_run_eq_ok_iff, pure_run_eq_ok_iff] at h
    obtain ⟨_, s₁, -, signature, s₂, hsignature, _, s₃, -, rest', s₄, hrest, rfl, rfl⟩ := h
    rw [List.map_cons, List.map_cons, ih hrest, signature_names hsignature]

/-- The names of methods are bound after those of the fields. -/
theorem methods_names : ∀ {methods : List Definition} {s t : Store Ty}
    {signatures : List Signature}, members < s.size → (s.names members).Nodup →
    registerMethods members methods s = .ok signatures t →
    t.names members = s.names members ++ methods.map (·.name) ∧ (t.names members).Nodup
  | [], s, t, signatures, hm, hnodup, h => by
    cases h
    exact ⟨by simp, hnodup⟩
  | d :: rest, s, t, signatures, hm, hnodup, h => by
    simp only [registerMethods, bind_run_eq_ok_iff, pure_run_eq_ok_iff] at h
    obtain ⟨_, s₁, hfree, signature, s₂, hsignature, _, s₃, hdefine, rest', s₄, hrest, rfl, rfl⟩ :=
      h
    obtain ⟨-, rfl⟩ := requireFree_eq_ok hfree
    have hgrows₂ := (confined.signature d).grows hsignature
    have hm₂ := hm.trans_le hgrows₂.size_le
    have hnames₂ := names_eq hgrows₂ hm (by simp)
    obtain ⟨hnames₃, hnodup₃⟩ := names_of_define hm₂ hdefine (hnames₂ ▸ hnodup)
    have hm₃ := hm₂.trans_le ((confined.define members d.name signature.ty).grows hdefine).size_le
    obtain ⟨hnames₄, hnodup₄⟩ := methods_names hm₃ hnodup₃ hrest
    refine ⟨?_, hnodup₄⟩
    rw [hnames₄, hnames₃, hnames₂]
    simp

/-- An accepted statement has put the names that it binds into its frame. -/
theorem stmt_names (hf : f < s.size) : ∀ {st : Stmt} {ts : TypedStmt},
    stmt f st s = .ok ts t → t.names f = s.names f ++ st.binds := by
  intro st ts h
  have quiet (hhome : st.home f = none) (hbinds : st.binds = []) :
      t.names f = s.names f ++ st.binds := by
    have hconfined := confined.stmt f st
    rw [hhome] at hconfined
    rw [hbinds, List.append_nil, names_eq (hconfined.grows h) hf (by simp)]
  cases st with
  | declare d =>
    simp only [stmt, bind_run_eq_ok_iff, pure_run_eq_ok_iff] at h
    obtain ⟨_, s₁, hfree, td, s₂, hd, _, s₃, hdefine, rfl, rfl⟩ := h
    obtain ⟨-, rfl⟩ := requireFree_eq_ok hfree
    have hgrows₂ := (confined.declaration f d).grows hd
    obtain ⟨-, rfl⟩ := define_eq_ok hdefine
    rw [Store.names_append _ (hf.trans_le hgrows₂.size_le), names_eq hgrows₂ hf (by simp),
      declaration_name hd]
    rfl
  | define d =>
    simp only [stmt, bind_run_eq_ok_iff, pure_run_eq_ok_iff] at h
    obtain ⟨_, s₁, hfree, signature, s₂, hsignature, _, s₃, hdefine, td, s₄, hd, rfl, rfl⟩ := h
    obtain ⟨-, rfl⟩ := requireFree_eq_ok hfree
    have hgrows₂ := (confined.signature d).grows hsignature
    have hf₂ := hf.trans_le hgrows₂.size_le
    have hgrows₄ := (confined.definition f none d signature).grows hd
    obtain ⟨-, rfl⟩ := define_eq_ok hdefine
    rw [names_eq hgrows₄ (by simpa using hf₂) (by simp), Store.names_append _ hf₂,
      names_eq hgrows₂ hf (by simp)]
    rfl
  | _ => exact quiet rfl rfl

end

/-! ## Accepted trees -/

theorem mem_of_lookup {s t : Store Ty} {f : FrameId} {inFunction : Bool} {visible : List String}
    {name : String} {ty : Ty} (hs : Admits s f inFunction visible) (hn : name ≠ returnsName)
    (h : lookup f name s = .ok ty t) : name ∈ visible := by
  obtain ⟨hlookup, -⟩ := lookup_eq_ok h
  exact hs.mem name (by rw [hlookup]; rfl) hn

mutual

theorem scoped_expr {f : FrameId} {inFunction : Bool} {visible : List String} :
    ∀ {s t : Store Ty} {te : TypedExpr} (e : Expr), Admits s f inFunction visible →
    returnsName ∉ e.names → expr f e s = .ok te t → e.Scoped visible
  | s, t, te, .literal _, _, _, _ => trivial
  | s, t, te, .group inner, hs, hn, h => by
    simp only [expr, bind_run_eq_ok_iff, pure_run_eq_ok_iff] at h
    obtain ⟨ti, s₁, hinner, -, -⟩ := h
    exact scoped_expr inner hs hn hinner
  | s, t, te, .binary op left right, hs, hn, h => by
    simp only [Expr.names, List.mem_append, not_or] at hn
    simp only [expr, bind_run_eq_ok_iff, pure_run_eq_ok_iff] at h
    obtain ⟨tl, s₁, hleft, tr, s₂, hright, -⟩ := h
    have hs₁ := hs.inner ((confined.expr f left).grows hleft)
    exact ⟨scoped_expr left hs hn.1 hleft, scoped_expr right hs₁ hn.2 hright⟩
  | s, t, te, .variable name, hs, hn, h => by
    simp only [expr, bind_run_eq_ok_iff, pure_run_eq_ok_iff] at h
    obtain ⟨ty, s₁, hlookup, -, -⟩ := h
    exact mem_of_lookup hs (by simpa [Expr.names, eq_comm] using hn) hlookup
  | s, t, te, .property receiver name, hs, hn, h => by
    simp only [expr, bind_run_eq_ok_iff, pure_run_eq_ok_iff] at h
    obtain ⟨tr, s₁, hreceiver, -⟩ := h
    exact scoped_expr receiver hs hn hreceiver
  | s, t, te, .call name arguments, hs, hn, h => by
    simp only [Expr.names, List.mem_cons, not_or] at hn
    simp only [expr, bind_run_eq_ok_iff, pure_run_eq_ok_iff] at h
    obtain ⟨ty, s₁, hlookup, x, s₂, hcallable, targuments, s₃, harguments, -, -⟩ := h
    have hname := mem_of_lookup hs (Ne.symm hn.1) hlookup
    obtain ⟨-, rfl⟩ := lookup_eq_ok hlookup
    obtain ⟨-, hlength, rfl⟩ := callable_eq_ok hcallable
    exact ⟨hname, scoped_exprs arguments hs hn.2 hlength harguments⟩
  | s, t, te, .method receiver name arguments, hs, hn, h => by
    simp only [Expr.names, List.mem_append, not_or] at hn
    simp only [expr, bind_run_eq_ok_iff, pure_run_eq_ok_iff] at h
    obtain ⟨tr, s₁, hreceiver, members, s₂, hmembers, ty, s₃, hmember, x, s₄, hcallable,
      targuments, s₅, harguments, -, -⟩ := h
    have hs₁ := hs.inner ((confined.expr f receiver).grows hreceiver)
    have hs₂ := hs₁.inner ((confined.membersOf tr.ty).grows hmembers)
    have hs₃ := hs₂.inner ((confined.memberTy members name).grows hmember)
    obtain ⟨-, hlength, rfl⟩ := callable_eq_ok hcallable
    exact ⟨scoped_expr receiver hs hn.1 hreceiver,
      scoped_exprs arguments hs₃ hn.2 hlength harguments⟩
  | s, t, te, .object name fields methods, hs, hn, h => by
    simp only [Expr.names, List.mem_append, not_or] at hn
    simp only [expr, bind_run_eq_ok_iff, pure_run_eq_ok_iff] at h
    obtain ⟨_, s₁, hname, members, s₂, hmembers, tfields, s₃, hfields, signatures, s₄,
      hsignatures, tmethods, s₅, hmethods, -, -⟩ := h
    have hs₁ := hs.inner ((confined.requireUnreserved name).grows hname)
    rw [newFrame_run] at hmembers
    cases hmembers
    have hs₂ := hs₁.inner (.newFrame id s₁ none)
    have hempty := s₁.names_newFrame_size none
    have hyounger : ∀ m, some s₁.size = some m → f < m := fun m hm => by
      cases hm
      exact hs₁.lt_size
    have hm₂ : s₁.size < (s₁.newFrame none).2.size := by simp
    obtain ⟨hnames₃, hnodup₃⟩ := fields_names hm₂ (hempty ▸ List.nodup_nil) hfields
    have hgrows₃ := (confined.objectFields f s₁.size fields).grows hfields
    have hs₃ := hs₂.grows hgrows₃ hyounger
    obtain ⟨hnames₄, hnodup₄⟩ :=
      methods_names (hm₂.trans_le hgrows₃.size_le) hnodup₃ hsignatures
    have hs₄ := hs₃.grows ((confined.registerMethods s₁.size methods).grows hsignatures) hyounger
    rw [hnames₄, hnames₃, hempty, List.nil_append] at hnodup₄
    exact ⟨hnodup₄, scoped_fields fields hs₂ hs₁.lt_size hn.1 hfields,
      scoped_methods methods hs₄ hn.2 (registerMethods_parameters hsignatures) hmethods⟩

theorem scoped_exprs {f : FrameId} {inFunction : Bool} {visible : List String} :
    ∀ {s t : Store Ty} {tes : List TypedExpr} (es : List Expr) {params : List Ty},
    Admits s f inFunction visible → returnsName ∉ namesOfExprs es → params.length = es.length →
    exprs f es params s = .ok tes t → ScopedExprs visible es
  | s, t, tes, [], params, _, _, _, _ => trivial
  | s, t, tes, e :: rest, param :: params, hs, hn, hlength, h => by
    simp only [namesOfExprs, List.mem_append, not_or] at hn
    simp only [exprs, bind_run_eq_ok_iff, pure_run_eq_ok_iff] at h
    obtain ⟨te, s₁, he, _, s₂, hsubtype, trest, s₃, hrest, -, -⟩ := h
    have hs₁ := hs.inner ((confined.expr f e).grows he)
    have hs₂ := hs₁.inner ((confined.requireSubtype te.ty param).grows hsubtype)
    exact ⟨scoped_expr e hs hn.1 he, scoped_exprs rest hs₂ hn.2 (Nat.succ.inj hlength) hrest⟩

theorem scoped_optionalExpr {f : FrameId} {inFunction : Bool} {visible : List String} :
    ∀ {s t : Store Ty} {te : Option TypedExpr} (e : Option Expr), Admits s f inFunction visible →
    returnsName ∉ namesOfOption e → optionalExpr f e s = .ok te t → ScopedOption visible e
  | s, t, te, none, _, _, _ => trivial
  | s, t, te, some e, hs, hn, h => by
    simp only [optionalExpr, bind_run_eq_ok_iff, pure_run_eq_ok_iff] at h
    obtain ⟨te', s₁, he, -, -⟩ := h
    exact scoped_expr e hs hn he

theorem scoped_declaration {f : FrameId} {inFunction : Bool} {visible : List String} :
    ∀ {s t : Store Ty} {td : TypedDeclaration} (d : Declaration), Admits s f inFunction visible →
    returnsName ∉ d.valueNames → declaration f d s = .ok td t → d.Scoped visible
  | s, t, td, ⟨name, typeName, value⟩, hs, hn, h => by
    simp only [declaration, bind_run_eq_ok_iff, pure_run_eq_ok_iff] at h
    obtain ⟨declared, s₁, hdeclared, v, s₂, hvalue, -⟩ := h
    have hs₁ := hs.inner ((confined.declaredTy? typeName).grows hdeclared)
    exact scoped_optionalExpr value hs₁ hn hvalue

theorem scoped_fields {f members : FrameId} {inFunction : Bool} {visible : List String} :
    ∀ {s t : Store Ty} {tfields : List TypedDeclaration} (fields : List Declaration),
    Admits s f inFunction visible → f < members → returnsName ∉ namesOfFields fields →
    objectFields f members fields s = .ok tfields t → ScopedFields visible fields
  | s, t, tfields, [], _, _, _, _ => trivial
  | s, t, tfields, d :: rest, hs, hm, hn, h => by
    simp only [namesOfFields, List.mem_append, not_or] at hn
    simp only [objectFields, bind_run_eq_ok_iff, pure_run_eq_ok_iff] at h
    obtain ⟨_, s₁, hfree, td, s₂, hd, _, s₃, hdefine, trest, s₄, hrest, -, -⟩ := h
    obtain ⟨-, rfl⟩ := requireFree_eq_ok hfree
    have hs₂ := hs.inner ((confined.declaration f d).grows hd)
    have hs₃ := hs₂.grows ((confined.define members td.name td.ty).grows hdefine) fun m hmem => by
      cases hmem
      exact hm
    exact ⟨scoped_declaration d hs hn.1 hd, scoped_fields rest hs₃ hm hn.2 hrest⟩

theorem scoped_methods {f : FrameId} {inFunction : Bool} {visible : List String} {this : Ty} :
    ∀ {s t : Store Ty} {tmethods : List TypedDefinition} (methods : List Definition)
    {signatures : List Signature}, Admits s f inFunction visible →
    returnsName ∉ namesOfDefinitions methods →
    signatures.map (·.parameters.map (·.name)) = methods.map (·.parameters.map (·.name)) →
    objectMethods f this methods signatures s = .ok tmethods t → ScopedMethods visible methods
  | s, t, tmethods, [], signatures, _, _, _, _ => trivial
  | s, t, tmethods, d :: rest, signature :: signatures, hs, hn, hparams, h => by
    simp only [namesOfDefinitions, List.mem_append, not_or] at hn
    obtain ⟨hparam, hparams⟩ := List.cons.inj hparams
    simp only [objectMethods, bind_run_eq_ok_iff, pure_run_eq_ok_iff] at h
    obtain ⟨td, s₁, hd, trest, s₂, hrest, -, -⟩ := h
    have hs₁ := hs.inner ((confined.definition f (some this) d signature).grows hd)
    exact ⟨scoped_definition d hs hn.1 hparam hd,
      scoped_methods rest hs₁ hn.2 hparams hrest⟩

theorem scoped_definition {f : FrameId} {inFunction : Bool} {visible : List String}
    {this : Option Ty} : ∀ {s t : Store Ty} {td : TypedDefinition} (d : Definition)
    {signature : Signature}, Admits s f inFunction visible → returnsName ∉ d.bodyNames →
    signature.parameters.map (·.name) = d.parameters.map (·.name) →
    definition f this d signature s = .ok td t → d.Scoped visible this.isSome
  | s, t, td, ⟨name, parameters, returnType, body⟩, signature, hs, hn, hparams, h => by
    simp only [Definition.bodyNames, List.mem_append, not_or] at hn
    simp only [definition, bind_run_eq_ok_iff, pure_run_eq_ok_iff] at h
    obtain ⟨frame, s₁, hframe, _, s₂, hdefine, tbody, s₃, hbody, -, -⟩ := h
    rw [newFrame_run] at hframe
    cases hframe
    have hs₁ := hs.child
    have hempty := s.names_newFrame_size (some f)
    obtain ⟨hnames, hnodup⟩ := names_of_defineAll hs₁.lt_size hdefine (hempty ▸ List.nodup_nil)
    rw [bodyBindings_names (d := ⟨name, parameters, returnType, body⟩) hparams] at hnames
    have hs₂ := hs₁.body ((confined.defineAll s.size _).grows hdefine) hnames
    rw [hempty, List.nil_append] at hnames
    rw [hnames] at hnodup
    refine ⟨(List.nodup_append.mp hnodup).1, scoped_stmts body hs₂ (fun name hmem => ?_) hn.2 hbody⟩
    rw [hnames]
    exact List.mem_append_left _ hmem

theorem scoped_stmt {f : FrameId} {inFunction : Bool} {visible own : List String} :
    ∀ {s t : Store Ty} {ts : TypedStmt} (st : Stmt), Admits s f inFunction visible →
    (∀ name ∈ own, name ∈ s.names f) → returnsName ∉ st.names → stmt f st s = .ok ts t →
    st.Scoped inFunction visible own
  | s, t, ts, .declare d, hs, hown, hn, h => by
    simp only [Stmt.names, List.mem_cons, not_or] at hn
    simp only [stmt, bind_run_eq_ok_iff, pure_run_eq_ok_iff] at h
    obtain ⟨_, s₁, hfree, td, s₂, hd, -⟩ := h
    obtain ⟨hname, rfl⟩ := requireFree_eq_ok hfree
    exact ⟨fun hmem => hname (hown _ hmem), scoped_declaration d hs hn.2 hd⟩
  | s, t, ts, .define d, hs, hown, hn, h => by
    simp only [Stmt.names, List.mem_cons, not_or] at hn
    simp only [stmt, bind_run_eq_ok_iff, pure_run_eq_ok_iff] at h
    obtain ⟨_, s₁, hfree, signature, s₂, hsignature, _, s₃, hdefine, td, s₄, hd, -, -⟩ := h
    obtain ⟨hname, rfl⟩ := requireFree_eq_ok hfree
    have hs₂ := hs.inner ((confined.signature d).grows hsignature)
    have hgrows₃ := (confined.define f d.name signature.ty).grows hdefine
    obtain ⟨-, rfl⟩ := define_eq_ok hdefine
    have hadded : returnsName ∉ [d.name] := by simpa using hn.1
    have hs₃ := hs₂.binds hgrows₃ (s₂.names_append hs₂.lt_size _ _) hadded
    exact ⟨fun hmem => hname (hown _ hmem),
      scoped_definition d hs₃ hn.2 (signature_names hsignature) hd⟩
  | s, t, ts, .branch condition thenBody elseBody, hs, hown, hn, h => by
    simp only [Stmt.names, List.mem_append, not_or] at hn
    obtain ⟨tc, s₁, tthen, s₂, telse, rfl, hcondition, -, hblock, hblock'⟩ :=
      branch_eq_ok hs.lt_size h
    have hs₁ := hs.inner ((confined.expr f condition).grows hcondition)
    have hs₂ := hs₁.inner hblock.grows
    exact ⟨scoped_expr condition hs hn.1.1 hcondition,
      scoped_stmts thenBody hs₁.child (by simp) hn.1.2 hblock.accepts,
      scoped_stmts elseBody hs₂.child (by simp) hn.2 hblock'.accepts⟩
  | s, t, ts, .forEach name items body, hs, hown, hn, h => by
    simp only [Stmt.names, List.cons_append, List.mem_cons, List.mem_append, not_or] at hn
    obtain ⟨ti, s₁, tbody, rfl, hitems, -, hblock⟩ := forEach_eq_ok hs.lt_size h
    have hs₁ := (hs.inner ((confined.expr f items).grows hitems)).child
    have hnames := (s₁.newFrame (some f)).2.names_append hs₁.lt_size name Ty.integer
    have hgrows := Store.Grows.append id (s₁.newFrame (some f)).2 s₁.size name Ty.integer
    have hadded : returnsName ∉ [name] := by simpa using hn.1
    have hs₂ := hs₁.binds hgrows hnames hadded
    refine ⟨scoped_expr items hs hn.2.1 hitems,
      scoped_stmts body hs₂ (fun n hmem => ?_) hn.2.2 hblock.accepts⟩
    rw [hnames]
    exact List.mem_append_right _ hmem
  | s, t, ts, .ret value, hs, hown, hn, h => by
    simp only [stmt, bind_run_eq_ok_iff] at h
    obtain ⟨returns, s₁, hlookup, h⟩ := h
    cases hlookup
    cases hreturns : s.lookup f returnsName with
    | none =>
      rw [hreturns] at h
      cases h
    | some ty =>
      rw [hreturns] at h
      simp only [bind_run_eq_ok_iff, pure_run_eq_ok_iff] at h
      obtain ⟨tv, s₂, hvalue, -⟩ := h
      exact ⟨hs.returns (by rw [hreturns]; rfl), scoped_optionalExpr value hs hn hvalue⟩
  | s, t, ts, .expression value, hs, hown, hn, h => by
    simp only [stmt, bind_run_eq_ok_iff, pure_run_eq_ok_iff] at h
    obtain ⟨tv, s₁, hvalue, -, -⟩ := h
    exact scoped_expr value hs hn hvalue
  | s, t, ts, .assign (.variable name) value, hs, hown, hn, h => by
    simp only [Stmt.names, Expr.names, List.mem_append, List.mem_singleton, not_or] at hn
    simp only [stmt, bind_run_eq_ok_iff, pure_run_eq_ok_iff] at h
    obtain ⟨ty, s₁, hlookup, tv, s₂, hvalue, -⟩ := h
    have hname := mem_of_lookup hs (Ne.symm hn.1) hlookup
    obtain ⟨-, rfl⟩ := lookup_eq_ok hlookup
    exact ⟨hname, scoped_expr value hs hn.2 hvalue⟩
  | s, t, ts, .assign (.property receiver name) value, hs, hown, hn, h => by
    simp only [Stmt.names, Expr.names, List.mem_append, not_or] at hn
    simp only [stmt, bind_run_eq_ok_iff, pure_run_eq_ok_iff] at h
    obtain ⟨tr, s₁, hreceiver, members, s₂, hmembers, ty, s₃, hmember, tv, s₄, hvalue, -⟩ := h
    have hs₁ := hs.inner ((confined.expr f receiver).grows hreceiver)
    have hs₂ := hs₁.inner ((confined.membersOf tr.ty).grows hmembers)
    have hs₃ := hs₂.inner ((confined.memberTy members name).grows hmember)
    exact ⟨scoped_expr receiver hs hn.1 hreceiver, scoped_expr value hs₃ hn.2 hvalue⟩
  | s, t, ts, .assign (.literal _) _, _, _, _, h | s, t, ts, .assign (.group _) _, _, _, _, h
  | s, t, ts, .assign (.binary _ _ _) _, _, _, _, h | s, t, ts, .assign (.call _ _) _, _, _, _, h
  | s, t, ts, .assign (.method _ _ _) _, _, _, _, h
  | s, t, ts, .assign (.object _ _ _) _, _, _, _, h => by
    rw [stmt.eq_def] at h
    cases h

theorem scoped_stmts {f : FrameId} {inFunction : Bool} {visible own : List String} :
    ∀ {s t : Store Ty} {tbody : List TypedStmt} (body : List Stmt), Admits s f inFunction visible →
    (∀ name ∈ own, name ∈ s.names f) → returnsName ∉ namesOfStmts body →
    stmts f body s = .ok tbody t → ScopedStmts inFunction visible own body
  | s, t, tbody, [], _, _, _, _ => trivial
  | s, t, tbody, st :: rest, hs, hown, hn, h => by
    simp only [namesOfStmts, List.mem_append, not_or] at hn
    simp only [stmts, bind_run_eq_ok_iff, pure_run_eq_ok_iff] at h
    obtain ⟨ts, s₁, hst, trest, s₂, hrest, -, -⟩ := h
    have hnames := stmt_names hs.lt_size hst
    have hgrows := (confined.of_home (confined.stmt f st)).grows hst
    have hs₁ := hs.binds hgrows hnames fun hmem => hn.1 (Stmt.mem_names_of_mem_binds hmem)
    refine ⟨scoped_stmt st hs hown hn.1 hst, scoped_stmts rest hs₁ (fun name hmem => ?_) hn.2 hrest⟩
    rw [hnames]
    rcases List.mem_append.mp hmem with hmem | hmem
    · exact List.mem_append_right _ hmem
    · exact List.mem_append_left _ (hown name hmem)

end

end ObjectLang.Check
