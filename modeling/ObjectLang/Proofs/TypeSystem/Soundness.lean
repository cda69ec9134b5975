import ObjectLang.Proofs.Check.Scoping
import ObjectLang.Proofs.TypeSystem.Scopes
import ObjectLang.Proofs.Typed.Erasure

/-!
# What the checker accepts is well-typed

An accepted tree has a derivation, in the scope that the frames show when the checker comes to the
tree. The derivation speaks of the members of objects from the start, whereas the checker finds them
out on its way: the table of members is read off the frames in which the run ends. An object type is
known no sooner than its frame has all its members, except while the frame is that of the program
itself, and from then on the frame stays as it is.
-/

namespace ObjectLang.Check

section

variable {n : Nat} {f members : FrameId} {s t : Store Ty}

/-- The heading of a typed function is its signature. -/
theorem definition_heading {this : Option Ty} : ∀ {d : Definition} {signature : Signature}
    {td : TypedDefinition}, definition f this d signature s = .ok td t →
    td.name = d.name ∧ td.ty = signature.ty
  | ⟨name, parameters, returnType, body⟩, signature, td, h => by
    simp only [definition, bind_run_eq_ok_iff, pure_run_eq_ok_iff] at h
    obtain ⟨frame, _, -, _, _, -, tbody, _, -, rfl, -⟩ := h
    exact ⟨rfl, rfl⟩

/-- The methods bind what was registered for them. -/
theorem methods_heading {this : Ty} : ∀ {s t : Store Ty} {ds : List Definition}
    {signatures : List Signature} {tds : List TypedDefinition},
    objectMethods f this ds signatures s = .ok tds t →
    tds.map (fun d => (d.name, d.ty)) = methodBindings ds signatures
  | s, t, [], signatures, tds, h => by
    rw [objectMethods.eq_def] at h
    cases h
    simp [methodBindings]
  | s, t, _ :: _, [], tds, h => by
    rw [objectMethods.eq_def] at h
    cases h
    simp [methodBindings]
  | s, t, d :: ds, signature :: signatures, tds, h => by
    simp only [objectMethods, bind_run_eq_ok_iff, pure_run_eq_ok_iff] at h
    obtain ⟨td, _, hd, tds, _, hds, rfl, rfl⟩ := h
    obtain ⟨hname, hty⟩ := definition_heading hd
    rw [List.map_cons, methods_heading hds, hname, hty]
    rfl

/-- The frame of members gets what the fields bind. -/
theorem fields_bindings : ∀ {s t : Store Ty} {ds : List Declaration}
    {tds : List TypedDeclaration}, members < s.size → objectFields f members ds s = .ok tds t →
    t.bindings members = s.bindings members ++ tds.map (fun d => (d.name, d.ty))
  | s, t, [], tds, _, h => by
    rw [objectFields] at h
    cases h
    simp
  | s, t, d :: ds, tds, hm, h => by
    simp only [objectFields, bind_run_eq_ok_iff, pure_run_eq_ok_iff, requireFree_run_iff,
      define_run_iff] at h
    obtain ⟨_, _, ⟨-, rfl⟩, td, s₁, hd, _, _, ⟨-, rfl⟩, tds, _, hds, rfl, rfl⟩ := h
    have hg := (confined.declaration f d).grows hd
    have hview := hg.view_eq members hm (by simp)
    have hm₁ := hm.trans_le hg.size_le
    rw [Store.view_id, Store.view_id] at hview
    rw [fields_bindings (by simpa using hm₁) hds, Store.bindings_append, if_pos ⟨rfl, hm₁⟩, hview,
      List.map_cons, List.append_assoc]
    rfl

theorem bind_nil (Γ : Scope) : Γ.bind [] = Γ := by
  cases Γ with
  | nil => rfl
  | cons level rest => simp [Scope.bind]

/-- A statement that binds no name is typed as one. -/
theorem bindings_of_home {st : Stmt} {ts : TypedStmt} (h : stmt f st s = .ok ts t)
    (hhome : st.home f = none) : ts.bindings = [] := by
  have herase := erase_stmt st h
  cases ts with
  | declare d =>
    cases st with
    | declare => cases hhome
    | _ => cases herase
  | define d =>
    cases st with
    | define => cases hhome
    | _ => cases herase
  | _ => rfl

/-- A statement adds to the innermost level what it binds. -/
theorem stmt_scope {st : Stmt} {ts : TypedStmt} (hf : f < s.size) (h : stmt f st s = .ok ts t) :
    t.scope n f = (s.scope n f).bind ts.bindings := by
  have hquiet (hhome : st.home f = none) : t.scope n f = (s.scope n f).bind ts.bindings := by
    have hg := (confined.stmt f st).grows h
    rw [hhome] at hg
    rw [bindings_of_home h hhome, bind_nil, Store.scope_of_grows hg hf (by simp)]
  cases st with
  | declare d =>
    simp only [stmt, bind_run_eq_ok_iff, pure_run_eq_ok_iff, requireFree_run_iff,
      define_run_iff] at h
    obtain ⟨_, _, ⟨-, rfl⟩, td, s₁, hd, _, _, ⟨-, rfl⟩, rfl, rfl⟩ := h
    have hg := (confined.declaration f d).grows hd
    rw [Store.scope_append (hf.trans_le hg.size_le), Store.scope_of_grows hg hf (by simp)]
    rfl
  | define d =>
    simp only [stmt, bind_run_eq_ok_iff, pure_run_eq_ok_iff, requireFree_run_iff,
      define_run_iff, signature_run_iff] at h
    obtain ⟨_, _, ⟨-, rfl⟩, signature, _, ⟨-, rfl⟩, _, _, ⟨-, rfl⟩, td, _, hd, rfl, rfl⟩ := h
    have hg := (confined.definition f none d signature).grows hd
    obtain ⟨hname, hty⟩ := definition_heading hd
    rw [Store.scope_of_grows hg (by simpa using hf) (by simp), Store.scope_append hf, ← hname,
      ← hty]
    rfl
  | branch | forEach | ret | expression | assign => exact hquiet rfl

end

/-! ## Derivations -/

section

variable {Δ : FrameId → List (String × Ty)} {n : Nat} {K : Set FrameId} {s t u : Store Ty}
  {f : FrameId}

/-- What is settled at the end of a run was settled between two of its parts. The second part
changes at most the frame itself and frames that are not known. -/
theorem Settled.between {ids ids' : List FrameId} {g : Option FrameId}
    (hΔ : Settled Δ (known K (ids ++ ids')) u f) (ht : Sees n (known K ids) t f)
    (hg : Store.Grows id g t u) (hgK : ∀ m ∈ g, m ∈ known K ids → m ∈ t.chain f) :
    Settled Δ (known K ids) t f :=
  hΔ.of_grows ht hg (known_append K ids ids' ▸ subset_known _ _) hgK

theorem Settled.rest {ids ids' : List FrameId} (hΔ : Settled Δ (known K (ids ++ ids')) u f) :
    Settled Δ (known (known K ids) ids') u f :=
  known_append K ids ids' ▸ hΔ

theorem sees_expr {e : Expr} {te : TypedExpr} (hs : Sees n K s f) (h : expr f e s = .ok te t) :
    Sees n (known K te.identities) t f ∧ t.scope n f = s.scope n f := by
  have hg := (confined.expr f e).grows h
  exact ⟨hs.introduces hg (introduces_expr e hs.closed h).1,
    Store.scope_of_grows hg hs.lt_size (by simp)⟩

/-- The object that a member is asked for is known. -/
theorem mem_known_of_ty {e : Expr} {te : TypedExpr} {o : FrameId} (hs : Sees n K s f)
    (h : expr f e s = .ok te t) (hty : te.ty = .object o) : o ∈ known K te.identities := by
  have hwithin := (introduces_expr e hs.closed h).2
  rw [hty] at hwithin
  exact hwithin.of_object

/-- A block leaves what is seen around it as it is. -/
theorem sees_block {inner : Store Ty} {body : List Stmt} {typed : List TypedStmt}
    (hs : Sees n K s f) (hinner : inner.Closed K) (hsize : s.size ≤ inner.size)
    (h : AcceptsBlock f s.size s inner t body typed) :
    Sees n (known K (identitiesOfStmts typed)) t f ∧ t.scope n f = s.scope n f := by
  have hintro := introduces_stmts body hinner h.accepts
  exact ⟨hs.introduces h.grows (hintro.after hsize),
    Store.scope_of_grows h.grows hs.lt_size (by simp)⟩

/-- The table is right about an object whose members are all found. -/
theorem members_settled {members : FrameId} {this : Ty} {fields : List Declaration}
    {tfields : List TypedDeclaration} {methods : List Definition} {signatures : List Signature}
    {tmethods : List TypedDefinition} {s₁ s₂ s₃ : Store Ty} (hm : members < s₁.size)
    (hempty : s₁.bindings members = [])
    (hfields : objectFields f members fields s₁ = .ok tfields s₂)
    (hsignatures : registerMethods members methods s₂ = .ok signatures s₃)
    (hmethods : objectMethods f this methods signatures s₃ = .ok tmethods t) :
    t.bindings members = memberBindings tfields tmethods ∧ (t.names members).Nodup := by
  have hm₂ := hm.trans_le ((confined.objectFields f members fields).grows hfields).size_le
  have hm₃ := hm₂.trans_le ((confined.registerMethods members methods).grows hsignatures).size_le
  have hview := ((confined.objectMethods f this methods signatures).grows hmethods).view_eq
    members hm₃ (by simp)
  rw [Store.view_id, Store.view_id] at hview
  have hnames₁ : s₁.names members = [] := by
    rw [Store.names, hempty]
    rfl
  obtain ⟨-, hnodup₂⟩ := fields_names hm (hnames₁ ▸ List.nodup_nil) hfields
  obtain ⟨-, hnodup₃⟩ := methods_names hm₂ hnodup₂ hsignatures
  obtain ⟨-, -, -, rfl⟩ := (registerMethods_run_iff hm₂).mp hsignatures
  rw [Store.bindings_appendAll, if_pos ⟨rfl, hm₂⟩, fields_bindings hm hfields, hempty,
    List.nil_append, ← methods_heading hmethods] at hview
  refine ⟨hview, ?_⟩
  rw [Store.names, hview]
  rw [Store.names, Store.bindings_appendAll, if_pos ⟨rfl, hm₂⟩, fields_bindings hm hfields, hempty,
    List.nil_append, ← methods_heading hmethods] at hnodup₃
  exact hnodup₃

mutual

theorem sound_expr {f : FrameId} : ∀ {K : Set FrameId} {s t : Store Ty} {te : TypedExpr}
    (e : Expr), Sees n K s f → Settled Δ (known K te.identities) t f → expr f e s = .ok te t →
    TypesExpr Δ (s.scope n f) e te
  | K, s, t, te, .literal value, _, _, h => by
    rw [expr] at h
    cases h
    exact .literal value
  | K, s, t, te, .group inner, hs, hΔ, h => by
    simp only [expr, bind_run_eq_ok_iff, pure_run_eq_ok_iff] at h
    obtain ⟨tinner, _, hinner, rfl, rfl⟩ := h
    exact .group (sound_expr inner hs hΔ hinner)
  | K, s, t, te, .binary op left right, hs, hΔ, h => by
    simp only [expr, bind_run_eq_ok_iff, pure_run_eq_ok_iff, result_run_iff,
      Operator.resultTy_eq_ok_iff] at h
    obtain ⟨tleft, s₁, hleft, tright, s₂, hright, ty, _, ⟨hty, rfl⟩, rfl, rfl⟩ := h
    obtain ⟨hs₁, hscope⟩ := sees_expr hs hleft
    have hΔ₁ := hΔ.between hs₁ ((confined.expr f right).grows hright) (by simp)
    have htleft := sound_expr left hs hΔ₁ hleft
    have htright := sound_expr right hs₁ hΔ.rest hright
    rw [hscope] at htright
    exact .binary htleft htright hty
  | K, s, t, te, .variable name, hs, hΔ, h => by
    simp only [expr, bind_run_eq_ok_iff, pure_run_eq_ok_iff, lookup_run_iff] at h
    obtain ⟨ty, _, ⟨hty, rfl⟩, rfl, rfl⟩ := h
    exact .variable (by rwa [Store.scope_lookup])
  | K, s, t, te, .property receiver name, hs, hΔ, h => by
    simp only [expr, bind_run_eq_ok_iff, pure_run_eq_ok_iff, membersOf_run_iff,
      memberTy_run_iff] at h
    obtain ⟨treceiver, s₁, hreceiver, o, _, ⟨hobject, rfl⟩, ty, _, ⟨hty, rfl⟩, rfl, rfl⟩ := h
    obtain ⟨hs₁, hscope⟩ := sees_expr hs hreceiver
    have hmembers := hs₁.members_eq hΔ (mem_known_of_ty hs hreceiver hobject)
    rw [hscope] at hmembers
    exact .property (sound_expr receiver hs hΔ hreceiver) hobject (by rwa [hmembers])
  | K, s, t, te, .call name arguments, hs, hΔ, h => by
    simp only [expr, bind_run_eq_ok_iff, pure_run_eq_ok_iff, lookup_run_iff] at h
    obtain ⟨target, _, ⟨htarget, rfl⟩, x, _, hcallable, targuments, s₁, harguments, rfl, rfl⟩ := h
    obtain ⟨rfl, hlength, rfl⟩ := callable_eq_ok hcallable
    exact .call (by rwa [Store.scope_lookup]) (sound_exprs arguments hlength hs hΔ harguments)
  | K, s, t, te, .method receiver name arguments, hs, hΔ, h => by
    simp only [expr, bind_run_eq_ok_iff, pure_run_eq_ok_iff, membersOf_run_iff,
      memberTy_run_iff] at h
    obtain ⟨treceiver, s₁, hreceiver, o, _, ⟨hobject, rfl⟩, target, _, ⟨htarget, rfl⟩, x, _,
      hcallable, targuments, s₂, harguments, rfl, rfl⟩ := h
    obtain ⟨rfl, hlength, rfl⟩ := callable_eq_ok hcallable
    obtain ⟨hs₁, hscope⟩ := sees_expr hs hreceiver
    have hΔ₁ := hΔ.between hs₁ ((confined.exprs f arguments _).grows harguments) (by simp)
    have hmembers := hs₁.members_eq hΔ₁ (mem_known_of_ty hs hreceiver hobject)
    have htarguments := sound_exprs arguments hlength hs₁ hΔ.rest harguments
    rw [hscope] at hmembers htarguments
    exact .method (sound_expr receiver hs hΔ₁ hreceiver) hobject (by rwa [hmembers]) htarguments
  | K, s, t, te, .object name fields methods, hs, hΔ, h => by
    simp only [expr, bind_run_eq_ok_iff, pure_run_eq_ok_iff, requireUnreserved_run_iff,
      newFrame_run_iff] at h
    obtain ⟨_, _, ⟨hname, rfl⟩, members, _, ⟨rfl, rfl⟩, tfields, s₂, hfields, signatures, s₃,
      hsignatures, tmethods, s₄, hmethods, rfl, rfl⟩ := h
    have hgrows₁ := Store.Grows.newFrame id s none
    have hgrows₂ := (confined.objectFields f s.size fields).grows hfields
    have hgrows₃ := (confined.registerMethods s.size methods).grows hsignatures
    have hgrows₄ := (confined.objectMethods f (.object s.size) methods signatures).grows hmethods
    have hm : s.size < (s.newFrame none).2.size := by simp
    have hyounger := hs.size_not_mem_chain
    have hempty : (s.newFrame none).2.bindings s.size = [] := by
      rw [Store.bindings_newFrame, s.bindings_of_size_le le_rfl]
    have hscope := Store.scope_of_grows hgrows₁ hs.lt_size (n := n) (by simp)
    -- the frame of members becomes known when the methods are registered
    have hs₁ := hs.grows hgrows₁ (hs.closed.newFrame none)
    have hs₁' := (hs.closed.newFrame none).mono (subset_known K [s.size])
    obtain ⟨hintro₃, -⟩ := (introduces_fields fields hs₁' hfields).members hs.closed hsignatures
    have hgrows := hgrows₁.enclosed le_rfl (hgrows₂.trans hgrows₃)
    have hs₃ := hs.introduces hgrows hintro₃
    have hidentities : TypedExpr.identities (.object name tfields tmethods (.object s.size)) =
      ([s.size] ++ identitiesOfFields tfields) ++ identitiesOfMethods tmethods := by
        rw [List.append_assoc]
        rfl
    rw [hidentities] at hΔ
    obtain ⟨htypes, -⟩ := (registerMethods_run_iff (hm.trans_le hgrows₂.size_le)).mp hsignatures
    have hintro₂ := introduces_fields fields hs₁.closed hfields
    have hmK₁ : s.size ∉ K := fun hmem => (hs.known_lt _ hmem).false
    have hmK₂ : s.size ∉ known K (identitiesOfFields tfields) := by
      rintro (hmem | hmem)
      · exact hmK₁ hmem
      · exact absurd (hintro₂.fresh _ hmem).1 (Nat.not_le_of_lt hm)
    have hsubset : known K (identitiesOfFields tfields) ⊆
        known K ([s.size] ++ identitiesOfFields tfields ++ identitiesOfMethods tmethods) := by
      rintro o (ho | ho)
      · exact .inl ho
      · exact .inr (List.mem_append_left _ (List.mem_append_right _ ho))
    have hΔ₂ := hΔ.of_grows (hs₁.introduces hgrows₂ hintro₂) (hgrows₃.trans (hgrows₄.weaken _))
      hsubset fun m hmem hmem' => by
        cases hmem
        exact absurd hmem' hmK₂
    have hchain₁ : s.size ∉ (s.newFrame none).2.chain f := by
      rwa [hgrows₁.chain_eq hs.lt_size]
    have htfields := sound_fields fields hs₁ hm hmK₁ hchain₁ hΔ₂ hfields
    have hthis : s.size ∈ known K ([s.size] ++ identitiesOfFields tfields) :=
      mem_known_of_mem List.mem_cons_self
    have htmethods := sound_methods methods htypes (.object hthis) hs₃ hΔ.rest hmethods
    rw [Store.scope_of_grows hgrows hs.lt_size (by simp)] at htmethods
    rw [hscope] at htfields
    obtain ⟨hmembers, hnodup⟩ := members_settled hm hempty hfields hsignatures hmethods
    have hchain₄ : s.size ∉ s₄.chain f := by
      rwa [hgrows₄.chain_eq hs₃.lt_size, hgrows.chain_eq hs.lt_size]
    have hsettled := hΔ s.size (.inr (by simp)) hchain₄
    refine .object hname htfields htmethods (hsettled.trans hmembers) ?_
    rw [hsettled]
    exact hnodup

theorem sound_exprs {f : FrameId} : ∀ {K : Set FrameId} {s t : Store Ty} {tes : List TypedExpr}
    (es : List Expr) {params : List Ty}, params.length = es.length → Sees n K s f →
    Settled Δ (known K (identitiesOfExprs tes)) t f → exprs f es params s = .ok tes t →
    TypesArguments Δ (s.scope n f) es params tes
  | K, s, t, tes, [], [], _, _, _, h => by
    rw [exprs.eq_def] at h
    cases h
    exact .nil
  | K, s, t, tes, e :: rest, param :: params, hlength, hs, hΔ, h => by
    simp only [exprs, bind_run_eq_ok_iff, pure_run_eq_ok_iff, requireSubtype_run_iff] at h
    obtain ⟨te, s₁, he, _, _, ⟨hbelow, rfl⟩, trest, _, hrest, rfl, rfl⟩ := h
    obtain ⟨hs₁, hscope⟩ := sees_expr hs he
    have hΔ₁ := hΔ.between hs₁ ((confined.exprs f rest params).grows hrest) (by simp)
    have htrest := sound_exprs rest (Nat.succ.inj hlength) hs₁ hΔ.rest hrest
    rw [hscope] at htrest
    exact .cons (sound_expr e hs hΔ₁ he) hbelow htrest

theorem sound_optionalExpr {f : FrameId} : ∀ {K : Set FrameId} {s t : Store Ty}
    {te : Option TypedExpr} (e : Option Expr), Sees n K s f →
    Settled Δ (known K (identitiesOfOption te)) t f → optionalExpr f e s = .ok te t →
    TypesOption Δ (s.scope n f) e te
  | K, s, t, te, none, _, _, h => by
    rw [optionalExpr] at h
    cases h
    exact .none
  | K, s, t, te, some e, hs, hΔ, h => by
    simp only [optionalExpr, bind_run_eq_ok_iff, pure_run_eq_ok_iff] at h
    obtain ⟨te', _, he, rfl, rfl⟩ := h
    exact .some (sound_expr e hs hΔ he)

theorem sound_declaration {f : FrameId} : ∀ {K : Set FrameId} {s t : Store Ty}
    {td : TypedDeclaration} (d : Declaration), Sees n K s f →
    Settled Δ (known K td.identities) t f → declaration f d s = .ok td t →
    TypesDeclaration Δ (s.scope n f) d td
  | K, s, t, td, ⟨name, typeName, value⟩, hs, hΔ, h => by
    simp only [declaration, bind_run_eq_ok_iff, pure_run_eq_ok_iff] at h
    obtain ⟨declared, _, hdeclared, tvalue, s₁, hvalue, ty, _, hty, rfl, rfl⟩ := h
    obtain ⟨-, rfl⟩ := declaredTy?_run_iff.mp hdeclared
    obtain ⟨-, -, rfl⟩ := bindingTy_run_iff.mp hty
    exact .mk (sound_optionalExpr value hs hΔ hvalue)
      (declares_iff.mpr ⟨declared, hdeclared, hty⟩)

theorem sound_fields {f members : FrameId} : ∀ {K : Set FrameId} {s t : Store Ty}
    {tfields : List TypedDeclaration} (fields : List Declaration), Sees n K s f →
    members < s.size → members ∉ K → members ∉ s.chain f →
    Settled Δ (known K (identitiesOfFields tfields)) t f →
    objectFields f members fields s = .ok tfields t → TypesFields Δ (s.scope n f) fields tfields
  | K, s, t, tfields, [], _, _, _, _, _, h => by
    rw [objectFields] at h
    cases h
    exact .nil
  | K, s, t, tfields, d :: rest, hs, hm, hmK, hchain, hΔ, h => by
    simp only [objectFields, bind_run_eq_ok_iff, pure_run_eq_ok_iff, requireFree_run_iff,
      define_run_iff] at h
    obtain ⟨_, _, ⟨-, rfl⟩, td, s₁, hd, _, _, ⟨-, rfl⟩, trest, _, hrest, rfl, rfl⟩ := h
    have hgrows₁ := (confined.declaration f d).grows hd
    obtain ⟨hintro, hwithin⟩ := introduces_declaration d hs.closed hd
    have hs₁ := hs.introduces hgrows₁ hintro
    have hgrows₂ := Store.Grows.append id s₁ members td.name td.ty
    have hs₂ := hs₁.grows hgrows₂ (hintro.closed.append members td.name hwithin)
    have hgrows₃ := (confined.objectFields f members rest).grows hrest
    -- the frame of members is younger than what was known, and older than what is introduced
    have hmK₁ : members ∉ known K td.identities := by
      rintro (hmem | hmem)
      · exact hmK hmem
      · exact absurd (hintro.fresh members hmem).1 (Nat.not_le_of_lt hm)
    have hchain₁ : members ∉ s₁.chain f := by
      rwa [hgrows₁.chain_eq hs.lt_size]
    have hchain₂ : members ∉ (s₁.append members td.name td.ty).chain f := by
      rwa [hgrows₂.chain_eq hs₁.lt_size]
    have hΔ₁ := hΔ.between hs₁ (hgrows₂.trans hgrows₃) fun m hmem hmem' => by
      cases hmem
      exact absurd hmem' hmK₁
    have htd := sound_declaration d hs hΔ₁ hd
    have htrest := sound_fields rest hs₂ (by simpa using hm.trans_le hgrows₁.size_le) hmK₁ hchain₂
      hΔ.rest hrest
    rw [Store.scope_of_grows hgrows₂ hs₁.lt_size (by simpa using hchain₁),
      Store.scope_of_grows hgrows₁ hs.lt_size (by simp)] at htrest
    exact .cons htd htrest

theorem sound_methods {f : FrameId} {this : Ty} : ∀ {K : Set FrameId} {s t : Store Ty}
    {tmethods : List TypedDefinition} (methods : List Definition) {signatures : List Signature},
    List.Forall₂ Signature.Types methods signatures → this.Within K → Sees n K s f →
    Settled Δ (known K (identitiesOfMethods tmethods)) t f →
    objectMethods f this methods signatures s = .ok tmethods t →
    TypesMethods Δ (s.scope n f) this methods tmethods
  | K, s, t, tmethods, [], signatures, _, _, _, _, h => by
    rw [objectMethods.eq_def] at h
    cases h
    exact .nil
  | K, s, t, tmethods, d :: rest, signature :: signatures, .cons htypes hall, hthis, hs, hΔ, h => by
    simp only [objectMethods, bind_run_eq_ok_iff, pure_run_eq_ok_iff] at h
    obtain ⟨td, s₁, hd, trest, _, hrest, rfl, rfl⟩ := h
    have hthis' : ∀ ty ∈ some this, ty.Within K := fun ty hty => by
      cases hty
      exact hthis
    have hgrows₁ := (confined.definition f (some this) d signature).grows hd
    have hgrows₂ := (confined.objectMethods f this rest signatures).grows hrest
    have hs₁ := hs.introduces hgrows₁
      (introduces_definition d hs.closed hthis' htypes.within hd)
    have hΔ₁ := hΔ.between hs₁ hgrows₂ (by simp)
    have htd := sound_definition d htypes hthis' hs hΔ₁ hd
    have htrest := sound_methods rest hall (hthis.mono (subset_known K _)) hs₁ hΔ.rest hrest
    rw [Store.scope_of_grows hgrows₁ hs.lt_size (by simp)] at htrest
    exact .cons htd htrest

theorem sound_definition {f : FrameId} {this : Option Ty} : ∀ {K : Set FrameId} {s t : Store Ty}
    {td : TypedDefinition} (d : Definition) {signature : Signature},
    Signature.Types d signature → (∀ ty ∈ this, ty.Within K) → Sees n K s f →
    Settled Δ (known K td.identities) t f → definition f this d signature s = .ok td t →
    TypesDefinition Δ (s.scope n f) this d td
  | K, s, t, td, ⟨name, parameters, returnType, body⟩, signature, htypes, hthis, hs, hΔ, h => by
    simp only [definition, bind_run_eq_ok_iff, pure_run_eq_ok_iff, newFrame_run_iff] at h
    obtain ⟨frame, _, ⟨rfl, rfl⟩, _, s₁, hdefine, tbody, _, hbody, rfl, rfl⟩ := h
    have hblock := AcceptsBlock.of_newFrame hs.lt_size
      ((confined.defineAll s.size _).grows hdefine) hbody
    obtain ⟨hnodup, -, rfl⟩ := (defineAll_run_iff (by simp)).mp hdefine
    have hs₁ := hs.child.appendAll (htypes.within.bodyBindings hthis)
    have htbody := sound_stmts body hs₁ (hΔ.child hblock.parent_eq') hbody
    rw [Store.scope_child_appendAll hs.lt_size hs.old_le] at htbody
    exact .mk htypes.parameters htypes.returns hnodup htbody

theorem sound_stmt {f : FrameId} : ∀ {K : Set FrameId} {s t : Store Ty} {ts : TypedStmt}
    (st : Stmt), Sees n K s f → Settled Δ (known K ts.identities) t f → stmt f st s = .ok ts t →
    TypesStmt Δ (s.scope n f) st ts
  | K, s, t, ts, .declare d, hs, hΔ, h => by
    simp only [stmt, bind_run_eq_ok_iff, pure_run_eq_ok_iff, requireFree_run_iff,
      define_run_iff] at h
    obtain ⟨_, _, ⟨hname, rfl⟩, td, s₁, hd, _, _, ⟨-, rfl⟩, rfl, rfl⟩ := h
    have hs₁ := hs.introduces ((confined.declaration f d).grows hd)
      (introduces_declaration d hs.closed hd).1
    have hΔ₁ := hΔ.of_grows hs₁ (.append id s₁ f td.name td.ty) (le_refl _) fun m hmem _ => by
      cases hmem
      exact s₁.mem_chain_self f
    exact .declare (by rwa [Store.scope_ownNames]) (sound_declaration d hs hΔ₁ hd)
  | K, s, t, ts, .define d, hs, hΔ, h => by
    simp only [stmt, bind_run_eq_ok_iff, pure_run_eq_ok_iff, requireFree_run_iff,
      define_run_iff, signature_run_iff] at h
    obtain ⟨_, _, ⟨hname, rfl⟩, signature, _, ⟨htypes, rfl⟩, _, _, ⟨-, rfl⟩, td, _, hd, rfl,
      rfl⟩ := h
    have hs₁ := hs.append d.name htypes.within.ty
    have htd := sound_definition d htypes (by simp) hs₁ hΔ hd
    obtain ⟨htdname, htdty⟩ := definition_heading hd
    rw [Store.scope_append hs.lt_size, ← htdname, ← htdty] at htd
    exact .define (by rwa [Store.scope_ownNames]) htd
  | K, s, t, ts, .branch condition thenBody elseBody, hs, hΔ, h => by
    obtain ⟨tcondition, s₁, tthen, s₂, telse, rfl, hcondition, hsub, hblock, hblock'⟩ :=
      branch_eq_ok hs.lt_size h
    obtain ⟨hs₁, hscope₁⟩ := sees_expr hs hcondition
    obtain ⟨hs₂, hscope₂⟩ := sees_block hs₁ (hs₁.closed.newFrame _) (by simp) hblock
    have hΔ₁ := hΔ.between hs₁ (hblock.grows.trans hblock'.grows) (by simp)
    have hΔ₂ := hΔ.rest.between hs₂ hblock'.grows (by simp)
    have htcondition := sound_expr condition hs hΔ₁ hcondition
    have htthen := sound_stmts thenBody hs₁.child (hΔ₂.child hblock.parent_eq') hblock.accepts
    have htelse := sound_stmts elseBody hs₂.child (hΔ.rest.rest.child hblock'.parent_eq')
      hblock'.accepts
    rw [Store.scope_child hs₁.lt_size hs₁.old_le, hscope₁] at htthen
    rw [Store.scope_child hs₂.lt_size hs₂.old_le, hscope₂, hscope₁] at htelse
    exact .branch htcondition (Ty.subtypeOf_iff_below.mp hsub) htthen htelse
  | K, s, t, ts, .forEach name items body, hs, hΔ, h => by
    obtain ⟨titems, s₁, tbody, rfl, hitems, hsub, hblock⟩ := forEach_eq_ok hs.lt_size h
    obtain ⟨hs₁, hscope₁⟩ := sees_expr hs hitems
    have hΔ₁ := hΔ.between hs₁ hblock.grows (by simp)
    have hinteger : Ty.integer.Within (known K titems.identities) := .of_objects rfl _
    have hs₂ := hs₁.child.append name hinteger
    have htbody := sound_stmts body hs₂ (hΔ.rest.child hblock.parent_eq') hblock.accepts
    rw [Store.scope_append (by simp), Store.scope_child hs₁.lt_size hs₁.old_le, hscope₁] at htbody
    exact .forEach (sound_expr items hs hΔ₁ hitems) (Ty.subtypeOf_iff_below.mp hsub) htbody
  | K, s, t, ts, .ret value, hs, hΔ, h => by
    simp only [stmt, bind_run_eq_ok_iff, lookup?_run] at h
    obtain ⟨returns, _, hlookup, h⟩ := h
    cases hlookup
    cases hreturns : s.lookup f returnsName with
    | none =>
      rw [hreturns] at h
      cases h
    | some ty =>
      rw [hreturns] at h
      simp only [bind_run_eq_ok_iff, pure_run_eq_ok_iff, requireSubtype_run_iff] at h
      obtain ⟨tvalue, _, hvalue, _, _, ⟨hbelow, rfl⟩, rfl, rfl⟩ := h
      exact .ret (by rwa [Store.scope_lookup]) (sound_optionalExpr value hs hΔ hvalue) hbelow
  | K, s, t, ts, .expression value, hs, hΔ, h => by
    simp only [stmt, bind_run_eq_ok_iff, pure_run_eq_ok_iff] at h
    obtain ⟨tvalue, _, hvalue, rfl, rfl⟩ := h
    exact .expression (sound_expr value hs hΔ hvalue)
  | K, s, t, ts, .assign (.variable name) value, hs, hΔ, h => by
    simp only [stmt, bind_run_eq_ok_iff, pure_run_eq_ok_iff, lookup_run_iff,
      requireSubtype_run_iff] at h
    obtain ⟨ty, _, ⟨hty, rfl⟩, tvalue, _, hvalue, _, _, ⟨hbelow, rfl⟩, rfl, rfl⟩ := h
    exact .assignVariable (by rwa [Store.scope_lookup]) (sound_expr value hs hΔ hvalue) hbelow
  | K, s, t, ts, .assign (.property receiver name) value, hs, hΔ, h => by
    simp only [stmt, bind_run_eq_ok_iff, pure_run_eq_ok_iff, membersOf_run_iff, memberTy_run_iff,
      requireSubtype_run_iff] at h
    obtain ⟨treceiver, s₁, hreceiver, o, _, ⟨hobject, rfl⟩, ty, _, ⟨hty, rfl⟩, tvalue, _, hvalue, _,
      _, ⟨hbelow, rfl⟩, rfl, rfl⟩ := h
    obtain ⟨hs₁, hscope⟩ := sees_expr hs hreceiver
    have hΔ₁ := hΔ.between hs₁ ((confined.expr f value).grows hvalue) (by simp)
    have hmembers := hs₁.members_eq hΔ₁ (mem_known_of_ty hs hreceiver hobject)
    have htvalue := sound_expr value hs₁ hΔ.rest hvalue
    rw [hscope] at hmembers htvalue
    exact .assignProperty (sound_expr receiver hs hΔ₁ hreceiver) hobject (by rwa [hmembers]) htvalue
      hbelow
  | K, s, t, ts, .assign (.literal _) _, _, _, h | K, s, t, ts, .assign (.group _) _, _, _, h
  | K, s, t, ts, .assign (.binary _ _ _) _, _, _, h | K, s, t, ts, .assign (.call _ _) _, _, _, h
  | K, s, t, ts, .assign (.method _ _ _) _, _, _, h
  | K, s, t, ts, .assign (.object _ _ _) _, _, _, h => by
    rw [stmt.eq_def] at h
    cases h

theorem sound_stmts {f : FrameId} : ∀ {K : Set FrameId} {s t : Store Ty} {tbody : List TypedStmt}
    (body : List Stmt), Sees n K s f → Settled Δ (known K (identitiesOfStmts tbody)) t f →
    stmts f body s = .ok tbody t → TypesStmts Δ (s.scope n f) body tbody
  | K, s, t, tbody, [], _, _, h => by
    rw [stmts] at h
    cases h
    exact .nil
  | K, s, t, tbody, st :: rest, hs, hΔ, h => by
    simp only [stmts, bind_run_eq_ok_iff, pure_run_eq_ok_iff] at h
    obtain ⟨ts, s₁, hst, trest, _, hrest, rfl, rfl⟩ := h
    have hgrows₁ := (confined.of_home (confined.stmt f st)).grows hst
    have hs₁ := hs.introduces hgrows₁ (introduces_stmt st hs.closed hst)
    have hΔ₁ := hΔ.between hs₁ ((confined.stmts f rest).grows hrest) fun m hmem _ => by
      cases hmem
      exact s₁.mem_chain_self f
    have htrest := sound_stmts rest hs₁ hΔ.rest hrest
    rw [stmt_scope hs.lt_size hst] at htrest
    exact .cons (sound_stmt st hs hΔ₁ hst) htrest

end

end

end ObjectLang.Check
