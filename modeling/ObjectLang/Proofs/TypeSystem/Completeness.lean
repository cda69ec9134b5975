import ObjectLang.Proofs.TypeSystem.Realization
import ObjectLang.Proofs.TypeSystem.Soundness

/-!
# What is well-typed is accepted

The checker runs through a tree that has a derivation and makes the typed tree of the derivation,
with the identities of the objects replaced by the numbers of their frames. The numbers come up one
after another, so a run that is part of a larger one is shown to yield its typed tree under every
numbering that agrees with what the run itself has fixed.
-/

namespace ObjectLang.Check

/-- Identities that are all different, and none of which is known yet. -/
def Fresh (D : Set FrameId) (ids : List FrameId) : Prop := ids.Nodup ∧ ∀ o ∈ ids, o ∉ D

namespace Fresh

variable {D : Set FrameId} {ids ids' : List FrameId}

theorem left (h : Fresh D (ids ++ ids')) : Fresh D ids :=
  ⟨(List.nodup_append.mp h.1).1, fun o ho => h.2 o (List.mem_append_left _ ho)⟩

theorem right (h : Fresh D (ids ++ ids')) : Fresh (known D ids) ids' := by
  refine ⟨(List.nodup_append.mp h.1).2.1, fun o ho => ?_⟩
  rintro (hD | hids)
  · exact h.2 o (List.mem_append_right _ ho) hD
  · exact (List.nodup_append.mp h.1).2.2 o hids o ho rfl

theorem swap (h : Fresh D (ids ++ ids')) : Fresh D (ids' ++ ids) := by
  refine ⟨List.perm_append_comm.nodup_iff.mp h.1, fun o ho => h.2 o ?_⟩
  rw [List.mem_append] at ho ⊢
  exact ho.symm

end Fresh

theorem known_swap (D : Set FrameId) (ids ids' : List FrameId) :
    known D (ids' ++ ids) = known D (ids ++ ids') := by
  ext o
  simp only [known, List.mem_append, Set.mem_union, Set.mem_ofPred_eq, or_comm]

variable {n : Nat} {Δ : FrameId → List (String × Ty)}

/-- From the frames `s`, which realize a scope around `f`, the runs `x υ` come to their ends and
then realize the scope `Γ`. They yield the same, which is `typed υ`, for all numberings `υ` of
identities that give the identities `ids` the numbers of their frames. -/
def Succeeds {α : Type} (n : Nat) (Δ : FrameId → List (String × Ty)) (D : Set FrameId)
    (σ : Equiv.Perm FrameId) (x : (FrameId → FrameId) → CheckM α) (s : Store Ty) (f : FrameId)
    (ids : List FrameId) (Γ : Scope) (typed : (FrameId → FrameId) → α) : Prop :=
  ∃ (τ : Equiv.Perm FrameId) (t : Store Ty), Set.EqOn σ τ D ∧
    Realizes n Δ (known D ids) τ Γ t f ∧
    ∀ υ : FrameId → FrameId, Set.EqOn τ υ (known D ids) → x υ s = .ok (typed υ) t

section

variable {D : Set FrameId} {σ τ : Equiv.Perm FrameId} {υ : FrameId → FrameId} {Γ : Scope}
  {s t : Store Ty} {f : FrameId} {ids ids' : List FrameId}

/-- A run that introduces nothing. -/
theorem Succeeds.quiet {α : Type} {x : (FrameId → FrameId) → CheckM α}
    {typed : (FrameId → FrameId) → α} (hr : Realizes n Δ D σ Γ s f)
    (h : ∀ υ, Set.EqOn σ υ D → x υ s = .ok (typed υ) s) :
    Succeeds n Δ D σ x s f [] Γ typed := by
  refine ⟨σ, s, Set.eqOn_refl σ D, ?_⟩
  rw [known_nil]
  exact ⟨hr, h⟩

/-- What a run has fixed stays fixed in the next one. -/
theorem eqOn_first (hτ : Set.EqOn σ τ (known D ids)) (hυ : Set.EqOn τ υ (known D (ids ++ ids'))) :
    Set.EqOn σ υ (known D ids) := by
  rw [known_append] at hυ
  exact hτ.trans (hυ.mono (subset_known _ ids'))

theorem eqOn_rest (hυ : Set.EqOn τ υ (known D (ids ++ ids'))) :
    Set.EqOn τ υ (known (known D ids) ids') :=
  known_append D ids ids' ▸ hυ

theorem eqOn_known (hτ : Set.EqOn σ τ D) (hτ' : Set.EqOn τ υ (known D ids)) : Set.EqOn σ υ D :=
  hτ.trans (hτ'.mono (subset_known D ids))

/-- The frames of known object types after a run. -/
theorem image_known (hτ : Set.EqOn σ τ D) :
    known (σ '' D) (ids.map τ) = τ '' known D ids := by
  ext o
  simp only [known, Set.image_union, hτ.image_eq, Set.mem_union, Set.mem_ofPred_eq, List.mem_map,
    Set.mem_image]

theorem bind_of_bindings {ts : TypedStmt} (h : ts.bindings = []) : Γ.bind ts.bindings = Γ := by
  rw [h, bind_nil]

theorem ok_inj {α : Type} {x : CheckM α} {a b : α} {t' : Store Ty} (h : x s = .ok a t)
    (h' : x s = .ok b t') : a = b := by
  rw [h] at h'
  cases h'
  rfl

/-- The type of an expression is about known object types. -/
theorem within_of_run {e : Expr} {te : TypedExpr} (hr : Realizes n Δ D σ Γ s f)
    (hτ : Set.EqOn σ τ D) (hrun : expr f e s = .ok (te.rename τ) t) :
    te.ty.Within (known D te.identities) := by
  obtain ⟨-, hwithin⟩ := introduces_expr e hr.sees.closed hrun
  rw [TypedExpr.identities_rename, image_known hτ, TypedExpr.ty_rename] at hwithin
  exact hwithin.of_rename τ.injective

theorem within_of_declaration_run {d : Declaration} {td : TypedDeclaration}
    (hr : Realizes n Δ D σ Γ s f) (hτ : Set.EqOn σ τ D)
    (hrun : declaration f d s = .ok (td.rename τ) t) :
    td.ty.Within (known D td.identities) := by
  obtain ⟨-, hwithin⟩ := introduces_declaration d hr.sees.closed hrun
  rw [TypedDeclaration.identities_rename, image_known hτ, TypedDeclaration.ty_rename] at hwithin
  exact hwithin.of_rename τ.injective

theorem mem_of_run {e : Expr} {te : TypedExpr} {o : FrameId} (hr : Realizes n Δ D σ Γ s f)
    (hτ : Set.EqOn σ τ D) (hrun : expr f e s = .ok (te.rename τ) t) (hty : te.ty = .object o) :
    o ∈ known D te.identities := by
  have hwithin := within_of_run hr hτ hrun
  rw [hty] at hwithin
  exact hwithin.of_object

/-- A block leaves the scope around it as it is. -/
theorem leave_block {body : List Stmt} (bs : List (String × Ty)) {bindings : List (String × Ty)}
    {typed : (FrameId → FrameId) → List TypedStmt} (hr : Realizes n Δ D σ Γ s f)
    (h : Succeeds n Δ D σ (fun _ => stmts s.size body)
      ((s.newFrame (some f)).2.appendAll s.size (renameBindings σ bs)) s.size ids
      (Scope.bind (.block bs :: Γ) bindings) typed) :
    ∃ (τ : Equiv.Perm FrameId) (t : Store Ty), Set.EqOn σ τ D ∧
      Realizes n Δ (known D ids) τ Γ t f ∧
      ∀ υ : FrameId → FrameId, Set.EqOn τ υ (known D ids) →
        stmts s.size body ((s.newFrame (some f)).2.appendAll s.size (renameBindings σ bs)) =
          .ok (typed υ) t := by
  obtain ⟨τ, t, hτ, ht, hrun⟩ := h
  have hparent : ((s.newFrame (some f)).2.appendAll s.size (renameBindings σ bs)).parent? s.size =
      some f := by
    rw [Store.parent?_appendAll, s.parent?_newFrame_size hr.sees.lt_size]
  have hgrows := (confined.stmts s.size body).grows (hrun τ (Set.eqOn_refl _ _))
  exact ⟨τ, t, hτ, ht.parent (parent?_of_grows hparent hgrows) hr.sees.old_le, hrun⟩

/-- When the fields of an object have been checked, its methods can be registered, and then the
identity of the object gets the number of its frame. -/
theorem complete_members {o : FrameId} {fields : List Declaration} {methods : List Definition}
    {tfields : List TypedDeclaration} {tmethods : List TypedDefinition} {s₂ : Store Ty}
    (hr : Realizes n Δ D σ Γ s f) (hfields : TypesFields Δ Γ fields tfields)
    (hmethods : TypesMethods Δ Γ (.object o) methods tmethods)
    (hΔ : Δ o = memberBindings tfields tmethods)
    (hnames : (fields.map (·.name) ++ methods.map (·.name)).Nodup)
    (ho : o ∉ known D (identitiesOfFields tfields)) (hτ : Set.EqOn σ τ D)
    (hr₂ : Realizes n Δ (known D (identitiesOfFields tfields)) τ Γ s₂ f)
    (hrun : objectFields f s.size fields (s.newFrame none).2 = .ok (renameFields τ tfields) s₂) :
    ∃ (τ₂ : Equiv.Perm FrameId) (s₃ : Store Ty),
      Set.EqOn τ τ₂ (known D (identitiesOfFields tfields)) ∧ τ₂ o = s.size ∧
      Realizes n Δ (known D ([o] ++ identitiesOfFields tfields)) τ₂ Γ s₃ f ∧
      registerMethods s.size methods s₂ = .ok (tmethods.map signatureOf) s₃ := by
  have hm : s.size < (s.newFrame none).2.size := by simp
  have hclosed := hr.sees.closed.newFrame none
  have hgrows₂ := (confined.objectFields f s.size fields).grows hrun
  have hm₂ := hm.trans_le hgrows₂.size_le
  -- what is introduced for the fields is younger than the frame of members
  have hsD : s.size ∉ τ '' known D (identitiesOfFields tfields) := by
    have hintro := introduces_fields fields hclosed hrun
    rw [identitiesOfFields_rename] at hintro
    rw [← image_known hτ]
    rintro (hmem | hmem)
    · exact (hr.sees.known_lt _ hmem).false
    · exact absurd (hintro.fresh _ hmem).1 (Nat.not_le_of_lt hm)
  have hchain : s.size ∉ s₂.chain f := by
    have hlt : f < (s.newFrame none).2.size := hr.sees.lt_size.trans hm
    rw [hgrows₂.chain_eq hlt, (Store.Grows.newFrame id s none).chain_eq hr.sees.lt_size]
    exact hr.sees.size_not_mem_chain
  have hbindings := fields_bindings hm hrun
  rw [Store.bindings_newFrame, s.bindings_of_size_le le_rfl, List.nil_append,
    fieldBindings_rename] at hbindings
  have hsignatures := hmethods.signatures
  obtain ⟨s₃, hs₃⟩ : ∃ s₃, s₃ =
      s₂.appendAll s.size (methodBindings methods (tmethods.map signatureOf)) := ⟨_, rfl⟩
  have hregister : registerMethods s.size methods s₂ = .ok (tmethods.map signatureOf) s₃ := by
    refine (registerMethods_run_iff hm₂).mpr
      ⟨hsignatures, (List.nodup_append.mp hnames).2.1, fun d hd hmem => ?_, hs₃⟩
    rw [Store.names, hbindings, renameBindings_fst, List.map_map] at hmem
    refine (List.nodup_append.mp hnames).2.2 d.name ?_ d.name (List.mem_map_of_mem hd) rfl
    rwa [← hfields.names_eq]
  have hgrows₃ := (confined.registerMethods s.size methods).grows hregister
  have hwithin := within_methodBindings methods
    (within_of_forall₂ (K := τ '' known D (identitiesOfFields tfields)) hsignatures)
  have hclosed₃ := hs₃ ▸ hr₂.sees.closed.appendAll s.size hwithin
  have hr₃ := hr₂.grows hgrows₃ hclosed₃ fun m hmem => by
    cases hmem
    exact ⟨hsD, hchain⟩
  have hbindings₃ : s₃.bindings s.size = renameBindings τ (Δ o) := by
    rw [hs₃, Store.bindings_appendAll, if_pos ⟨rfl, hm₂⟩, hbindings, hmethods.bindings_eq τ, hΔ,
      memberBindings, renameBindings_append]
  have hwithinΔ : ∀ b ∈ Δ o, b.2.Within (known D (identitiesOfFields tfields)) := by
    refine within_of_renameBindings τ.injective fun b hb => ?_
    rw [← hbindings₃] at hb
    exact hclosed₃ s.size b hb
  have hchain₃ : s.size ∉ s₃.chain f := by
    rwa [hgrows₃.chain_eq hr₂.sees.lt_size]
  obtain ⟨τ₂, hτ₂, ho₂, hr₄⟩ := hr₃.extend ho (hm₂.trans_le hgrows₃.size_le) hsD hchain₃ hwithinΔ
    hbindings₃
  rw [← known_append, known_swap] at hr₄
  exact ⟨τ₂, s₃, hτ₂, ho₂, hr₄, hregister⟩

end

/-! ## Trees -/

mutual

theorem complete_expr {f : FrameId} : ∀ {D : Set FrameId} {σ : Equiv.Perm FrameId} {Γ : Scope}
    {s : Store Ty} {te : TypedExpr} (e : Expr), TypesExpr Δ Γ e te → Realizes n Δ D σ Γ s f →
    Fresh D te.identities →
    Succeeds n Δ D σ (fun _ => expr f e) s f te.identities Γ (te.rename ·)
  | D, σ, Γ, s, te, .literal value, h, hr, _ => by
    cases h with
    | literal =>
      refine .quiet hr fun υ _ => ?_
      simp only [expr, pure_run, TypedExpr.rename, Literal.ty_rename]
  | D, σ, Γ, s, te, .group inner, h, hr, hfresh => by
    cases h with
    | group hinner =>
      obtain ⟨τ, t, hτ, ht, hrun⟩ := complete_expr inner hinner hr hfresh
      refine ⟨τ, t, hτ, ht, fun υ hυ => ?_⟩
      simp only [expr, bind_run_ok (hrun υ hυ), pure_run, TypedExpr.rename]
  | D, σ, Γ, s, te, .binary op left right, h, hr, hfresh => by
    cases h with
    | binary hleft hright hop =>
      obtain ⟨τ₁, s₁, hτ₁, hr₁, hrun₁⟩ := complete_expr left hleft hr hfresh.left
      obtain ⟨τ₂, t, hτ₂, ht, hrun₂⟩ := complete_expr right hright hr₁ hfresh.right
      rw [← known_append] at ht
      refine ⟨τ₂, t, eqOn_known hτ₁ hτ₂, ht, fun υ hυ => ?_⟩
      have hresult := hop.rename υ
      rw [← TypedExpr.ty_rename, ← TypedExpr.ty_rename] at hresult
      simp only [expr, bind_run_eq_ok_iff, pure_run_eq_ok_iff]
      exact ⟨_, s₁, hrun₁ υ (eqOn_first hτ₂ hυ), _, t, hrun₂ υ (eqOn_rest hυ), _, t,
        result_run_iff.mpr ⟨Operator.resultTy_eq_ok_iff.mpr hresult, rfl⟩, rfl, rfl⟩
  | D, σ, Γ, s, te, .variable name, h, hr, _ => by
    cases h with
    | _ hty =>
      refine .quiet hr fun υ hυ => ?_
      simp only [expr, bind_run_eq_ok_iff, pure_run_eq_ok_iff]
      exact ⟨_, s, lookup_run_iff.mpr ⟨hr.lookup hυ hty, rfl⟩, rfl, rfl⟩
  | D, σ, Γ, s, te, .property receiver name, h, hr, hfresh => by
    cases h with
    | property hreceiver hobject hty =>
      obtain ⟨τ, t, hτ, ht, hrun⟩ := complete_expr receiver hreceiver hr hfresh
      refine ⟨τ, t, hτ, ht, fun υ hυ => ?_⟩
      have ho := mem_of_run hr hτ (hrun τ (Set.eqOn_refl _ _)) hobject
      simp only [expr, bind_run_eq_ok_iff, pure_run_eq_ok_iff]
      refine ⟨_, t, hrun υ hυ, _, t, membersOf_run_iff.mpr ⟨?_, rfl⟩, _, t,
        memberTy_run_iff.mpr ⟨ht.member hυ ho hty, rfl⟩, rfl, rfl⟩
      rw [TypedExpr.ty_rename, hobject, Ty.rename]
  | D, σ, Γ, s, te, .call name arguments, h, hr, hfresh => by
    cases h with
    | call htarget harguments =>
      obtain ⟨τ, t, hτ, ht, hrun⟩ := complete_exprs arguments harguments hr hfresh
      refine ⟨τ, t, hτ, ht, fun υ hυ => ?_⟩
      have hlookup := hr.lookup (eqOn_known hτ hυ) htarget
      have hlength := harguments.length_eq
      simp only [expr, bind_run_eq_ok_iff, pure_run_eq_ok_iff]
      exact ⟨_, s, lookup_run_iff.mpr ⟨hlookup, rfl⟩, (_, _), s,
        callable_run_iff.mpr ⟨rfl, by rw [Ty.length_renameAll, hlength], rfl⟩, _, t, hrun υ hυ,
        rfl, rfl⟩
  | D, σ, Γ, s, te, .method receiver name arguments, h, hr, hfresh => by
    cases h with
    | method hreceiver hobject htarget harguments =>
      obtain ⟨τ₁, s₁, hτ₁, hr₁, hrun₁⟩ := complete_expr receiver hreceiver hr hfresh.left
      obtain ⟨τ₂, t, hτ₂, ht, hrun₂⟩ := complete_exprs arguments harguments hr₁ hfresh.right
      rw [← known_append] at ht
      refine ⟨τ₂, t, eqOn_known hτ₁ hτ₂, ht, fun υ hυ => ?_⟩
      have ho := mem_of_run hr hτ₁ (hrun₁ τ₁ (Set.eqOn_refl _ _)) hobject
      have hmember := hr₁.member (eqOn_first hτ₂ hυ) ho htarget
      have hlength := harguments.length_eq
      simp only [expr, bind_run_eq_ok_iff, pure_run_eq_ok_iff]
      refine ⟨_, s₁, hrun₁ υ (eqOn_first hτ₂ hυ), _, s₁, membersOf_run_iff.mpr ⟨?_, rfl⟩, _, s₁,
        memberTy_run_iff.mpr ⟨hmember, rfl⟩, (_, _), s₁,
        callable_run_iff.mpr ⟨rfl, by rw [Ty.length_renameAll, hlength], rfl⟩, _, t,
        hrun₂ υ (eqOn_rest hυ), rfl, rfl⟩
      rw [TypedExpr.ty_rename, hobject, Ty.rename]
  | D, σ, Γ, s, te, .object name fields methods, h, hr, hfresh => by
    cases h with
    | @object _ _ o _ _ tfields tmethods hname hfields hmethods hΔ hnodup =>
      have hfresh' :
          Fresh D (([o] ++ identitiesOfFields tfields) ++ identitiesOfMethods tmethods) := by
        rw [List.append_assoc]
        exact hfresh
      have hnames := hfields.names_nodup hmethods (hΔ ▸ hnodup)
      have hgrows₁ := Store.Grows.newFrame id s none
      have hr₁ := hr.grows hgrows₁ (hr.sees.closed.newFrame none) (by simp)
      have hchain₁ : s.size ∉ (s.newFrame none).2.chain f := by
        rw [hgrows₁.chain_eq hr.sees.lt_size]
        exact hr.sees.size_not_mem_chain
      have hsD : s.size ∉ σ '' D := fun hmem => (hr.sees.known_lt _ hmem).false
      obtain ⟨τ₁, s₂, hτ₁, hr₂, hrun₂⟩ := complete_fields fields hfields hr₁ (by simp) hsD hchain₁
        (by rw [s.names_newFrame_size]; simpa using (List.nodup_append.mp hnames).1)
        hfresh'.left.swap.left
      have hunknown : o ∉ known D (identitiesOfFields tfields) :=
        hfresh'.left.swap.right.2 o List.mem_cons_self
      obtain ⟨τ₂, s₃, hτ₂, ho, hr₃, hregister⟩ := complete_members hr hfields hmethods hΔ hnames
        hunknown hτ₁ hr₂ (hrun₂ τ₁ (Set.eqOn_refl _ _))
      have hthis : (Ty.object o).Within (known D ([o] ++ identitiesOfFields tfields)) :=
        .object (mem_known_of_mem List.mem_cons_self)
      obtain ⟨τ₃, t, hτ₃, ht, hrun₄⟩ := complete_methods methods hmethods hr₃ hthis hfresh'.right
      have hidentities : TypedExpr.identities (.object name tfields tmethods (.object o)) =
          ([o] ++ identitiesOfFields tfields) ++ identitiesOfMethods tmethods := by
        rw [List.append_assoc]
        rfl
      have hsubset : known D (identitiesOfFields tfields) ⊆
          known D ([o] ++ identitiesOfFields tfields) := by
        rw [known_swap, known_append]
        exact subset_known _ _
      rw [Succeeds, hidentities]
      rw [← known_append] at ht
      refine ⟨τ₃, t, eqOn_known hτ₁ (hτ₂.trans (hτ₃.mono hsubset)), ht, fun υ hυ => ?_⟩
      have hυ₁ := eqOn_first hτ₃ hυ
      have hυ₂ := hτ₂.trans (hυ₁.mono hsubset)
      have hυo : υ o = s.size := by
        rw [← hυ₁ hthis.of_object, ho]
      have hrunυ := hrun₄ υ (eqOn_rest hυ)
      dsimp only [Ty.rename] at hrunυ
      rw [hυo] at hrunυ
      simp only [expr, bind_run_eq_ok_iff, pure_run_eq_ok_iff]
      refine ⟨(), s, requireUnreserved_run_iff.mpr ⟨hname, rfl⟩, s.size, _, newFrame_run none s,
        _, s₂, hrun₂ υ hυ₂, _, s₃, hregister, _, t, hrunυ, ?_, rfl⟩
      rw [TypedExpr.rename, Ty.rename, hυo]

/-- Arguments are checked against the types of parameters with the numbers of frames. -/
theorem complete_exprs {f : FrameId} : ∀ {D : Set FrameId} {σ : Equiv.Perm FrameId} {Γ : Scope}
    {s : Store Ty} {tes : List TypedExpr} (es : List Expr) {params : List Ty},
    TypesArguments Δ Γ es params tes → Realizes n Δ D σ Γ s f →
    Fresh D (identitiesOfExprs tes) →
    Succeeds n Δ D σ (fun υ => exprs f es (Ty.renameAll υ params)) s f (identitiesOfExprs tes) Γ
      (renameExprs · tes)
  | D, σ, Γ, s, tes, [], params, h, hr, _ => by
    cases h with
    | nil =>
      refine .quiet hr fun υ _ => ?_
      rw [exprs.eq_def]
      rfl
  | D, σ, Γ, s, tes, e :: rest, params, h, hr, hfresh => by
    cases h with
    | cons he hbelow hrest =>
      obtain ⟨τ₁, s₁, hτ₁, hr₁, hrun₁⟩ := complete_expr e he hr hfresh.left
      obtain ⟨τ₂, t, hτ₂, ht, hrun₂⟩ := complete_exprs rest hrest hr₁ hfresh.right
      rw [← known_append] at ht
      refine ⟨τ₂, t, eqOn_known hτ₁ hτ₂, ht, fun υ hυ => ?_⟩
      have hbelow' := hbelow.rename υ
      rw [← TypedExpr.ty_rename] at hbelow'
      simp only [Ty.renameAll, exprs, bind_run_eq_ok_iff, pure_run_eq_ok_iff]
      exact ⟨_, s₁, hrun₁ υ (eqOn_first hτ₂ hυ), (), s₁,
        requireSubtype_run_iff.mpr ⟨hbelow', rfl⟩, _, t, hrun₂ υ (eqOn_rest hυ), rfl, rfl⟩

theorem complete_optionalExpr {f : FrameId} : ∀ {D : Set FrameId} {σ : Equiv.Perm FrameId}
    {Γ : Scope} {s : Store Ty} {te : Option TypedExpr} (e : Option Expr), TypesOption Δ Γ e te →
    Realizes n Δ D σ Γ s f → Fresh D (identitiesOfOption te) →
    Succeeds n Δ D σ (fun _ => optionalExpr f e) s f (identitiesOfOption te) Γ (renameOption · te)
  | D, σ, Γ, s, te, none, h, hr, _ => by
    cases h with
    | none =>
      refine .quiet hr fun υ _ => ?_
      rw [optionalExpr]
      rfl
  | D, σ, Γ, s, te, some e, h, hr, hfresh => by
    cases h with
    | some he =>
      obtain ⟨τ, t, hτ, ht, hrun⟩ := complete_expr e he hr hfresh
      refine ⟨τ, t, hτ, ht, fun υ hυ => ?_⟩
      simp only [optionalExpr, bind_run_ok (hrun υ hυ), pure_run, renameOption]

theorem complete_declaration {f : FrameId} : ∀ {D : Set FrameId} {σ : Equiv.Perm FrameId}
    {Γ : Scope} {s : Store Ty} {td : TypedDeclaration} (d : Declaration),
    TypesDeclaration Δ Γ d td → Realizes n Δ D σ Γ s f → Fresh D td.identities →
    Succeeds n Δ D σ (fun _ => declaration f d) s f td.identities Γ (td.rename ·)
  | D, σ, Γ, s, td, ⟨name, typeName, value⟩, h, hr, hfresh => by
    cases h with
    | mk hvalue hdeclares =>
      obtain ⟨τ, t, hτ, ht, hrun⟩ := complete_optionalExpr value hvalue hr hfresh
      refine ⟨τ, t, hτ, ht, fun υ hυ => ?_⟩
      obtain ⟨declared, hdeclared, hty⟩ := declares_iff.mp (hdeclares.rename υ)
      simp only [declaration, bind_run_eq_ok_iff, pure_run_eq_ok_iff]
      exact ⟨declared, s, hdeclared, _, t, hrun υ hυ, _, t, hty, rfl, rfl⟩

/-- The fields are checked in the scope around the object and bound in its frame of members. -/
theorem complete_fields {f members : FrameId} : ∀ {D : Set FrameId} {σ : Equiv.Perm FrameId}
    {Γ : Scope} {s : Store Ty} {tfields : List TypedDeclaration} (fields : List Declaration),
    TypesFields Δ Γ fields tfields → Realizes n Δ D σ Γ s f → members < s.size →
    members ∉ σ '' D → members ∉ s.chain f →
    (s.names members ++ fields.map (·.name)).Nodup → Fresh D (identitiesOfFields tfields) →
    Succeeds n Δ D σ (fun _ => objectFields f members fields) s f (identitiesOfFields tfields) Γ
      (renameFields · tfields)
  | D, σ, Γ, s, tfields, [], h, hr, _, _, _, _, _ => by
    cases h with
    | nil =>
      refine .quiet hr fun υ _ => ?_
      rw [objectFields]
      rfl
  | D, σ, Γ, s, tfields, d :: rest, h, hr, hm, hmD, hchain, hnodup, hfresh => by
    cases h with
    | @cons _ _ td _ trest hd hrest =>
      obtain ⟨τ₁, s₁, hτ₁, hr₁, hrun₁⟩ := complete_declaration d hd hr hfresh.left
      have hrun := hrun₁ τ₁ (Set.eqOn_refl _ _)
      have hgrows₁ := (confined.declaration f d).grows hrun
      obtain ⟨hintro, hwithin⟩ := introduces_declaration d hr.sees.closed hrun
      have hm₁ := hm.trans_le hgrows₁.size_le
      have hnames₁ := names_eq hgrows₁ hm (by simp)
      rw [TypedDeclaration.identities_rename] at hintro hwithin
      have hmD₁ : members ∉ τ₁ '' known D td.identities := by
        rw [← image_known hτ₁]
        rintro (hmem | hmem)
        · exact hmD hmem
        · exact absurd (hintro.fresh members hmem).1 (Nat.not_le_of_lt hm)
      rw [image_known hτ₁] at hwithin
      have hchain₁ : members ∉ s₁.chain f := by
        rwa [hgrows₁.chain_eq hr.sees.lt_size]
      have hgrows₂ := Store.Grows.append id s₁ members d.name (td.rename τ₁).ty
      have hr₂ := hr₁.grows hgrows₂ (hr₁.sees.closed.append members d.name hwithin)
        fun m hmem => by
          cases hmem
          exact ⟨hmD₁, hchain₁⟩
      have hnames₂ := s₁.names_append hm₁ d.name (td.rename τ₁).ty
      have hchain₂ : members ∉ (s₁.append members d.name (td.rename τ₁).ty).chain f := by
        rwa [hgrows₂.chain_eq hr₁.sees.lt_size]
      obtain ⟨τ₂, t, hτ₂, ht, hrun₂⟩ := complete_fields rest hrest hr₂ (by simpa using hm₁) hmD₁
        hchain₂ (by rw [hnames₂, hnames₁]; simpa using hnodup) hfresh.right
      rw [← known_append] at ht
      refine ⟨τ₂, t, eqOn_known hτ₁ hτ₂, ht, fun υ hυ => ?_⟩
      have hυ₁ := eqOn_first hτ₂ hυ
      have hsame := ok_inj (hrun₁ υ hυ₁) hrun
      have hname : d.name ∉ s.names members := fun hmem =>
        (List.nodup_append.mp hnodup).2.2 _ hmem _ List.mem_cons_self rfl
      simp only [objectFields, bind_run_eq_ok_iff, pure_run_eq_ok_iff]
      refine ⟨(), s, requireFree_run_iff.mpr ⟨hname, rfl⟩, _, s₁, hrun₁ υ hυ₁, (), _,
        define_run_iff.mpr ⟨?_, rfl⟩, renameFields υ trest, t, ?_, rfl, rfl⟩
      · rwa [hsame, declaration_name hrun, hnames₁]
      · rw [hsame, declaration_name hrun]
        exact hrun₂ υ (eqOn_rest hυ)

theorem complete_methods {f : FrameId} : ∀ {this : Ty} {D : Set FrameId}
    {σ : Equiv.Perm FrameId} {Γ : Scope} {s : Store Ty} {tmethods : List TypedDefinition}
    (methods : List Definition),
    TypesMethods Δ Γ this methods tmethods → Realizes n Δ D σ Γ s f → this.Within D →
    Fresh D (identitiesOfMethods tmethods) →
    Succeeds n Δ D σ
      (fun υ => objectMethods f (this.rename υ) methods (tmethods.map signatureOf)) s f
      (identitiesOfMethods tmethods) Γ (renameMethods · tmethods)
  | this, D, σ, Γ, s, tmethods, [], h, hr, _, _ => by
    cases h with
    | nil =>
      refine .quiet hr fun υ _ => ?_
      rw [objectMethods.eq_def]
      rfl
  | this, D, σ, Γ, s, tmethods, d :: rest, h, hr, hthis, hfresh => by
    cases h with
    | cons hd hrest =>
      have hthis' : ∀ ty ∈ some this, ty.Within D := fun ty hty => by
        cases hty
        exact hthis
      obtain ⟨τ₁, s₁, hτ₁, hr₁, hrun₁⟩ := complete_definition d hd hr hthis' hfresh.left
      obtain ⟨τ₂, t, hτ₂, ht, hrun₂⟩ := complete_methods rest hrest hr₁
        (hthis.mono (subset_known D _)) hfresh.right
      rw [← known_append] at ht
      refine ⟨τ₂, t, eqOn_known hτ₁ hτ₂, ht, fun υ hυ => ?_⟩
      simp only [List.map_cons, objectMethods, bind_run_eq_ok_iff, pure_run_eq_ok_iff]
      exact ⟨_, s₁, hrun₁ υ (eqOn_first hτ₂ hυ), _, t, hrun₂ υ (eqOn_rest hυ), rfl, rfl⟩

theorem complete_definition {f : FrameId} : ∀ {this : Option Ty} {D : Set FrameId}
    {σ : Equiv.Perm FrameId} {Γ : Scope} {s : Store Ty} {td : TypedDefinition} (d : Definition),
    TypesDefinition Δ Γ this d td → Realizes n Δ D σ Γ s f → (∀ ty ∈ this, ty.Within D) →
    Fresh D td.identities →
    Succeeds n Δ D σ (fun υ => definition f (this.map (Ty.rename υ)) d (signatureOf td)) s f
      td.identities Γ (td.rename ·)
  | this, D, σ, Γ, s, td, ⟨name, parameters, returnType, body⟩, h, hr, hthis, hfresh => by
    have htypes := h.signature.1
    cases h with
    | @mk _ _ _ _ _ _ tparameters returns tbody hparameters hreturns hnodup hbody =>
      have hbindings : ∀ b ∈ bodyBindings this ⟨tparameters, returns⟩, b.2.Within D :=
        htypes.within.bodyBindings hthis
      have hsignature : signatureOf ⟨name, tparameters, returns, tbody⟩ = ⟨tparameters, returns⟩ :=
        rfl
      have hr₁ := hr.child.appendAll hbindings
      obtain ⟨bindings, hsucceeds⟩ := complete_stmts body hbody hr₁ hfresh
      obtain ⟨τ, t, hτ, ht, hrun⟩ := leave_block _ hr hsucceeds
      refine ⟨τ, t, hτ, ht, fun υ hυ => ?_⟩
      have heq : renameBindings σ (bodyBindings this ⟨tparameters, returns⟩) =
          bodyBindings (this.map (Ty.rename υ)) ⟨tparameters, returns⟩ := by
        rw [renameBindings_congr hbindings (eqOn_known hτ hυ)]
        exact htypes.bodyBindings_rename this υ
      have hnames := s.names_newFrame_size (some f)
      simp only [definition, bind_run_eq_ok_iff, pure_run_eq_ok_iff]
      refine ⟨s.size, _, newFrame_run _ s, (), _, (defineAll_run_iff (by simp)).mpr
        ⟨?_, by simp [hnames], rfl⟩, renameStmts υ tbody, t, ?_, ?_, rfl⟩
      · rw [hsignature, ← heq, renameBindings_fst]
        exact hnodup
      · rw [hsignature, ← heq]
        exact hrun υ hυ
      · simp only [TypedDefinition.rename, signatureOf, parameters_rename hparameters,
          hreturns.rename_eq]

theorem complete_stmt {f : FrameId} : ∀ {D : Set FrameId} {σ : Equiv.Perm FrameId} {Γ : Scope}
    {s : Store Ty} {ts : TypedStmt} (st : Stmt), TypesStmt Δ Γ st ts → Realizes n Δ D σ Γ s f →
    Fresh D ts.identities →
    Succeeds n Δ D σ (fun _ => stmt f st) s f ts.identities (Γ.bind ts.bindings) (ts.rename ·)
  | D, σ, Γ, s, ts, .declare d, h, hr, hfresh => by
    cases h with
    | @declare _ _ td hname hd =>
      obtain ⟨τ, s₁, hτ, hr₁, hrun⟩ := complete_declaration d hd hr hfresh
      have hrunτ := hrun τ (Set.eqOn_refl _ _)
      have hwithin := within_of_declaration_run hr hτ hrunτ
      have hnames₁ := names_eq ((confined.declaration f d).grows hrunτ) hr.sees.lt_size (by simp)
      refine ⟨τ, _, hτ, hr₁.append td.name hwithin, fun υ hυ => ?_⟩
      have hdname : td.name = d.name := by
        rw [← declaration_name hrunτ, TypedDeclaration.name_rename]
      rw [← hr.names_eq] at hname
      simp only [stmt, bind_run_eq_ok_iff, pure_run_eq_ok_iff]
      refine ⟨(), s, requireFree_run_iff.mpr ⟨hname, rfl⟩, _, s₁, hrun υ hυ, (), _,
        define_run_iff.mpr ⟨?_, ?_⟩, rfl, rfl⟩
      · rwa [TypedDeclaration.name_rename, hdname, hnames₁]
      · rw [TypedDeclaration.name_rename, TypedDeclaration.ty_rename, hwithin.rename_eq hυ]
  | D, σ, Γ, s, ts, .define d, h, hr, hfresh => by
    cases h with
    | @define _ _ td hname hd =>
      obtain ⟨htypes, hdname⟩ := hd.signature
      have hr₁ := hr.append td.name htypes.within.ty
      obtain ⟨τ, t, hτ, ht, hrun⟩ := complete_definition d hd hr₁ (by simp) hfresh
      refine ⟨τ, t, hτ, ht, fun υ hυ => ?_⟩
      rw [← hr.names_eq] at hname
      simp only [stmt, bind_run_eq_ok_iff, pure_run_eq_ok_iff]
      refine ⟨(), s, requireFree_run_iff.mpr ⟨hname, rfl⟩, signatureOf td, s,
        signature_run_iff.mpr ⟨htypes, rfl⟩, (), _, define_run_iff.mpr ⟨hname, rfl⟩, _, t, ?_, rfl,
        rfl⟩
      have hrunυ := hrun υ hυ
      rwa [htypes.ty_rename, hdname] at hrunυ
  | D, σ, Γ, s, ts, .branch condition thenBody elseBody, h, hr, hfresh => by
    cases h with
    | branch hcondition hbelow hthen helse =>
      obtain ⟨τ₁, s₁, hτ₁, hr₁, hrun₁⟩ := complete_expr condition hcondition hr hfresh.left
      obtain ⟨bindings₂, hsucceeds₂⟩ := complete_stmts thenBody hthen hr₁.child hfresh.right.left
      obtain ⟨τ₂, s₂, hτ₂, hr₂, hrun₂⟩ := leave_block _ hr₁ hsucceeds₂
      obtain ⟨bindings₃, hsucceeds₃⟩ := complete_stmts elseBody helse hr₂.child hfresh.right.right
      obtain ⟨τ₃, t, hτ₃, ht, hrun₃⟩ := leave_block _ hr₂ hsucceeds₃
      rw [← known_append, ← known_append] at ht
      refine ⟨τ₃, t, eqOn_known hτ₁ (eqOn_known hτ₂ hτ₃), by rwa [bind_of_bindings rfl],
        fun υ hυ => ?_⟩
      have hυ₃ := eqOn_rest (eqOn_rest hυ)
      have hυ₂ := eqOn_first hτ₃ (eqOn_rest hυ)
      have hυ₁ := eqOn_known hτ₂ hυ₂
      have hbelow' := hbelow.rename υ
      rw [← TypedExpr.ty_rename] at hbelow'
      simp only [stmt, bind_run_eq_ok_iff, pure_run_eq_ok_iff]
      exact ⟨_, s₁, hrun₁ υ hυ₁, (), s₁, requireSubtype_run_iff.mpr ⟨hbelow', rfl⟩, _, _,
        newFrame_run _ s₁, _, s₂, hrun₂ υ hυ₂, _, _, newFrame_run _ s₂, _, t, hrun₃ υ hυ₃, rfl, rfl⟩
  | D, σ, Γ, s, ts, .forEach name items body, h, hr, hfresh => by
    cases h with
    | @forEach _ _ _ titems _ _ hitems hbelow hbody =>
      obtain ⟨τ₁, s₁, hτ₁, hr₁, hrun₁⟩ := complete_expr items hitems hr hfresh.left
      have hinteger : Ty.integer.Within (known D titems.identities) := .of_objects rfl _
      have hr₂ := hr₁.child.append name hinteger
      obtain ⟨bindings, hsucceeds⟩ := complete_stmts body hbody hr₂ hfresh.right
      obtain ⟨τ₂, t, hτ₂, ht, hrun₂⟩ := leave_block [(name, .integer)] hr₁ hsucceeds
      rw [← known_append] at ht
      refine ⟨τ₂, t, eqOn_known hτ₁ hτ₂, by rwa [bind_of_bindings rfl], fun υ hυ => ?_⟩
      have hbelow' := hbelow.rename υ
      rw [← TypedExpr.ty_rename] at hbelow'
      have hnames := s₁.names_newFrame_size (some f)
      simp only [stmt, bind_run_eq_ok_iff, pure_run_eq_ok_iff]
      exact ⟨_, s₁, hrun₁ υ (eqOn_first hτ₂ hυ), (), s₁,
        requireSubtype_run_iff.mpr ⟨hbelow', rfl⟩, _, _, newFrame_run _ s₁, (), _,
        define_run_iff.mpr ⟨by simp [hnames], rfl⟩, _, t, hrun₂ υ (eqOn_rest hυ), rfl, rfl⟩
  | D, σ, Γ, s, ts, .ret value, h, hr, hfresh => by
    cases h with
    | @ret _ _ tvalue _ hreturns hvalue hbelow =>
      obtain ⟨τ, t, hτ, ht, hrun⟩ := complete_optionalExpr value hvalue hr hfresh
      refine ⟨τ, t, hτ, by rwa [bind_of_bindings rfl], fun υ hυ => ?_⟩
      have hlookup := hr.lookup (eqOn_known hτ hυ) hreturns
      have hbelow' := hbelow.rename υ
      rw [← elim_rename] at hbelow'
      simp only [stmt, bind_run_eq_ok_iff]
      refine ⟨_, s, lookup?_run f returnsName s, ?_⟩
      rw [hlookup]
      simp only [bind_run_eq_ok_iff, pure_run_eq_ok_iff]
      exact ⟨_, t, hrun υ hυ, (), t, requireSubtype_run_iff.mpr ⟨hbelow', rfl⟩, rfl, rfl⟩
  | D, σ, Γ, s, ts, .expression value, h, hr, hfresh => by
    cases h with
    | expression hvalue =>
      obtain ⟨τ, t, hτ, ht, hrun⟩ := complete_expr value hvalue hr hfresh
      refine ⟨τ, t, hτ, by rwa [bind_of_bindings rfl], fun υ hυ => ?_⟩
      simp only [stmt, bind_run_ok (hrun υ hυ), pure_run, TypedStmt.rename]
  | D, σ, Γ, s, ts, .assign (.variable name) value, h, hr, hfresh => by
    cases h with
    | assignVariable hty hvalue hbelow =>
      obtain ⟨τ, t, hτ, ht, hrun⟩ := complete_expr value hvalue hr hfresh
      refine ⟨τ, t, hτ, by rwa [bind_of_bindings rfl], fun υ hυ => ?_⟩
      have hlookup := hr.lookup (eqOn_known hτ hυ) hty
      have hbelow' := hbelow.rename υ
      rw [← TypedExpr.ty_rename] at hbelow'
      simp only [stmt, bind_run_eq_ok_iff, pure_run_eq_ok_iff]
      exact ⟨_, s, lookup_run_iff.mpr ⟨hlookup, rfl⟩, _, t, hrun υ hυ, (), t,
        requireSubtype_run_iff.mpr ⟨hbelow', rfl⟩, rfl, rfl⟩
  | D, σ, Γ, s, ts, .assign (.property receiver name) value, h, hr, hfresh => by
    cases h with
    | assignProperty hreceiver hobject hty hvalue hbelow =>
      obtain ⟨τ₁, s₁, hτ₁, hr₁, hrun₁⟩ := complete_expr receiver hreceiver hr hfresh.left
      obtain ⟨τ₂, t, hτ₂, ht, hrun₂⟩ := complete_expr value hvalue hr₁ hfresh.right
      rw [← known_append] at ht
      refine ⟨τ₂, t, eqOn_known hτ₁ hτ₂, by rwa [bind_of_bindings rfl], fun υ hυ => ?_⟩
      have ho := mem_of_run hr hτ₁ (hrun₁ τ₁ (Set.eqOn_refl _ _)) hobject
      have hmember := hr₁.member (eqOn_first hτ₂ hυ) ho hty
      have hbelow' := hbelow.rename υ
      rw [← TypedExpr.ty_rename] at hbelow'
      simp only [stmt, bind_run_eq_ok_iff, pure_run_eq_ok_iff]
      refine ⟨_, s₁, hrun₁ υ (eqOn_first hτ₂ hυ), _, s₁, membersOf_run_iff.mpr ⟨?_, rfl⟩, _, s₁,
        memberTy_run_iff.mpr ⟨hmember, rfl⟩, _, t, hrun₂ υ (eqOn_rest hυ), (), t,
        requireSubtype_run_iff.mpr ⟨hbelow', rfl⟩, rfl, rfl⟩
      rw [TypedExpr.ty_rename, hobject, Ty.rename]
  | D, σ, Γ, s, ts, .assign (.literal _) _, h, _, _
  | D, σ, Γ, s, ts, .assign (.group _) _, h, _, _
  | D, σ, Γ, s, ts, .assign (.binary _ _ _) _, h, _, _
  | D, σ, Γ, s, ts, .assign (.call _ _) _, h, _, _
  | D, σ, Γ, s, ts, .assign (.method _ _ _) _, h, _, _
  | D, σ, Γ, s, ts, .assign (.object _ _ _) _, h, _, _ => by
    cases h

/-- At the end of a block, its level binds what the statements have bound. -/
theorem complete_stmts {f : FrameId} : ∀ {D : Set FrameId} {σ : Equiv.Perm FrameId} {Γ : Scope}
    {s : Store Ty} {tbody : List TypedStmt} (body : List Stmt), TypesStmts Δ Γ body tbody →
    Realizes n Δ D σ Γ s f → Fresh D (identitiesOfStmts tbody) →
    ∃ bindings, Succeeds n Δ D σ (fun _ => stmts f body) s f (identitiesOfStmts tbody)
      (Γ.bind bindings) (renameStmts · tbody)
  | D, σ, Γ, s, tbody, [], h, hr, _ => by
    cases h with
    | nil =>
      refine ⟨[], .quiet (by rwa [bind_nil]) fun υ _ => ?_⟩
      rw [stmts]
      rfl
  | D, σ, Γ, s, tbody, st :: rest, h, hr, hfresh => by
    cases h with
    | cons hst hrest =>
      obtain ⟨τ₁, s₁, hτ₁, hr₁, hrun₁⟩ := complete_stmt st hst hr hfresh.left
      obtain ⟨bindings, τ₂, t, hτ₂, ht, hrun₂⟩ := complete_stmts rest hrest hr₁ hfresh.right
      rw [← known_append, Scope.bind_bind] at ht
      refine ⟨_, τ₂, t, eqOn_known hτ₁ hτ₂, ht, fun υ hυ => ?_⟩
      simp only [stmts, bind_run_eq_ok_iff, pure_run_eq_ok_iff]
      exact ⟨_, s₁, hrun₁ υ (eqOn_first hτ₂ hυ), _, t, hrun₂ υ (eqOn_rest hυ), rfl, rfl⟩

end

end ObjectLang.Check
