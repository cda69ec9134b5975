import Mathlib.Logic.Equiv.Basic
import ObjectLang.Proofs.TypeSystem.Scopes

/-!
# Renaming and the typing rules

The rules for types, operators, declarations and signatures do not depend on the numbers of frames:
what holds of types holds of the same types with other numbers. Predefined types, and so whatever
has a declared type, are not affected at all.
-/

namespace ObjectLang

/-! ## Types -/

theorem Ty.Below.rename {t u : Ty} (h : t.Below u) (ρ : FrameId → FrameId) :
    (t.rename ρ).Below (u.rename ρ) := by
  cases h with
  | refl => exact .refl _
  | any => exact .any _
  | comparable ht =>
    simp only [List.mem_cons, List.not_mem_nil, or_false] at ht
    rcases ht with rfl | rfl | rfl | rfl <;> exact .comparable (by simp [Ty.rename])
  | equatable ht =>
    simp only [List.mem_cons, List.not_mem_nil, or_false] at ht
    rcases ht with rfl | rfl | rfl | rfl | rfl | rfl | rfl <;>
      exact .equatable (by simp [Ty.rename])

theorem Operator.Types.rename {op : Operator} {left right ty : Ty} (h : op.Types left right ty)
    (ρ : FrameId → FrameId) : op.Types (left.rename ρ) (right.rename ρ) (ty.rename ρ) := by
  cases h with
  | joinRight right => exact .joinRight _
  | joinLeft left => exact .joinLeft _
  | arithmetic hop ht =>
    simp only [List.mem_cons, List.not_mem_nil, or_false] at ht
    rcases ht with rfl | rfl <;> exact .arithmetic hop (by simp [Ty.rename])
  | ordering hop ht => exact .ordering hop (ht.rename ρ)
  | equality hop hleft hright => exact .equality hop (hleft.rename ρ) (hright.rename ρ)
  | logic hop => exact .logic hop

theorem Denotes.rename_eq {typeName : Option String} {ty : Ty} (h : Denotes typeName ty)
    (ρ : FrameId → FrameId) : ty.rename ρ = ty := by
  cases h with
  | none => rfl
  | some hty => exact Ty.rename_of_name? hty ρ

theorem Literal.ty_rename (value : Literal) (ρ : FrameId → FrameId) :
    value.ty.rename ρ = value.ty := by
  cases value <;> rfl

/-- The type of a renamed expression is the renamed type. -/
theorem TypedExpr.ty_rename (ρ : FrameId → FrameId) :
    ∀ e : TypedExpr, (e.rename ρ).ty = e.ty.rename ρ
  | .group inner => by
    rw [rename, ty, ty, ty_rename ρ inner]
  | .literal _ _ | .binary _ _ _ _ | .variable _ _ | .property _ _ _ | .call _ _ _
  | .method _ _ _ _ | .object _ _ _ _ => by
    rw [rename, ty, ty]

theorem TypedDeclaration.name_rename (ρ : FrameId → FrameId) (d : TypedDeclaration) :
    (d.rename ρ).name = d.name := by
  cases d
  rfl

theorem TypedDeclaration.ty_rename (ρ : FrameId → FrameId) (d : TypedDeclaration) :
    (d.rename ρ).ty = d.ty.rename ρ := by
  cases d
  rfl

/-- The type of what a return returns. -/
theorem elim_rename (ρ : FrameId → FrameId) (e : Option TypedExpr) :
    (renameOption ρ e).elim .nil (·.ty) = (e.elim .nil (·.ty)).rename ρ := by
  cases e with
  | none => rfl
  | some e => exact e.ty_rename ρ

theorem Declares.rename {typeName : Option String} {value : Option TypedExpr} {ty : Ty}
    (h : Declares typeName value ty) (ρ : FrameId → FrameId) :
    Declares typeName (renameOption ρ value) (ty.rename ρ) := by
  cases h with
  | neither => exact .neither
  | value v =>
    rw [← v.ty_rename ρ]
    exact .value _
  | typeName hty =>
    rw [Ty.rename_of_name? hty]
    exact .typeName hty
  | both hty hbelow =>
    have hrenamed := hbelow.rename ρ
    rw [← TypedExpr.ty_rename] at hrenamed
    rw [Ty.rename_of_name? hty] at hrenamed ⊢
    exact .both hty hrenamed

theorem Ty.Within.rename {K : Set FrameId} {t : Ty} (h : t.Within K) (ρ : FrameId → FrameId) :
    (t.rename ρ).Within (ρ '' K) := by
  intro o ho
  rw [objects_rename] at ho
  obtain ⟨o', ho', rfl⟩ := List.mem_map.mp ho
  exact Set.mem_image_of_mem ρ (h o' ho')

theorem Ty.Within.of_rename {K : Set FrameId} {t : Ty} {ρ : FrameId → FrameId}
    (hρ : Function.Injective ρ) (h : (t.rename ρ).Within (ρ '' K)) : t.Within K := by
  intro o ho
  have hmem : ρ o ∈ (t.rename ρ).objects := by
    rw [objects_rename]
    exact List.mem_map_of_mem ho
  exact (hρ.mem_set_image).mp (h (ρ o) hmem)

theorem Ty.Within.rename_eq {K : Set FrameId} {t : Ty} {ρ ρ' : FrameId → FrameId}
    (h : t.Within K) (hρ : Set.EqOn ρ ρ' K) : t.rename ρ = t.rename ρ' :=
  rename_congr fun o ho => hρ (h o ho)

/-! ## Bindings -/

theorem renameBindings_id (bindings : List (String × Ty)) :
    renameBindings id bindings = bindings := by
  rw [renameBindings]
  simp only [Ty.rename_id]
  exact List.map_id _

theorem renameBindings_append (ρ : FrameId → FrameId) (bindings bindings' : List (String × Ty)) :
    renameBindings ρ (bindings ++ bindings') =
      renameBindings ρ bindings ++ renameBindings ρ bindings' :=
  List.map_append

theorem renameBindings_congr {K : Set FrameId} {bindings : List (String × Ty)}
    {ρ ρ' : FrameId → FrameId} (h : ∀ b ∈ bindings, b.2.Within K) (hρ : Set.EqOn ρ ρ' K) :
    renameBindings ρ bindings = renameBindings ρ' bindings := by
  refine List.map_congr_left fun b hb => ?_
  rw [(h b hb).rename_eq hρ]

theorem within_renameBindings {K : Set FrameId} {bindings : List (String × Ty)}
    (h : ∀ b ∈ bindings, b.2.Within K) (ρ : FrameId → FrameId) :
    ∀ b ∈ renameBindings ρ bindings, b.2.Within (ρ '' K) := by
  intro b hb
  obtain ⟨b', hb', rfl⟩ := List.mem_map.mp hb
  exact (h b' hb').rename ρ

theorem within_of_renameBindings {K : Set FrameId} {bindings : List (String × Ty)}
    {ρ : FrameId → FrameId} (hρ : Function.Injective ρ)
    (h : ∀ b ∈ renameBindings ρ bindings, b.2.Within (ρ '' K)) :
    ∀ b ∈ bindings, b.2.Within K := by
  intro b hb
  exact (h _ (List.mem_map_of_mem hb)).of_rename hρ

/-! ## Scopes -/

/-- The level with other numbers for frames. -/
def Level.rename (ρ : FrameId → FrameId) (level : Level) : Level :=
  ⟨level.frame.map ρ, renameBindings ρ level.bindings⟩

namespace Scope

/-- The scope with other numbers for frames. -/
def rename (ρ : FrameId → FrameId) (Γ : Scope) : Scope := Γ.map (Level.rename ρ)

theorem rename_id (Γ : Scope) : Γ.rename id = Γ := by
  have hlevel (level : Level) : level.rename id = level := by
    rw [Level.rename, renameBindings_id, Option.map_id_fun, id_eq]
  rw [rename, List.map_congr_left fun level _ => hlevel level, List.map_id']

theorem lookup_rename (ρ : FrameId → FrameId) (Γ : Scope) (name : String) :
    (Γ.rename ρ).lookup name = (Γ.lookup name).map (Ty.rename ρ) := by
  induction Γ with
  | nil => rfl
  | cons level rest ih =>
    simp only [rename, lookup, List.map_cons, List.findSome?_cons, Level.rename,
      lookup_renameBindings] at ih ⊢
    cases level.bindings.lookup name with
    | some ty => rfl
    | none => exact ih

theorem ownNames_rename (ρ : FrameId → FrameId) (Γ : Scope) :
    (Γ.rename ρ).ownNames = Γ.ownNames := by
  cases Γ with
  | nil => rfl
  | cons level rest => exact renameBindings_fst ρ level.bindings

theorem bind_rename (ρ : FrameId → FrameId) (Γ : Scope) (bindings : List (String × Ty)) :
    (Γ.bind bindings).rename ρ = (Γ.rename ρ).bind (renameBindings ρ bindings) := by
  cases Γ with
  | nil => rfl
  | cons level rest =>
    simp only [bind, rename, List.map_cons, Level.rename, renameBindings_append]

theorem bind_bind (Γ : Scope) (bindings bindings' : List (String × Ty)) :
    (Γ.bind bindings).bind bindings' = Γ.bind (bindings ++ bindings') := by
  cases Γ with
  | nil => rfl
  | cons level rest => simp only [bind, List.append_assoc]

/-- The members of a renamed object type are its members, renamed. -/
theorem members_rename (σ : Equiv.Perm FrameId) (Δ : FrameId → List (String × Ty)) (Γ : Scope)
    (o : FrameId) : (Γ.rename σ).members (fun o => renameBindings σ (Δ (σ.symm o))) (σ o) =
      renameBindings σ (Γ.members Δ o) := by
  induction Γ with
  | nil => simp [rename, members]
  | cons level rest ih =>
    have hframe : (level.frame.map σ == some (σ o)) = (level.frame == some o) := by
      cases level.frame <;> simp [σ.injective.eq_iff]
    simp only [rename, members, List.map_cons, List.find?_cons, Level.rename, hframe] at ih ⊢
    cases level.frame == some o with
    | true => rfl
    | false => exact ih

end Scope

/-! ## Signatures -/

namespace Check

/-- The signature of a typed function. -/
def signatureOf (d : TypedDefinition) : Signature := ⟨d.parameters, d.returns⟩

theorem parameter_rename {ps : List Parameter} {tps : List TypedParameter}
    (h : List.Forall₂ Parameter.Types ps tps) (ρ : FrameId → FrameId) :
    ∀ p ∈ tps, p.rename ρ = p := by
  induction h with
  | nil => simp
  | @cons _ tp _ _ hp _ ih =>
    intro q hq
    rcases List.mem_cons.mp hq with rfl | hq
    · rw [TypedParameter.rename, hp.2.rename_eq ρ]
    · exact ih q hq

theorem parameters_rename {ps : List Parameter} {tps : List TypedParameter}
    (h : List.Forall₂ Parameter.Types ps tps) (ρ : FrameId → FrameId) :
    tps.map (·.rename ρ) = tps := by
  rw [List.map_congr_left (parameter_rename h ρ), List.map_id']

theorem parameters_heading {ps : List Parameter} {tps : List TypedParameter}
    (h : List.Forall₂ Parameter.Types ps tps) : tps.map (·.name) = ps.map (·.name) := by
  induction h with
  | nil => rfl
  | cons hp _ ih => rw [List.map_cons, List.map_cons, ih, hp.1]

/-- A signature is made of predefined types. -/
theorem Signature.Types.ty_rename {d : Definition} {signature : Signature}
    (h : Signature.Types d signature) (ρ : FrameId → FrameId) :
    signature.ty.rename ρ = signature.ty :=
  Ty.rename_congr (fun o ho => absurd (h.within (K := ∅) |>.ty o ho) (Set.notMem_empty o)) |>.trans
    (Ty.rename_id _)

/-- What is bound for the body of a function, with other numbers for the frame of the receiver. -/
theorem Signature.Types.bodyBindings_rename {d : Definition} {signature : Signature}
    (h : Signature.Types d signature) (this : Option Ty) (ρ : FrameId → FrameId) :
    renameBindings ρ (bodyBindings this signature) =
      bodyBindings (this.map (Ty.rename ρ)) signature := by
  have hparams : renameBindings ρ (signature.parameters.map fun p => (p.name, p.ty)) =
      signature.parameters.map fun p => (p.name, p.ty) := by
    rw [renameBindings, List.map_map]
    refine List.map_congr_left fun p hp => ?_
    have hp' := parameter_rename h.parameters ρ p hp
    exact congrArg (fun q : TypedParameter => (q.name, q.ty)) hp'
  rw [bodyBindings, renameBindings_append, renameBindings_append, hparams, bodyBindings]
  have hreturns : renameBindings ρ [(returnsName, signature.returns)] =
      [(returnsName, signature.returns)] := by
    rw [renameBindings, List.map_singleton, h.returns.rename_eq ρ]
  rw [hreturns]
  cases this <;> rfl

end Check

/-! ## Typed functions and fields -/

variable {Δ : FrameId → List (String × Ty)} {Γ : Scope}

theorem TypesArguments.length_eq {es : List Expr} {params : List Ty} {ts : List TypedExpr}
    (h : TypesArguments Δ Γ es params ts) : params.length = es.length := by
  induction es generalizing params ts with
  | nil =>
    cases h
    rfl
  | cons e es ih =>
    cases h with
    | cons _ _ hrest => exact congrArg (· + 1) (ih hrest)

/-- A typed function has a signature that its definition has. -/
theorem TypesDefinition.signature {this : Option Ty} {d : Definition} {t : TypedDefinition}
    (h : TypesDefinition Δ Γ this d t) :
    Check.Signature.Types d (Check.signatureOf t) ∧ t.name = d.name := by
  cases h with
  | mk hparameters hreturns hnodup hbody =>
    refine ⟨⟨hparameters, ?_, hreturns⟩, rfl⟩
    rw [← Check.parameters_heading hparameters]
    simp only [Check.bodyBindings, List.map_append, List.map_map] at hnodup
    exact (List.nodup_append.mp (List.nodup_append.mp hnodup).1).2.1

theorem TypesFields.names_eq {ds : List Declaration} {ts : List TypedDeclaration}
    (h : TypesFields Δ Γ ds ts) : ts.map (·.name) = ds.map (·.name) := by
  induction ds generalizing ts with
  | nil =>
    cases h
    rfl
  | cons d ds ih =>
    cases h with
    | cons hd hds => rw [List.map_cons, List.map_cons, hd.name_eq, ih hds]

/-- What fields bind, with other numbers for frames. -/
theorem fieldBindings_rename (ρ : FrameId → FrameId) (ds : List TypedDeclaration) :
    (renameFields ρ ds).map (fun d => (d.name, d.ty)) =
      renameBindings ρ (ds.map fun d => (d.name, d.ty)) := by
  induction ds with
  | nil => rfl
  | cons d ds ih =>
    rw [renameFields, List.map_cons, ih, d.name_rename, d.ty_rename]
    rfl

namespace TypesMethods

variable {this : Ty} {ds : List Definition} {ts : List TypedDefinition}

theorem names_eq (h : TypesMethods Δ Γ this ds ts) : ts.map (·.name) = ds.map (·.name) := by
  induction ds generalizing ts with
  | nil =>
    cases h
    rfl
  | cons d ds ih =>
    cases h with
    | cons hd hds => rw [List.map_cons, List.map_cons, hd.signature.2, ih hds]

theorem signatures (h : TypesMethods Δ Γ this ds ts) :
    List.Forall₂ Check.Signature.Types ds (ts.map Check.signatureOf) := by
  induction ds generalizing ts with
  | nil =>
    cases h
    exact .nil
  | cons d ds ih =>
    cases h with
    | cons hd hds => exact .cons hd.signature.1 (ih hds)

/-- What methods bind does not depend on the numbers of frames. -/
theorem bindings_eq (h : TypesMethods Δ Γ this ds ts) (ρ : FrameId → FrameId) :
    Check.methodBindings ds (ts.map Check.signatureOf) =
      renameBindings ρ (ts.map fun d => (d.name, d.ty)) := by
  induction ds generalizing ts with
  | nil =>
    cases h
    rfl
  | cons d ds ih =>
    cases h with
    | @cons _ _ _ t _ ts hd hds =>
      obtain ⟨htypes, hname⟩ := hd.signature
      have hty : t.ty.rename ρ = t.ty := htypes.ty_rename ρ
      have hrest := ih hds
      rw [Check.methodBindings] at hrest ⊢
      rw [List.map_cons, List.zipWith_cons_cons, hrest, List.map_cons, renameBindings,
        renameBindings, List.map_cons, hname, hty]
      rfl

end TypesMethods

/-- The members of an object have different names. -/
theorem TypesFields.names_nodup {this : Ty} {fields : List Declaration}
    {tfields : List TypedDeclaration} {methods : List Definition}
    {tmethods : List TypedDefinition} (hfields : TypesFields Δ Γ fields tfields)
    (hmethods : TypesMethods Δ Γ this methods tmethods)
    (h : ((memberBindings tfields tmethods).map Prod.fst).Nodup) :
    (fields.map (·.name) ++ methods.map (·.name)).Nodup := by
  rw [memberBindings, List.map_append, List.map_map, List.map_map] at h
  rw [← hfields.names_eq, ← hmethods.names_eq]
  exact h

end ObjectLang
