import ObjectLang.Proofs.Check.Sealing

/-!
# Checked trees are about sealed frames

By induction on trees, whatever the checker hands out of a tree is about sealed object types. The
case that matters is that of an object literal. First its frame of members is filled; while this
goes on the frame is not sealed, and no type that is bound anywhere is about it. Then it is sealed,
and so the methods may be checked with a receiver of the new type.
-/

namespace ObjectLang.Check

/-! ## Object literals -/

/-- The first half of checking an object literal: binds the fields and the types of the methods in
the frame of members. -/
def fillMembers (f : FrameId) (fields : List Declaration) (methods : List Definition)
    (members : FrameId) : CheckM (List TypedDeclaration × List Signature) := do
  let fields ← objectFields f members fields
  let signatures ← registerMethods members methods
  return (fields, signatures)

/-- The bodies of the methods are checked when all members are bound. -/
theorem expr_object (f : FrameId) (name : Option String) (fields : List Declaration)
    (methods : List Definition) :
    expr f (.object name fields methods) = do
      requireUnreserved name
      let members ← newFrame none
      let filled ← fillMembers f fields methods members
      let methods ← objectMethods f (.object members) methods filled.2
      return .object name filled.1 methods (.object members) := by
  rw [expr]
  simp only [fillMembers, bind_assoc, pure_bind]

/-! ## Trees -/

namespace Seals

mutual

theorem expr {s : Store Ty} {K : Set FrameId} {f : FrameId} : ∀ e : Expr, s.Sealed K → s.Home K f →
    Seals (expr f e) s K fun e K' => Ty.AllWithin K' e.types
  | .literal value, hs, _ => by
    rw [Check.expr]
    exact pure hs (.singleton (by cases value <;> exact .of_objects rfl K))
  | .group inner, hs, hf => by
    rw [Check.expr]
    exact bind (expr inner hs hf) fun _ _ _ _ hs' hinner => pure hs' hinner
  | .binary op left right, hs, hf => by
    rw [Check.expr]
    refine bind (expr left hs hf) fun l _ _ hlater hs' hl => ?_
    refine bind (expr right hs' (hf.later hlater)) fun r t K' hlater' hs'' hr => ?_
    have hl' := hl.mono hlater'.subset
    have hright := hr _ r.ty_mem_types
    have hresult : Reads (result (op.resultTy l.ty r.ty)) t K' (·.Within K') :=
      .result (fun _ h => within_of_types (Operator.resultTy_eq_ok_iff.mp h) hright) fun _ h =>
        Operator.allWithin_of_resultTy (hl' _ l.ty_mem_types) hright h
    exact read hs'' hresult fun ty hty => pure hs'' (.cons hty (hl'.append hr))
  | .variable name, hs, hf => by
    rw [Check.expr]
    exact read hs (.lookup hf name) fun ty hty => pure hs (.singleton hty)
  | .property receiver name, hs, hf => by
    rw [Check.expr]
    refine bind (expr receiver hs hf) fun r _ _ _ hs' hr => ?_
    refine read hs' (.membersOf (hr _ r.ty_mem_types)) fun members hmembers => ?_
    exact read hs' (.memberTy hs' hmembers name) fun ty hty => pure hs' (.cons hty hr)
  | .call name arguments, hs, hf => by
    rw [Check.expr]
    refine read hs (.lookup hf name) fun target htarget => ?_
    refine read hs (.callable name _ htarget) fun r hr => ?_
    refine bind (exprs arguments hs hf hr.1) fun es _ _ hlater hs' hes => ?_
    exact pure hs' (.cons (hr.2.mono hlater.subset) hes)
  | .method receiver name arguments, hs, hf => by
    rw [Check.expr]
    refine bind (expr receiver hs hf) fun r _ _ hlater hs' hr => ?_
    refine read hs' (.membersOf (hr _ r.ty_mem_types)) fun members hmembers => ?_
    refine read hs' (.memberTy hs' hmembers name) fun target htarget => ?_
    refine read hs' (.callable name _ htarget) fun c hc => ?_
    refine bind (exprs arguments hs' (hf.later hlater) hc.1) fun es _ _ hlater' hs'' hes => ?_
    exact pure hs'' (.cons (hc.2.mono hlater'.subset) ((hr.mono hlater'.subset).append hes))
  | .object name fields methods, hs, hf => by
    rw [expr_object]
    refine read hs (.requireUnreserved name) fun _ _ => ?_
    refine literal (P := fun r K' => Ty.AllWithin K' (typesOfFields r.1) ∧
      ∀ signature ∈ r.2, Signature.Within K' signature) hs ?_ ?_
    · intro t hlater ht hnew hfree
      rw [fillMembers]
      refine bind (objectFields fields ht (hf.later hlater) hnew hfree) ?_
      intro ds u K₁ hlater₁ hu hds
      have hnew₁ := hnew.trans_le hlater₁.size_le
      have hfree₁ := hlater₁.notMem hnew hfree
      refine bind (registerMethods hu hnew₁ hfree₁ methods) ?_
      intro signatures v K₂ hlater₂ hv hsignatures
      exact pure hv ⟨hds.mono hlater₂.subset, hsignatures⟩
    · rintro r t K' hlater ht ⟨hfields, hsignatures⟩
      have hsub : K' ⊆ insert s.size K' := Set.subset_insert s.size K'
      have hthis : (Ty.object s.size).Within (insert s.size K') := .object (Set.mem_insert _ _)
      have hsignatures' := fun signature hmem => (hsignatures signature hmem).mono hsub
      refine bind (objectMethods methods ht (hf.later hlater) hthis hsignatures') ?_
      intro ds u K'' hlater' hu hds
      have hfields' := (hfields.mono hsub).mono hlater'.subset
      exact pure hu (.cons (hthis.mono hlater'.subset) (hfields'.append hds))

theorem exprs {s : Store Ty} {K : Set FrameId} {f : FrameId} :
    ∀ (es : List Expr) {params : List Ty}, s.Sealed K → s.Home K f → Ty.AllWithin K params →
    Seals (exprs f es params) s K fun es K' => Ty.AllWithin K' (typesOfExprs es)
  | e :: rest, param :: params, hs, hf, hparams => by
    rw [Check.exprs]
    obtain ⟨hparam, hparams⟩ := List.forall_mem_cons.mp hparams
    refine bind (expr e hs hf) fun e _ _ hlater hs' he => ?_
    have hparam' := hparam.mono hlater.subset
    refine read hs' (.requireSubtype (he _ e.ty_mem_types) hparam') fun _ _ => ?_
    have hparams' := Ty.AllWithin.mono hparams hlater.subset
    refine bind (exprs rest hs' (hf.later hlater) hparams') fun es _ _ hlater' hs'' hes => ?_
    exact pure hs'' ((he.mono hlater'.subset).append hes)
  | [], _, hs, _, _ => by
    rw [Check.exprs.eq_def]
    exact pure hs (.nil K)
  | _ :: _, [], hs, _, _ => by
    rw [Check.exprs.eq_def]
    exact pure hs (.nil K)

theorem optionalExpr {s : Store Ty} {K : Set FrameId} {f : FrameId} : ∀ e : Option Expr,
    s.Sealed K → s.Home K f →
    Seals (optionalExpr f e) s K fun e K' => Ty.AllWithin K' (typesOfOption e)
  | none, hs, _ => by
    rw [Check.optionalExpr]
    exact pure hs (.nil K)
  | some e, hs, hf => by
    rw [Check.optionalExpr]
    exact bind (expr e hs hf) fun _ _ _ _ hs' he => pure hs' he

theorem declaration {s : Store Ty} {K : Set FrameId} {f : FrameId} : ∀ d : Declaration,
    s.Sealed K → s.Home K f →
    Seals (declaration f d) s K fun d K' => Ty.AllWithin K' d.types
  | ⟨name, typeName, value⟩, hs, hf => by
    rw [Check.declaration]
    refine read hs (.declaredTy? typeName) fun declared hdeclared => ?_
    refine bind (optionalExpr value hs hf) fun v _ _ hlater hs' hv => ?_
    have hdeclared' := fun t ht => (hdeclared t ht).mono hlater.subset
    exact read hs' (.bindingTy hdeclared' hv) fun ty hty => pure hs' (.cons hty hv)

theorem objectFields {s : Store Ty} {K : Set FrameId} {f members : FrameId} :
    ∀ fields : List Declaration, s.Sealed K → s.Home K f → members < s.size → members ∉ K →
    Seals (objectFields f members fields) s K fun ds K' => Ty.AllWithin K' (typesOfFields ds)
  | [], hs, _, _, _ => by
    rw [Check.objectFields]
    exact pure hs (.nil K)
  | d :: rest, hs, hf, hm, hmK => by
    rw [Check.objectFields]
    refine read hs (.requireFree members d.name) fun _ _ => ?_
    refine bind (declaration d hs hf) fun d _ _ hlater hs' hd => ?_
    have hm' := hm.trans_le hlater.size_le
    have hmK' := hlater.notMem hm hmK
    refine bind (define hs' hmK' d.name (hd _ d.ty_mem_types)) fun _ _ _ hlater' hs'' _ => ?_
    have hf' := (hf.later hlater).later hlater'
    have hm'' := hm'.trans_le hlater'.size_le
    refine bind (objectFields rest hs'' hf' hm'' (hlater'.notMem hm' hmK')) ?_
    intro ds _ _ hlater'' hs''' hds
    exact pure hs''' ((hd.mono (hlater'.trans hlater'').subset).append hds)

theorem objectMethods {s : Store Ty} {K : Set FrameId} {f : FrameId} {this : Ty} :
    ∀ (methods : List Definition) {signatures : List Signature}, s.Sealed K → s.Home K f →
    this.Within K → (∀ signature ∈ signatures, Signature.Within K signature) →
    Seals (objectMethods f this methods signatures) s K fun ds K' =>
      Ty.AllWithin K' (typesOfMethods ds)
  | d :: rest, signature :: signatures, hs, hf, hthis, hsignatures => by
    rw [Check.objectMethods]
    obtain ⟨hsignature, hsignatures⟩ := List.forall_mem_cons.mp hsignatures
    refine bind (definition d hs hf (fun t ht => by cases ht; exact hthis) hsignature) ?_
    intro d _ _ hlater hs' hd
    have hthis' := hthis.mono hlater.subset
    have hsignatures' := fun signature hmem => (hsignatures signature hmem).mono hlater.subset
    refine bind (objectMethods rest hs' (hf.later hlater) hthis' hsignatures') ?_
    intro ds _ _ hlater' hs'' hds
    exact pure hs'' ((hd.mono hlater'.subset).append hds)
  | [], _, hs, _, _, _ => by
    rw [Check.objectMethods.eq_def]
    exact pure hs (.nil K)
  | _ :: _, [], hs, _, _, _ => by
    rw [Check.objectMethods.eq_def]
    exact pure hs (.nil K)

theorem definition {s : Store Ty} {K : Set FrameId} {f : FrameId} {this : Option Ty} :
    ∀ (d : Definition) {signature : Signature}, s.Sealed K → s.Home K f →
    (∀ t ∈ this, t.Within K) → Signature.Within K signature →
    Seals (definition f this d signature) s K fun d K' => Ty.AllWithin K' d.types
  | ⟨name, _, _, body⟩, signature, hs, hf, hthis, hsignature => by
    rw [Check.definition]
    refine child hs hf fun t hlater hs' hhome => ?_
    have hbindings := hsignature.bodyBindings hthis
    refine bind (defineAll hs' hhome.lt_size hhome.notMem hbindings) fun _ _ _ hlater' hs'' _ => ?_
    refine bind (stmts body hs'' (hhome.later hlater')) fun body _ _ hlater'' hs''' hbody => ?_
    have hsignature' := (hsignature.mono hlater'.subset).mono hlater''.subset
    have hparameters := List.forall_mem_map.mpr hsignature'.parameters
    exact pure hs''' (.cons hsignature'.returns (.append hparameters hbody))

theorem stmt {s : Store Ty} {K : Set FrameId} {f : FrameId} : ∀ st : Stmt,
    s.Sealed K → s.Home K f →
    Seals (stmt f st) s K fun st K' => Ty.AllWithin K' st.types
  | .declare d, hs, hf => by
    rw [Check.stmt]
    refine read hs (.requireFree f d.name) fun _ _ => ?_
    refine bind (declaration d hs hf) fun d _ _ hlater hs' hd => ?_
    have hf' := hf.later hlater
    refine bind (define hs' hf'.notMem d.name (hd _ d.ty_mem_types)) fun _ _ _ hlater' hs'' _ => ?_
    exact pure hs'' (hd.mono hlater'.subset)
  | .define d, hs, hf => by
    rw [Check.stmt]
    refine read hs (.requireFree f d.name) fun _ _ => ?_
    refine read hs (.signature d) fun signature hsignature => ?_
    refine bind (define hs hf.notMem d.name hsignature.ty) fun _ _ K₁ hlater hs' _ => ?_
    have hnone : ∀ t ∈ (none : Option Ty), t.Within K₁ := fun t ht => by cases ht
    refine bind (definition d hs' (hf.later hlater) hnone (hsignature.mono hlater.subset)) ?_
    intro d _ _ _ hs'' hd
    exact pure hs'' hd
  | .branch condition thenBody elseBody, hs, hf => by
    rw [Check.stmt]
    refine bind (expr condition hs hf) fun c _ K₁ hlater hs' hc => ?_
    have hf₁ := hf.later hlater
    refine read hs' (.requireSubtype (hc _ c.ty_mem_types) (.of_objects rfl K₁)) fun _ _ => ?_
    refine child hs' hf₁ fun _ hlater₂ hs₂ hhome₂ => ?_
    refine bind (stmts thenBody hs₂ hhome₂) fun tb _ _ hlater₃ hs₃ htb => ?_
    have hlater₁₃ := hlater₂.trans hlater₃
    refine child hs₃ (hf₁.later hlater₁₃) fun _ hlater₄ hs₄ hhome₄ => ?_
    refine bind (stmts elseBody hs₄ hhome₄) fun eb _ _ hlater₅ hs₅ heb => ?_
    have htb' := htb.mono hlater₅.subset
    have hc' := hc.mono (hlater₁₃.trans (hlater₄.trans hlater₅)).subset
    exact pure hs₅ (hc'.append (htb'.append heb))
  | .forEach name items body, hs, hf => by
    rw [Check.stmt]
    refine bind (expr items hs hf) fun i _ K₁ hlater hs₁ hi => ?_
    refine read hs₁ (.requireSubtype (hi _ i.ty_mem_types) (.of_objects rfl K₁)) fun _ _ => ?_
    refine child hs₁ (hf.later hlater) fun _ hlater₂ hs₂ hhome₂ => ?_
    refine bind (define hs₂ hhome₂.notMem name (.of_objects rfl K₁)) fun _ _ _ hlater₃ hs₃ _ => ?_
    refine bind (stmts body hs₃ (hhome₂.later hlater₃)) fun b _ K₄ hlater₄ hs₄ hb => ?_
    have hi' := hi.mono (hlater₂.trans (hlater₃.trans hlater₄)).subset
    exact pure hs₄ (.cons (.of_objects rfl K₄) (hi'.append hb))
  | .ret value, hs, hf => by
    rw [Check.stmt]
    refine read hs (.lookup? hf returnsName) fun returns hreturns => ?_
    cases returns with
    | none => exact throw hs (.nil K)
    | some returns =>
      refine bind (optionalExpr value hs hf) fun v _ K₁ hlater hs₁ hv => ?_
      have hreturns' := (hreturns returns rfl).mono hlater.subset
      have hty : (v.elim .nil (·.ty) : Ty).Within K₁ := by
        cases v with
        | none => exact .of_objects rfl K₁
        | some v => exact hv _ v.ty_mem_types
      exact read hs₁ (.requireSubtype hty hreturns') fun _ _ => pure hs₁ hv
  | .expression value, hs, hf => by
    rw [Check.stmt]
    exact bind (expr value hs hf) fun _ _ _ _ hs' hvalue => pure hs' hvalue
  | .assign (.variable name) value, hs, hf => by
    rw [Check.stmt]
    refine read hs (.lookup hf name) fun ty hty => ?_
    refine bind (expr value hs hf) fun v _ _ hlater hs' hv => ?_
    have hty' := hty.mono hlater.subset
    refine read hs' (.requireSubtype (hv _ v.ty_mem_types) hty') fun _ _ => ?_
    exact pure hs' (.cons hty' hv)
  | .assign (.property receiver name) value, hs, hf => by
    rw [Check.stmt]
    refine bind (expr receiver hs hf) fun r _ _ hlater hs' hr => ?_
    refine read hs' (.membersOf (hr _ r.ty_mem_types)) fun members hmembers => ?_
    refine read hs' (.memberTy hs' hmembers name) fun ty hty => ?_
    refine bind (expr value hs' (hf.later hlater)) fun v _ _ hlater' hs'' hv => ?_
    have hty' := hty.mono hlater'.subset
    refine read hs'' (.requireSubtype (hv _ v.ty_mem_types) hty') fun _ _ => ?_
    exact pure hs'' (.cons hty' ((hr.mono hlater'.subset).append hv))
  | .assign (.literal _) _, hs, _ | .assign (.group _) _, hs, _ | .assign (.binary _ _ _) _, hs, _
  | .assign (.call _ _) _, hs, _ | .assign (.method _ _ _) _, hs, _
  | .assign (.object _ _ _) _, hs, _ => by
    rw [Check.stmt.eq_def]
    exact throw hs (.nil K)

theorem stmts {s : Store Ty} {K : Set FrameId} {f : FrameId} : ∀ body : List Stmt,
    s.Sealed K → s.Home K f →
    Seals (stmts f body) s K fun body K' => Ty.AllWithin K' (typesOfStmts body)
  | [], hs, _ => by
    rw [Check.stmts]
    exact pure hs (.nil K)
  | st :: rest, hs, hf => by
    rw [Check.stmts]
    refine bind (stmt st hs hf) fun st _ _ hlater hs' hst => ?_
    refine bind (stmts rest hs' (hf.later hlater)) fun body _ _ hlater' hs'' hbody => ?_
    exact pure hs'' ((hst.mono hlater'.subset).append hbody)

end

end Seals

end ObjectLang.Check
