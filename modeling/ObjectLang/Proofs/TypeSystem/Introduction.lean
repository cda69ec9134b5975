import Mathlib.Data.Set.Insert
import ObjectLang.Proofs.TypeSystem.Identities
import ObjectLang.Proofs.TypeSystem.Steps

/-!
# Identities that the checker introduces

For every object literal the checker opens one frame of members, and the type of the literal is the
only way in which that frame gets into types. So the object types that occur in the frames after a
run are those that occurred before and those of the literals in the typed tree, and no two literals
share a frame.
-/

namespace ObjectLang

/-- The object types that occur in the frames are among those in `K`. -/
def Store.Closed (K : Set FrameId) (s : Store Ty) : Prop :=
  ∀ f, ∀ b ∈ s.bindings f, b.2.Within K

namespace Store.Closed

variable {K K' : Set FrameId} {s : Store Ty} {f : FrameId}

theorem mono (h : s.Closed K) (hK : K ⊆ K') : s.Closed K' := fun f b hb => (h f b hb).mono hK

theorem newFrame (h : s.Closed K) (p : Option FrameId) : (s.newFrame p).2.Closed K := by
  intro f b hb
  rw [bindings_newFrame] at hb
  exact h f b hb

theorem appendAll (h : s.Closed K) (f : FrameId) {bindings : List (String × Ty)}
    (hb : ∀ b ∈ bindings, b.2.Within K) : (s.appendAll f bindings).Closed K := by
  intro f' b hmem
  rw [bindings_appendAll] at hmem
  split at hmem
  · rcases List.mem_append.mp hmem with hmem | hmem
    · exact h f' b hmem
    · exact hb b hmem
  · exact h f' b hmem

theorem append (h : s.Closed K) (f : FrameId) (name : String) {ty : Ty} (hty : ty.Within K) :
    (s.append f name ty).Closed K := by
  have hb : ∀ b ∈ [(name, ty)], b.2.Within K := by
    intro b hb
    rw [List.mem_singleton.mp hb]
    exact hty
  exact h.appendAll f hb

theorem within_of_lookup {bindings : List (String × Ty)} {name : String} {ty : Ty}
    (h : ∀ b ∈ bindings, b.2.Within K) (hty : bindings.lookup name = some ty) : ty.Within K := by
  obtain ⟨before, after, hsplit, -⟩ := List.lookup_eq_some_iff.mp hty
  exact h (name, ty) (by simp [hsplit])

theorem lookup (h : s.Closed K) {name : String} {ty : Ty} (hty : s.lookup f name = some ty) :
    ty.Within K := by
  obtain ⟨g, -, hown⟩ := List.exists_of_findSome?_eq_some hty
  exact within_of_lookup (h g) hown

end Store.Closed

/-! ## Signatures -/

namespace Check

/-- The object types that occur in the signature are among those in `K`. -/
structure Signature.Within (K : Set FrameId) (signature : Signature) : Prop where
  parameters : ∀ p ∈ signature.parameters, p.ty.Within K
  returns : signature.returns.Within K

variable {K : Set FrameId}

theorem within_of_denotes {typeName : Option String} {ty : Ty} (h : Denotes typeName ty) :
    ty.Within K := by
  cases h with
  | none => exact Ty.Within.of_objects rfl K
  | some hty => exact Ty.Within.of_name? hty K

/-- Signatures are made of predefined types. -/
theorem Signature.Types.within {d : Definition} {signature : Signature}
    (h : Signature.Types d signature) : signature.Within K := by
  refine ⟨fun p hp => ?_, within_of_denotes h.returns⟩
  obtain ⟨i, hi, rfl⟩ := List.getElem_of_mem hp
  have hlength := h.parameters.length_eq
  obtain ⟨-, hty⟩ := h.parameters.get (hlength ▸ hi) hi
  exact within_of_denotes hty

theorem Signature.Within.ty {signature : Signature} (h : signature.Within K) :
    signature.ty.Within K := by
  refine Ty.Within.function (fun p hp => ?_) h.returns
  obtain ⟨parameter, hmem, rfl⟩ := List.mem_map.mp hp
  exact h.parameters parameter hmem

theorem Signature.Within.bodyBindings {signature : Signature} {this : Option Ty}
    (h : signature.Within K) (hthis : ∀ ty ∈ this, ty.Within K) :
    ∀ b ∈ bodyBindings this signature, b.2.Within K := by
  intro b hb
  rw [Check.bodyBindings, List.mem_append, List.mem_append, List.mem_map, List.mem_map,
    List.mem_singleton] at hb
  rcases hb with (⟨ty, hty, rfl⟩ | ⟨p, hp, rfl⟩) | rfl
  · exact hthis ty (Option.mem_toList.mp hty)
  · exact h.parameters p hp
  · exact h.returns

theorem within_methodBindings (ds : List Definition) {signatures : List Signature}
    (h : ∀ signature ∈ signatures, signature.Within K) :
    ∀ b ∈ methodBindings ds signatures, b.2.Within K := by
  intro b hb
  obtain ⟨i, hi, rfl⟩ := List.getElem_of_mem hb
  simp only [methodBindings, List.getElem_zipWith]
  exact (h _ (List.getElem_mem _)).ty

theorem within_of_forall₂ {ds : List Definition} {signatures : List Signature}
    (h : List.Forall₂ Signature.Types ds signatures) :
    ∀ signature ∈ signatures, signature.Within K := by
  induction h with
  | nil => simp
  | cons hsignature _ ih => simpa using ⟨hsignature.within, ih⟩

/-- The type of a declared name is predefined or that of the initial value. -/
theorem within_of_declares {typeName : Option String} {value : Option TypedExpr} {ty : Ty}
    (h : Declares typeName value ty) (hvalue : ∀ v ∈ value, v.ty.Within K) : ty.Within K := by
  cases h with
  | neither => exact Ty.Within.of_objects rfl K
  | value v => exact hvalue v rfl
  | typeName hty => exact Ty.Within.of_name? hty K
  | both hty _ => exact Ty.Within.of_name? hty K

/-- The result of an operation is predefined or of the type of its operands. -/
theorem within_of_types {op : Operator} {left right ty : Ty} (h : op.Types left right ty)
    (hright : right.Within K) : ty.Within K := by
  cases h with
  | arithmetic => exact hright
  | joinRight | joinLeft => exact Ty.Within.of_objects rfl K
  | ordering | equality | logic => exact Ty.Within.of_objects rfl K

/-! ## Runs -/

/-- The known object types together with further ones. -/
def known (K : Set FrameId) (ids : List FrameId) : Set FrameId := K ∪ {o | o ∈ ids}

theorem subset_known (K : Set FrameId) (ids : List FrameId) : K ⊆ known K ids :=
  Set.subset_union_left

theorem mem_known_of_mem {o : FrameId} {ids : List FrameId} (h : o ∈ ids) : o ∈ known K ids :=
  .inr h

@[simp] theorem known_nil (K : Set FrameId) : known K [] = K := by
  simp [known]

theorem known_append (K : Set FrameId) (ids ids' : List FrameId) :
    known K (ids ++ ids') = known (known K ids) ids' := by
  ext o
  simp only [known, List.mem_append, Set.mem_union, Set.mem_ofPred_eq, or_assoc]

/-- A run from `s` to `t` in which the frames `ids` were made the frames of object types. -/
structure Introduces (K : Set FrameId) (ids : List FrameId) (s t : Store Ty) : Prop where
  size_le : s.size ≤ t.size
  nodup : ids.Nodup
  fresh : ∀ o ∈ ids, s.size ≤ o ∧ o < t.size
  closed : t.Closed (known K ids)

namespace Introduces

variable {ids ids' : List FrameId} {s t u : Store Ty}

/-- A step that introduces nothing. -/
theorem of_closed (hsize : s.size ≤ t.size) (h : t.Closed K) : Introduces K [] s t :=
  ⟨hsize, List.nodup_nil, by simp, by simpa using h⟩

theorem trans (h : Introduces K ids s t) (h' : Introduces (known K ids) ids' t u) :
    Introduces K (ids ++ ids') s u := by
  refine ⟨h.size_le.trans h'.size_le, ?_, ?_, known_append K ids ids' ▸ h'.closed⟩
  · refine List.nodup_append.mpr ⟨h.nodup, h'.nodup, fun o ho o' ho' heq => ?_⟩
    have hlt := (h.fresh o ho).2.trans_le (h'.fresh o' ho').1
    exact hlt.ne heq
  · intro o ho
    rcases List.mem_append.mp ho with ho | ho
    · have hfresh := h.fresh o ho
      exact ⟨hfresh.1, hfresh.2.trans_le h'.size_le⟩
    · have hfresh := h'.fresh o ho
      exact ⟨h.size_le.trans hfresh.1, hfresh.2⟩

/-- A step that introduces nothing, before a run. -/
theorem after (hsize : s.size ≤ t.size) (h : Introduces K ids t u) : Introduces K ids s u :=
  ⟨hsize.trans h.size_le, h.nodup, fun o ho => ⟨hsize.trans (h.fresh o ho).1, (h.fresh o ho).2⟩,
    h.closed⟩

/-- A step that introduces nothing, after a run. -/
theorem before (h : Introduces K ids s t) (hsize : t.size ≤ u.size)
    (hclosed : u.Closed (known K ids)) : Introduces K ids s u :=
  ⟨h.size_le.trans hsize, h.nodup,
    fun o ho => ⟨(h.fresh o ho).1, (h.fresh o ho).2.trans_le hsize⟩, hclosed⟩

/-- A frame of members and, in it, the fields and the methods of an object. The frame counts as
known from the start. -/
theorem members {fields : List FrameId} {methods : List Definition} {signatures : List Signature}
    (hs : s.Closed K) (hfields : Introduces (known K [s.size]) fields (s.newFrame none).2 t)
    (h : registerMethods s.size methods t = .ok signatures u) :
    Introduces K ([s.size] ++ fields) s u ∧
      ∀ signature ∈ signatures, signature.Within (known K ([s.size] ++ fields)) := by
  have hclosed := (hs.newFrame none).mono (subset_known K [s.size])
  have hopened : Introduces K [s.size] s (s.newFrame none).2 :=
    ⟨by simp, by simp, by simp, hclosed⟩
  have hm : s.size < t.size := lt_of_lt_of_le (by simp) hfields.size_le
  obtain ⟨htypes, -, -, rfl⟩ := (registerMethods_run_iff hm).mp h
  have hwithin : ∀ signature ∈ signatures, signature.Within (known K ([s.size] ++ fields)) :=
    within_of_forall₂ htypes
  have hintro := hopened.trans hfields
  exact ⟨hintro.before (by simp)
    (hintro.closed.appendAll s.size (within_methodBindings methods hwithin)), hwithin⟩

end Introduces

mutual

theorem introduces_expr {f : FrameId} : ∀ {K : Set FrameId} {s t : Store Ty} {te : TypedExpr}
    (e : Expr), s.Closed K → expr f e s = .ok te t →
    Introduces K te.identities s t ∧ te.ty.Within (known K te.identities)
  | K, s, t, te, .literal value, hs, h => by
    rw [expr] at h
    cases h
    refine ⟨.of_closed le_rfl hs, ?_⟩
    cases value with
    | nil => exact Ty.Within.of_objects rfl _
    | boolean => exact Ty.Within.of_objects rfl _
    | integer => exact Ty.Within.of_objects rfl _
    | decimal => exact Ty.Within.of_objects rfl _
    | string => exact Ty.Within.of_objects rfl _
  | K, s, t, te, .group inner, hs, h => by
    simp only [expr, bind_run_eq_ok_iff, pure_run_eq_ok_iff] at h
    obtain ⟨tinner, _, hinner, rfl, rfl⟩ := h
    obtain ⟨hintro, hwithin⟩ := introduces_expr inner hs hinner
    exact ⟨hintro, hwithin⟩
  | K, s, t, te, .binary op left right, hs, h => by
    simp only [expr, bind_run_eq_ok_iff, pure_run_eq_ok_iff, result_run_iff,
      Operator.resultTy_eq_ok_iff] at h
    obtain ⟨tleft, s₁, hleft, tright, s₂, hright, ty, _, ⟨hty, rfl⟩, rfl, rfl⟩ := h
    obtain ⟨hintro₁, hwithin₁⟩ := introduces_expr left hs hleft
    obtain ⟨hintro₂, hwithin₂⟩ := introduces_expr right hintro₁.closed hright
    refine ⟨hintro₁.trans hintro₂, ?_⟩
    dsimp only [TypedExpr.identities, TypedExpr.ty]
    rw [known_append]
    exact within_of_types hty hwithin₂
  | K, s, t, te, .variable name, hs, h => by
    simp only [expr, bind_run_eq_ok_iff, pure_run_eq_ok_iff, lookup_run_iff] at h
    obtain ⟨ty, _, ⟨hty, rfl⟩, rfl, rfl⟩ := h
    exact ⟨.of_closed le_rfl hs, (hs.lookup hty).mono (subset_known K _)⟩
  | K, s, t, te, .property receiver name, hs, h => by
    simp only [expr, bind_run_eq_ok_iff, pure_run_eq_ok_iff, membersOf_run_iff,
      memberTy_run_iff] at h
    obtain ⟨treceiver, s₁, hreceiver, members, _, ⟨-, rfl⟩, ty, _, ⟨hty, rfl⟩, rfl, rfl⟩ := h
    obtain ⟨hintro, -⟩ := introduces_expr receiver hs hreceiver
    exact ⟨hintro, Store.Closed.within_of_lookup (hintro.closed members) hty⟩
  | K, s, t, te, .call name arguments, hs, h => by
    simp only [expr, bind_run_eq_ok_iff, pure_run_eq_ok_iff, lookup_run_iff] at h
    obtain ⟨target, _, ⟨htarget, rfl⟩, x, _, hcallable, targuments, s₁, harguments, rfl, rfl⟩ := h
    obtain ⟨rfl, -, rfl⟩ := callable_eq_ok hcallable
    exact ⟨introduces_exprs arguments hs harguments,
      (hs.lookup htarget).returns.mono (subset_known K _)⟩
  | K, s, t, te, .method receiver name arguments, hs, h => by
    simp only [expr, bind_run_eq_ok_iff, pure_run_eq_ok_iff, membersOf_run_iff,
      memberTy_run_iff] at h
    obtain ⟨treceiver, s₁, hreceiver, members, _, ⟨-, rfl⟩, target, _, ⟨htarget, rfl⟩, x, _,
      hcallable, targuments, s₂, harguments, rfl, rfl⟩ := h
    obtain ⟨rfl, -, rfl⟩ := callable_eq_ok hcallable
    obtain ⟨hintro, -⟩ := introduces_expr receiver hs hreceiver
    have htarget := Store.Closed.within_of_lookup (hintro.closed members) htarget
    refine ⟨hintro.trans (introduces_exprs arguments hintro.closed harguments), ?_⟩
    dsimp only [TypedExpr.identities, TypedExpr.ty]
    rw [known_append]
    exact htarget.returns.mono (subset_known _ _)
  | K, s, t, te, .object name fields methods, hs, h => by
    simp only [expr, bind_run_eq_ok_iff, pure_run_eq_ok_iff, requireUnreserved_run_iff,
      newFrame_run_iff] at h
    obtain ⟨_, _, ⟨-, rfl⟩, members, s₁, ⟨rfl, rfl⟩, tfields, s₂, hfields, signatures, s₃,
      hsignatures, tmethods, _, hmethods, rfl, rfl⟩ := h
    have hs₁ := (hs.newFrame none).mono (subset_known K [s.size])
    have hintro₂ := introduces_fields fields hs₁ hfields
    obtain ⟨hintro₃, hwithin⟩ := hintro₂.members hs hsignatures
    have hthis : s.size ∈ known K ([s.size] ++ identitiesOfFields tfields) :=
      mem_known_of_mem List.mem_cons_self
    have hintro₄ := introduces_methods methods hintro₃.closed (.object hthis) hwithin hmethods
    have hintro := hintro₃.trans hintro₄
    rw [List.append_assoc] at hintro
    exact ⟨hintro, .object (mem_known_of_mem (List.mem_append_left _ List.mem_cons_self))⟩

theorem introduces_exprs {f : FrameId} : ∀ {K : Set FrameId} {s t : Store Ty}
    {tes : List TypedExpr} (es : List Expr) {params : List Ty}, s.Closed K →
    exprs f es params s = .ok tes t → Introduces K (identitiesOfExprs tes) s t
  | K, s, t, tes, [], params, hs, h => by
    rw [exprs.eq_def] at h
    cases h
    exact .of_closed le_rfl hs
  | K, s, t, tes, _ :: _, [], hs, h => by
    rw [exprs.eq_def] at h
    cases h
    exact .of_closed le_rfl hs
  | K, s, t, tes, e :: rest, param :: params, hs, h => by
    simp only [exprs, bind_run_eq_ok_iff, pure_run_eq_ok_iff, requireSubtype_run_iff] at h
    obtain ⟨te, s₁, he, _, _, ⟨-, rfl⟩, trest, _, hrest, rfl, rfl⟩ := h
    obtain ⟨hintro, -⟩ := introduces_expr e hs he
    exact hintro.trans (introduces_exprs rest hintro.closed hrest)

theorem introduces_optionalExpr {f : FrameId} : ∀ {K : Set FrameId} {s t : Store Ty}
    {te : Option TypedExpr} (e : Option Expr), s.Closed K → optionalExpr f e s = .ok te t →
    Introduces K (identitiesOfOption te) s t ∧
      ∀ v ∈ te, v.ty.Within (known K (identitiesOfOption te))
  | K, s, t, te, none, hs, h => by
    rw [optionalExpr] at h
    cases h
    exact ⟨.of_closed le_rfl hs, by simp⟩
  | K, s, t, te, some e, hs, h => by
    simp only [optionalExpr, bind_run_eq_ok_iff, pure_run_eq_ok_iff] at h
    obtain ⟨te', _, he, rfl, rfl⟩ := h
    obtain ⟨hintro, hwithin⟩ := introduces_expr e hs he
    refine ⟨hintro, fun v hv => ?_⟩
    cases hv
    exact hwithin

theorem introduces_declaration {f : FrameId} : ∀ {K : Set FrameId} {s t : Store Ty}
    {td : TypedDeclaration} (d : Declaration), s.Closed K → declaration f d s = .ok td t →
    Introduces K td.identities s t ∧ td.ty.Within (known K td.identities)
  | K, s, t, td, ⟨name, typeName, value⟩, hs, h => by
    simp only [declaration, bind_run_eq_ok_iff, pure_run_eq_ok_iff] at h
    obtain ⟨declared, s₁, hdeclared, v, s₂, hvalue, ty, s₃, hty, rfl, rfl⟩ := h
    obtain ⟨-, rfl⟩ := declaredTy?_run_iff.mp hdeclared
    obtain ⟨-, -, rfl⟩ := bindingTy_run_iff.mp hty
    obtain ⟨hintro, hwithin⟩ := introduces_optionalExpr value hs hvalue
    exact ⟨hintro, within_of_declares (declares_iff.mpr ⟨declared, hdeclared, hty⟩) hwithin⟩

theorem introduces_fields {f members : FrameId} : ∀ {K : Set FrameId} {s t : Store Ty}
    {tfields : List TypedDeclaration} (fields : List Declaration), s.Closed K →
    objectFields f members fields s = .ok tfields t →
    Introduces K (identitiesOfFields tfields) s t
  | K, s, t, tfields, [], hs, h => by
    rw [objectFields] at h
    cases h
    exact .of_closed le_rfl hs
  | K, s, t, tfields, d :: rest, hs, h => by
    simp only [objectFields, bind_run_eq_ok_iff, pure_run_eq_ok_iff, requireFree_run_iff,
      define_run_iff] at h
    obtain ⟨_, _, ⟨-, rfl⟩, td, s₁, hd, _, _, ⟨-, rfl⟩, trest, _, hrest, rfl, rfl⟩ := h
    obtain ⟨hintro, hwithin⟩ := introduces_declaration d hs hd
    have hintro₁ := hintro.before (by simp)
      (hintro.closed.append members td.name hwithin)
    exact hintro₁.trans (introduces_fields rest hintro₁.closed hrest)

theorem introduces_methods {f : FrameId} {this : Ty} : ∀ {K : Set FrameId} {s t : Store Ty}
    {tmethods : List TypedDefinition} (methods : List Definition) {signatures : List Signature},
    s.Closed K → this.Within K → (∀ signature ∈ signatures, signature.Within K) →
    objectMethods f this methods signatures s = .ok tmethods t →
    Introduces K (identitiesOfMethods tmethods) s t
  | K, s, t, tmethods, [], signatures, hs, _, _, h => by
    rw [objectMethods.eq_def] at h
    cases h
    exact .of_closed le_rfl hs
  | K, s, t, tmethods, _ :: _, [], hs, _, _, h => by
    rw [objectMethods.eq_def] at h
    cases h
    exact .of_closed le_rfl hs
  | K, s, t, tmethods, d :: rest, signature :: signatures, hs, hthis, hwithin, h => by
    simp only [objectMethods, bind_run_eq_ok_iff, pure_run_eq_ok_iff] at h
    obtain ⟨td, s₁, hd, trest, _, hrest, rfl, rfl⟩ := h
    have hintro := introduces_definition d hs
      (fun ty hty => by cases hty; exact hthis) (hwithin _ List.mem_cons_self) hd
    refine hintro.trans (introduces_methods rest hintro.closed (hthis.mono (subset_known K _))
      (fun signature hmem => ?_) hrest)
    have hsignature := hwithin signature (List.mem_cons_of_mem _ hmem)
    exact ⟨fun p hp => (hsignature.parameters p hp).mono (subset_known K _),
      hsignature.returns.mono (subset_known K _)⟩

theorem introduces_definition {f : FrameId} {this : Option Ty} : ∀ {K : Set FrameId}
    {s t : Store Ty} {td : TypedDefinition} (d : Definition) {signature : Signature},
    s.Closed K → (∀ ty ∈ this, ty.Within K) → signature.Within K →
    definition f this d signature s = .ok td t → Introduces K td.identities s t
  | K, s, t, td, ⟨name, parameters, returnType, body⟩, signature, hs, hthis, hwithin, h => by
    simp only [definition, bind_run_eq_ok_iff, pure_run_eq_ok_iff, newFrame_run_iff] at h
    obtain ⟨frame, _, ⟨rfl, rfl⟩, _, s₁, hdefine, tbody, _, hbody, rfl, rfl⟩ := h
    obtain ⟨-, -, rfl⟩ := (defineAll_run_iff (by simp)).mp hdefine
    have hs₁ := (hs.newFrame (some f)).appendAll s.size (hwithin.bodyBindings hthis)
    exact (introduces_stmts body hs₁ hbody).after (by simp)

theorem introduces_stmt {f : FrameId} : ∀ {K : Set FrameId} {s t : Store Ty} {ts : TypedStmt}
    (st : Stmt), s.Closed K → stmt f st s = .ok ts t → Introduces K ts.identities s t
  | K, s, t, ts, .declare d, hs, h => by
    simp only [stmt, bind_run_eq_ok_iff, pure_run_eq_ok_iff, requireFree_run_iff,
      define_run_iff] at h
    obtain ⟨_, _, ⟨-, rfl⟩, td, s₁, hd, _, _, ⟨-, rfl⟩, rfl, rfl⟩ := h
    obtain ⟨hintro, hwithin⟩ := introduces_declaration d hs hd
    exact hintro.before (by simp) (hintro.closed.append f td.name hwithin)
  | K, s, t, ts, .define d, hs, h => by
    simp only [stmt, bind_run_eq_ok_iff, pure_run_eq_ok_iff, requireFree_run_iff,
      define_run_iff, signature_run_iff] at h
    obtain ⟨_, _, ⟨-, rfl⟩, signature, _, ⟨htypes, rfl⟩, _, _, ⟨-, rfl⟩, td, _, hd, rfl, rfl⟩ := h
    have hs₁ := hs.append f d.name htypes.within.ty
    exact (introduces_definition d hs₁ (by simp) htypes.within hd).after (by simp)
  | K, s, t, ts, .branch condition thenBody elseBody, hs, h => by
    simp only [stmt, bind_run_eq_ok_iff, pure_run_eq_ok_iff, requireSubtype_run_iff,
      newFrame_run_iff] at h
    obtain ⟨tcondition, s₁, hcondition, _, _, ⟨-, rfl⟩, _, _, ⟨rfl, rfl⟩, tthen, s₂, hthen, _, _,
      ⟨rfl, rfl⟩, telse, _, helse, rfl, rfl⟩ := h
    obtain ⟨hintro₁, -⟩ := introduces_expr condition hs hcondition
    have hintro₂ := introduces_stmts thenBody (hintro₁.closed.newFrame (some f)) hthen
    have hintro₃ := introduces_stmts elseBody (hintro₂.closed.newFrame (some f)) helse
    exact hintro₁.trans ((hintro₂.after (by simp)).trans (hintro₃.after (by simp)))
  | K, s, t, ts, .forEach name items body, hs, h => by
    simp only [stmt, bind_run_eq_ok_iff, pure_run_eq_ok_iff, requireSubtype_run_iff,
      newFrame_run_iff, define_run_iff] at h
    obtain ⟨titems, s₁, hitems, _, _, ⟨-, rfl⟩, _, _, ⟨rfl, rfl⟩, _, _, ⟨-, rfl⟩, tbody, _, hbody,
      rfl, rfl⟩ := h
    obtain ⟨hintro₁, -⟩ := introduces_expr items hs hitems
    have hinteger : Ty.integer.Within (known K titems.identities) := .of_objects rfl _
    have hs₁ := (hintro₁.closed.newFrame (some f)).append s₁.size name hinteger
    exact hintro₁.trans ((introduces_stmts body hs₁ hbody).after (by simp))
  | K, s, t, ts, .ret value, hs, h => by
    simp only [stmt, bind_run_eq_ok_iff, lookup?_run] at h
    obtain ⟨returns, _, hlookup, h⟩ := h
    cases hlookup
    cases hreturns : s.lookup f returnsName with
    | none =>
      rw [hreturns] at h
      cases h
    | some ty =>
      rw [hreturns] at h
      simp only [bind_run_eq_ok_iff, pure_run_eq_ok_iff, requireSubtype_run_iff] at h
      obtain ⟨tvalue, _, hvalue, _, _, ⟨-, rfl⟩, rfl, rfl⟩ := h
      exact (introduces_optionalExpr value hs hvalue).1
  | K, s, t, ts, .expression value, hs, h => by
    simp only [stmt, bind_run_eq_ok_iff, pure_run_eq_ok_iff] at h
    obtain ⟨tvalue, _, hvalue, rfl, rfl⟩ := h
    exact (introduces_expr value hs hvalue).1
  | K, s, t, ts, .assign (.variable name) value, hs, h => by
    simp only [stmt, bind_run_eq_ok_iff, pure_run_eq_ok_iff, lookup_run_iff,
      requireSubtype_run_iff] at h
    obtain ⟨ty, _, ⟨-, rfl⟩, tvalue, _, hvalue, _, _, ⟨-, rfl⟩, rfl, rfl⟩ := h
    exact (introduces_expr value hs hvalue).1
  | K, s, t, ts, .assign (.property receiver name) value, hs, h => by
    simp only [stmt, bind_run_eq_ok_iff, pure_run_eq_ok_iff, membersOf_run_iff, memberTy_run_iff,
      requireSubtype_run_iff] at h
    obtain ⟨treceiver, s₁, hreceiver, members, _, ⟨-, rfl⟩, ty, _, ⟨-, rfl⟩, tvalue, _, hvalue, _,
      _, ⟨-, rfl⟩, rfl, rfl⟩ := h
    obtain ⟨hintro, -⟩ := introduces_expr receiver hs hreceiver
    exact hintro.trans (introduces_expr value hintro.closed hvalue).1
  | K, s, t, ts, .assign (.literal _) _, _, h | K, s, t, ts, .assign (.group _) _, _, h
  | K, s, t, ts, .assign (.binary _ _ _) _, _, h | K, s, t, ts, .assign (.call _ _) _, _, h
  | K, s, t, ts, .assign (.method _ _ _) _, _, h
  | K, s, t, ts, .assign (.object _ _ _) _, _, h => by
    rw [stmt.eq_def] at h
    cases h

theorem introduces_stmts {f : FrameId} : ∀ {K : Set FrameId} {s t : Store Ty}
    {tbody : List TypedStmt} (body : List Stmt), s.Closed K → stmts f body s = .ok tbody t →
    Introduces K (identitiesOfStmts tbody) s t
  | K, s, t, tbody, [], hs, h => by
    rw [stmts] at h
    cases h
    exact .of_closed le_rfl hs
  | K, s, t, tbody, st :: rest, hs, h => by
    simp only [stmts, bind_run_eq_ok_iff, pure_run_eq_ok_iff] at h
    obtain ⟨ts, s₁, hst, trest, _, hrest, rfl, rfl⟩ := h
    have hintro := introduces_stmt st hs hst
    exact hintro.trans (introduces_stmts rest hintro.closed hrest)

end

end Check

end ObjectLang
