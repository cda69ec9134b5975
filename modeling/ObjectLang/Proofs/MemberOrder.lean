import Mathlib.Data.List.Perm.Basic
import ObjectLang.Proofs.Check.Members
import ObjectLang.Proofs.Scope.Owners
import ObjectLang.Proofs.TypeSystem

/-!
# The order of members

The fields of an object are typed around the object, and its methods are typed once all members have
their types. So the order of the members does not matter to the checker: it accepts an object with
its fields in another order, and its methods, if it accepts the object, and types every member as
before. The object type lists the members in the new order, and the object types that come up on the
way may get other numbers.
-/

namespace ObjectLang

/-! ## Tables that list members in another order -/

/-- Different names mean the same in every order. -/
theorem lookup_eq_of_perm {α : Type} {l l' : List (String × α)} (h : l.Perm l')
    (hnodup : (l.map Prod.fst).Nodup) (name : String) : l'.lookup name = l.lookup name := by
  have hnodup' : (l'.map Prod.fst).Nodup := (h.map Prod.fst).nodup_iff.mp hnodup
  cases hlookup : l.lookup name with
  | some a => exact lookup_eq_some_of_mem hnodup' (h.mem_iff.mp (mem_of_lookup_eq_some hlookup))
  | none =>
    cases hlookup' : l'.lookup name with
    | none => rfl
    | some a =>
      have hmem := h.mem_iff.mpr (mem_of_lookup_eq_some hlookup')
      rw [lookup_eq_some_of_mem hnodup hmem] at hlookup
      cases hlookup

variable {Δ Δ' : FrameId → List (String × Ty)} {Γ : Scope} {f : FrameId} {s t : Store Ty}

/-- The tables have the same members for every object type, perhaps in another order. -/
def SameMembers (Δ Δ' : FrameId → List (String × Ty)) : Prop :=
  ∀ o name, (Δ' o).lookup name = (Δ o).lookup name

theorem Scope.lookup_members_congr (h : SameMembers Δ Δ') (Γ : Scope) (o : FrameId)
    (name : String) : (Γ.members Δ' o).lookup name = (Γ.members Δ o).lookup name := by
  rw [members, members]
  cases Γ.find? (·.frame == some o) with
  | some level => rfl
  | none => exact h o name

mutual

/-- A derivation asks a table for members by name, except for the members of its own objects. -/
theorem TypesExpr.of_table (h : SameMembers Δ Δ') : ∀ {Γ : Scope} {te : TypedExpr} (e : Expr),
    TypesExpr Δ Γ e te → (∀ o ∈ te.identities, Δ' o = Δ o) → TypesExpr Δ' Γ e te
  | _, _, .literal value, .literal _, _ => .literal value
  | _, _, .group inner, .group hinner, hids => .group (hinner.of_table h inner hids)
  | _, _, .binary op left right, .binary hleft hright hop, hids => by
    refine .binary (hleft.of_table h left fun o ho => hids o ?_)
      (hright.of_table h right fun o ho => hids o ?_) hop
    · exact List.mem_append_left _ ho
    · exact List.mem_append_right _ ho
  | _, _, .variable name, .variable hty, _ => .variable hty
  | _, _, .property receiver name, .property hreceiver hobject hty, hids =>
    .property (hreceiver.of_table h receiver hids) hobject
      ((Scope.lookup_members_congr h _ _ _).trans hty)
  | _, _, .call name arguments, .call htarget harguments, hids =>
    .call htarget (harguments.of_table h arguments hids)
  | _, _, .method receiver name arguments, .method hreceiver hobject htarget harguments, hids => by
    refine .method (hreceiver.of_table h receiver fun o ho => hids o ?_) hobject
      ((Scope.lookup_members_congr h _ _ _).trans htarget)
      (harguments.of_table h arguments fun o ho => hids o ?_)
    · exact List.mem_append_left _ ho
    · exact List.mem_append_right _ ho
  | _, _, .object name fields methods, .object (o := o) hname hfields hmethods hΔ hnodup, hids => by
    have ho : Δ' o = Δ o := hids o (by simp [TypedExpr.identities, Ty.objects])
    refine .object hname (hfields.of_table h fields fun o' ho' => hids o' ?_)
      (hmethods.of_table h methods fun o' ho' => hids o' ?_) (ho.trans hΔ) (ho ▸ hnodup)
    · exact List.mem_append_right _ (List.mem_append_left _ ho')
    · exact List.mem_append_right _ (List.mem_append_right _ ho')

theorem TypesArguments.of_table (h : SameMembers Δ Δ') : ∀ {Γ : Scope} {params : List Ty}
    {tes : List TypedExpr} (es : List Expr), TypesArguments Δ Γ es params tes →
    (∀ o ∈ identitiesOfExprs tes, Δ' o = Δ o) → TypesArguments Δ' Γ es params tes
  | _, _, _, [], .nil, _ => .nil
  | _, _, _, e :: es, .cons he hbelow hes, hids => by
    refine .cons (he.of_table h e fun o ho => hids o ?_) hbelow
      (hes.of_table h es fun o ho => hids o ?_)
    · exact List.mem_append_left _ ho
    · exact List.mem_append_right _ ho

theorem TypesOption.of_table (h : SameMembers Δ Δ') : ∀ {Γ : Scope} {te : Option TypedExpr}
    (e : Option Expr), TypesOption Δ Γ e te → (∀ o ∈ identitiesOfOption te, Δ' o = Δ o) →
    TypesOption Δ' Γ e te
  | _, _, none, .none, _ => .none
  | _, _, some e, .some he, hids => .some (he.of_table h e hids)

theorem TypesDeclaration.of_table (h : SameMembers Δ Δ') : ∀ {Γ : Scope} {td : TypedDeclaration}
    (d : Declaration), TypesDeclaration Δ Γ d td → (∀ o ∈ td.identities, Δ' o = Δ o) →
    TypesDeclaration Δ' Γ d td
  | _, _, ⟨_, _, value⟩, .mk hvalue hdeclares, hids =>
    .mk (hvalue.of_table h value hids) hdeclares

theorem TypesFields.of_table (h : SameMembers Δ Δ') : ∀ {Γ : Scope}
    {tds : List TypedDeclaration} (ds : List Declaration), TypesFields Δ Γ ds tds →
    (∀ o ∈ identitiesOfFields tds, Δ' o = Δ o) → TypesFields Δ' Γ ds tds
  | _, _, [], .nil, _ => .nil
  | _, _, d :: ds, .cons hd hds, hids => by
    refine .cons (hd.of_table h d fun o ho => hids o ?_) (hds.of_table h ds fun o ho => hids o ?_)
    · exact List.mem_append_left _ ho
    · exact List.mem_append_right _ ho

theorem TypesMethods.of_table (h : SameMembers Δ Δ') : ∀ {Γ : Scope} {this : Ty}
    {tds : List TypedDefinition} (ds : List Definition), TypesMethods Δ Γ this ds tds →
    (∀ o ∈ identitiesOfMethods tds, Δ' o = Δ o) → TypesMethods Δ' Γ this ds tds
  | _, _, _, [], .nil, _ => .nil
  | _, _, _, d :: ds, .cons hd hds, hids => by
    refine .cons (hd.of_table h d fun o ho => hids o ?_) (hds.of_table h ds fun o ho => hids o ?_)
    · exact List.mem_append_left _ ho
    · exact List.mem_append_right _ ho

theorem TypesDefinition.of_table (h : SameMembers Δ Δ') : ∀ {Γ : Scope} {this : Option Ty}
    {td : TypedDefinition} (d : Definition), TypesDefinition Δ Γ this d td →
    (∀ o ∈ td.identities, Δ' o = Δ o) → TypesDefinition Δ' Γ this d td
  | _, _, _, ⟨_, _, _, body⟩, .mk hparameters hreturns hnodup hbody, hids =>
    .mk hparameters hreturns hnodup (hbody.of_table h body hids)

theorem TypesStmt.of_table (h : SameMembers Δ Δ') : ∀ {Γ : Scope} {ts : TypedStmt} (s : Stmt),
    TypesStmt Δ Γ s ts → (∀ o ∈ ts.identities, Δ' o = Δ o) → TypesStmt Δ' Γ s ts
  | _, _, .declare d, .declare hfree hd, hids => .declare hfree (hd.of_table h d hids)
  | _, _, .define d, .define hfree hd, hids => .define hfree (hd.of_table h d hids)
  | _, _, .branch condition thenBody elseBody, .branch hcondition hbelow hthen helse, hids => by
    refine .branch (hcondition.of_table h condition fun o ho => hids o ?_) hbelow
      (hthen.of_table h thenBody fun o ho => hids o ?_)
      (helse.of_table h elseBody fun o ho => hids o ?_)
    · exact List.mem_append_left _ ho
    · exact List.mem_append_right _ (List.mem_append_left _ ho)
    · exact List.mem_append_right _ (List.mem_append_right _ ho)
  | _, _, .forEach name items body, .forEach hitems hbelow hbody, hids => by
    refine .forEach (hitems.of_table h items fun o ho => hids o ?_) hbelow
      (hbody.of_table h body fun o ho => hids o ?_)
    · exact List.mem_append_left _ ho
    · exact List.mem_append_right _ ho
  | _, _, .ret value, .ret hreturns hvalue hbelow, hids =>
    .ret hreturns (hvalue.of_table h value hids) hbelow
  | _, _, .expression value, .expression hvalue, hids => .expression (hvalue.of_table h value hids)
  | _, _, .assign (.variable _) value, .assignVariable hty hvalue hbelow, hids =>
    .assignVariable hty (hvalue.of_table h value hids) hbelow
  | _, _, .assign (.property receiver name) value,
    .assignProperty hreceiver hobject hty hvalue hbelow, hids => by
    refine .assignProperty (hreceiver.of_table h receiver fun o ho => hids o ?_) hobject
      ((Scope.lookup_members_congr h _ _ _).trans hty)
      (hvalue.of_table h value fun o ho => hids o ?_) hbelow
    · exact List.mem_append_left _ ho
    · exact List.mem_append_right _ ho

theorem TypesStmts.of_table (h : SameMembers Δ Δ') : ∀ {Γ : Scope} {ts : List TypedStmt}
    (body : List Stmt), TypesStmts Δ Γ body ts → (∀ o ∈ identitiesOfStmts ts, Δ' o = Δ o) →
    TypesStmts Δ' Γ body ts
  | _, _, [], .nil, _ => .nil
  | _, _, s :: rest, .cons hs hrest, hids => by
    refine .cons (hs.of_table h s fun o ho => hids o ?_)
      (hrest.of_table h rest fun o ho => hids o ?_)
    · exact List.mem_append_left _ ho
    · exact List.mem_append_right _ ho

end

/-! ## Lists in another order -/

section

variable {α β γ : Type} {l l' : List α} {r r' : List β}

/-- The second list is the first one in another order, and what is made of its items is in that
order too. -/
structure Reordered (l : List α) (r : List β) (l' : List α) (r' : List β) : Prop where
  length_eq : r.length = l.length
  length_eq' : r'.length = l'.length
  perm : (l.zip r).Perm (l'.zip r')

namespace Reordered

theorem right (h : Reordered l r l' r') : r.Perm r' := by
  have hmap := h.perm.map Prod.snd
  rwa [List.map_snd_zip h.length_eq.le, List.map_snd_zip h.length_eq'.le] at hmap

theorem cons (h : Reordered l r l' r') (a : α) (b : β) :
    Reordered (a :: l) (b :: r) (a :: l') (b :: r') :=
  ⟨congrArg (· + 1) h.length_eq, congrArg (· + 1) h.length_eq', h.perm.cons (a, b)⟩

theorem map (h : Reordered l r l' r') (k : β → γ) : Reordered l (r.map k) l' (r'.map k) := by
  refine ⟨by rw [List.length_map, h.length_eq], by rw [List.length_map, h.length_eq'], ?_⟩
  rw [List.zip_map_right, List.zip_map_right]
  exact h.perm.map _

end Reordered

/-- What holds of the items in one order holds of them in every order. -/
theorem exists_reordered {R : α → β → Prop} (h : List.Forall₂ R l r) (hp : l.Perm l') :
    ∃ r', List.Forall₂ R l' r' ∧ Reordered l r l' r' := by
  induction hp generalizing r with
  | nil =>
    cases h
    exact ⟨[], .nil, rfl, rfl, .nil⟩
  | cons a _ ih =>
    cases h with
    | cons hab hrest =>
      obtain ⟨r', hr', hreordered⟩ := ih hrest
      exact ⟨_ :: r', .cons hab hr', hreordered.cons a _⟩
  | swap a a' l =>
    cases h with
    | cons hab hrest =>
      cases hrest with
      | cons hab' hrest' =>
        have hlength := congrArg (· + 2) hrest'.length_eq.symm
        exact ⟨_, .cons hab' (.cons hab hrest'), hlength, hlength, .swap _ _ _⟩
  | trans _ _ ih ih' =>
    obtain ⟨r₁, hr₁, hfirst⟩ := ih h
    obtain ⟨r₂, hr₂, hsecond⟩ := ih' hr₁
    exact ⟨r₂, hr₂, hfirst.length_eq, hsecond.length_eq', hfirst.perm.trans hsecond.perm⟩

end

theorem typesFields_iff {ds : List Declaration} {tds : List TypedDeclaration} :
    TypesFields Δ Γ ds tds ↔ List.Forall₂ (TypesDeclaration Δ Γ) ds tds := by
  constructor
  · intro h
    induction ds generalizing tds with
    | nil =>
      cases h
      exact .nil
    | cons d ds ih =>
      cases h with
      | cons hd hds => exact .cons hd (ih hds)
  · intro h
    induction h with
    | nil => exact .nil
    | cons hd _ ih => exact .cons hd ih

theorem typesMethods_iff {this : Ty} {ds : List Definition} {tds : List TypedDefinition} :
    TypesMethods Δ Γ this ds tds ↔ List.Forall₂ (TypesDefinition Δ Γ (some this)) ds tds := by
  constructor
  · intro h
    induction ds generalizing tds with
    | nil =>
      cases h
      exact .nil
    | cons d ds ih =>
      cases h with
      | cons hd hds => exact .cons hd (ih hds)
  · intro h
    induction h with
    | nil => exact .nil
    | cons hd _ ih => exact .cons hd ih

theorem identitiesOfFields_eq (ds : List TypedDeclaration) :
    identitiesOfFields ds = ds.flatMap (·.identities) := by
  induction ds with
  | nil => rfl
  | cons d ds ih => rw [identitiesOfFields, ih, List.flatMap_cons]

theorem identitiesOfMethods_eq (ds : List TypedDefinition) :
    identitiesOfMethods ds = ds.flatMap (·.identities) := by
  induction ds with
  | nil => rfl
  | cons d ds ih => rw [identitiesOfMethods, ih, List.flatMap_cons]

theorem renameFields_eq (ρ : FrameId → FrameId) (ds : List TypedDeclaration) :
    renameFields ρ ds = ds.map (·.rename ρ) := by
  induction ds with
  | nil => rfl
  | cons d ds ih => rw [renameFields, ih, List.map_cons]

theorem renameMethods_eq (ρ : FrameId → FrameId) (ds : List TypedDefinition) :
    renameMethods ρ ds = ds.map (·.rename ρ) := by
  induction ds with
  | nil => rfl
  | cons d ds ih => rw [renameMethods, ih, List.map_cons]

/-! ## Objects in another order -/

section

variable {name : Option String} {o : FrameId} {fields fields' : List Declaration}
  {methods methods' : List Definition} {tfields : List TypedDeclaration}
  {tmethods : List TypedDefinition}

/-- A well-typed object is well-typed with its members in another order, by a table that differs
from the first one in the order of these members only. -/
theorem TypesExpr.reorder
    (h : TypesExpr Δ Γ (.object name fields methods) (.object name tfields tmethods (.object o)))
    (hids : (TypedExpr.object name tfields tmethods (.object o)).identities.Nodup)
    (hfields : fields.Perm fields') (hmethods : methods.Perm methods') :
    ∃ Δ' tfields' tmethods', (∀ o' ≠ o, Δ' o' = Δ o') ∧
      TypesExpr Δ' Γ (.object name fields' methods') (.object name tfields' tmethods' (.object o)) ∧
      Reordered fields tfields fields' tfields' ∧
      Reordered methods tmethods methods' tmethods' := by
  cases h with
  | object hname htfields htmethods hΔ hnodup =>
  obtain ⟨tfields', htfields', hfieldOrder⟩ :=
    exists_reordered (typesFields_iff.mp htfields) hfields
  obtain ⟨tmethods', htmethods', hmethodOrder⟩ :=
    exists_reordered (typesMethods_iff.mp htmethods) hmethods
  have hmembers : (memberBindings tfields tmethods).Perm (memberBindings tfields' tmethods') :=
    (hfieldOrder.right.map _).append (hmethodOrder.right.map _)
  let Δ' := Function.update Δ o (memberBindings tfields' tmethods')
  have hother (o' : FrameId) (ho' : o' ≠ o) : Δ' o' = Δ o' := Function.update_of_ne ho' _ _
  have hown : Δ' o = memberBindings tfields' tmethods' := Function.update_self o _ _
  have hsame : SameMembers Δ Δ' := by
    intro o' n
    by_cases ho' : o' = o
    · rw [ho', hown, hΔ]
      exact lookup_eq_of_perm hmembers (hΔ ▸ hnodup) n
    · rw [hother o' ho']
  -- the identity of the object is not one of those in its members
  have hinner : o ∉ identitiesOfFields tfields' ++ identitiesOfMethods tmethods' := by
    have hperm : (identitiesOfFields tfields ++ identitiesOfMethods tmethods).Perm
        (identitiesOfFields tfields' ++ identitiesOfMethods tmethods') := by
      rw [identitiesOfFields_eq, identitiesOfFields_eq, identitiesOfMethods_eq,
        identitiesOfMethods_eq]
      exact (hfieldOrder.right.flatMap_right _).append (hmethodOrder.right.flatMap_right _)
    rw [← hperm.mem_iff]
    exact (List.nodup_cons.mp hids).1
  refine ⟨Δ', tfields', tmethods', hother, .object hname ?_ ?_ hown ?_, hfieldOrder, hmethodOrder⟩
  · refine (typesFields_iff.mpr htfields').of_table hsame fields' fun o' ho' => hother o' ?_
    rintro rfl
    exact hinner (List.mem_append_left _ ho')
  · refine (typesMethods_iff.mpr htmethods').of_table hsame methods' fun o' ho' => hother o' ?_
    rintro rfl
    exact hinner (List.mem_append_right _ ho')
  · rw [hown]
    exact (hmembers.map Prod.fst).nodup_iff.mp (hΔ ▸ hnodup)

namespace Check

/-- An object that is accepted is accepted with its members in another order. -/
theorem reordered_eq_ok (hf : f < s.size) (hs : s.WellFormed) (hfields : fields.Perm fields')
    (hmethods : methods.Perm methods')
    (h : expr f (.object name fields methods) s =
      .ok (.object name tfields tmethods (.object s.size)) t) :
    ∃ (ρ : Equiv.Perm FrameId) (tfields' : List TypedDeclaration)
      (tmethods' : List TypedDefinition) (t' : Store Ty), (∀ o ≤ s.size, ρ o = o) ∧
      expr f (.object name fields' methods') s =
        .ok (.object name tfields' tmethods' (.object s.size)) t' ∧
      t'.bindings s.size = memberBindings tfields' tmethods' ∧
      Reordered fields (renameFields ρ tfields) fields' tfields' ∧
      Reordered methods (renameMethods ρ tmethods) methods' tmethods' := by
  obtain ⟨Δ, hold, hsettled⟩ := exists_table (f := f) ((confined.expr f _).grows h) (by simp)
    (TypedExpr.object name tfields tmethods (.object s.size)).identities
  obtain ⟨hintro, -⟩ := introduces_expr _ hs h
  have htypes := sound_expr _ (sees_of_wellFormed hf hs) hsettled h
  obtain ⟨Δ', tfields', tmethods', hother, htypes', hfieldOrder, hmethodOrder⟩ :=
    htypes.reorder hintro.nodup hfields hmethods
  have hold' (o : FrameId) (ho : o < s.size) : Δ' o = s.bindings o :=
    (hother o ho.ne).trans (hold o ho)
  have hids : (TypedExpr.object name tfields tmethods (.object s.size)).identities.Perm
      (TypedExpr.object name tfields' tmethods' (.object s.size)).identities := by
    simp only [TypedExpr.identities, identitiesOfFields_eq, identitiesOfMethods_eq]
    exact .append_left _ ((hfieldOrder.right.flatMap_right _).append
      (hmethodOrder.right.flatMap_right _))
  have hfresh : Fresh {o | o < s.size}
      (TypedExpr.object name tfields' tmethods' (.object s.size)).identities :=
    ⟨hids.nodup_iff.mp hintro.nodup, fun o ho hlt =>
      absurd (hintro.fresh o (hids.mem_iff.mpr ho)).1 (Nat.not_le_of_lt hlt)⟩
  obtain ⟨ρ, t', hρ, -, hrun⟩ := complete_expr _ htypes' (realizes_start hf hs hold') hfresh
  have hrun' := hrun ρ (Set.eqOn_refl _ _)
  obtain ⟨tfields₁, tmethods₁, heq, hmembers⟩ := object_eq_ok hrun'
  rw [heq] at hrun'
  simp only [TypedExpr.rename, TypedExpr.object.injEq, true_and] at heq
  obtain ⟨rfl, rfl, hsize⟩ := heq
  refine ⟨ρ, _, _, t', fun o ho => ?_, hrun', hmembers.bindings_eq, ?_, ?_⟩
  · rcases Nat.lt_or_eq_of_le ho with hlt | rfl
    · exact (hρ hlt).symm
    · exact Ty.object.inj hsize
  · rw [renameFields_eq, renameFields_eq]
    exact hfieldOrder.map _
  · rw [renameMethods_eq, renameMethods_eq]
    exact hmethodOrder.map _

/-- The order of the fields of an object, and that of its methods, does not decide whether it is
accepted. In every order the fields and the methods are typed alike, but for the numbers of the
object types in them, and the object type lists them in that order. -/
theorem object_members_reordered (hf : f < s.size) (hs : s.WellFormed)
    (hfields : fields.Perm fields') (hmethods : methods.Perm methods') :
    (expr f (.object name fields methods) s).isOk =
      (expr f (.object name fields' methods') s).isOk ∧
    ∀ te t, expr f (.object name fields methods) s = .ok te t →
      ∃ tfields tmethods, te = .object name tfields tmethods (.object s.size) ∧
        t.bindings s.size = memberBindings tfields tmethods ∧
        ∃ (ρ : Equiv.Perm FrameId) (tfields' : List TypedDeclaration)
          (tmethods' : List TypedDefinition) (t' : Store Ty), (∀ o ≤ s.size, ρ o = o) ∧
          expr f (.object name fields' methods') s =
            .ok (.object name tfields' tmethods' (.object s.size)) t' ∧
          t'.bindings s.size = memberBindings tfields' tmethods' ∧
          Reordered fields (renameFields ρ tfields) fields' tfields' ∧
          Reordered methods (renameMethods ρ tmethods) methods' tmethods' := by
  refine ⟨Bool.eq_iff_iff.mpr ⟨fun h => ?_, fun h => ?_⟩, fun te t h => ?_⟩
  · obtain ⟨te, t, h⟩ := EStateM.Result.isOk_iff.mp h
    obtain ⟨tfields, tmethods, rfl, -⟩ := object_eq_ok h
    obtain ⟨ρ, _, _, t', -, hrun, -⟩ := reordered_eq_ok hf hs hfields hmethods h
    exact EStateM.Result.isOk_iff.mpr ⟨_, t', hrun⟩
  · obtain ⟨te, t, h⟩ := EStateM.Result.isOk_iff.mp h
    obtain ⟨tfields, tmethods, rfl, -⟩ := object_eq_ok h
    obtain ⟨ρ, _, _, t', -, hrun, -⟩ := reordered_eq_ok hf hs hfields.symm hmethods.symm h
    exact EStateM.Result.isOk_iff.mpr ⟨_, t', hrun⟩
  · obtain ⟨tfields, tmethods, rfl, hmembers⟩ := object_eq_ok h
    exact ⟨tfields, tmethods, rfl, hmembers.bindings_eq,
      reordered_eq_ok hf hs hfields hmethods h⟩

end Check

end

/-- Two fields that hold objects of the same shape, and a limit. -/
def gaugeFields : List Declaration :=
  [⟨"low", none, some (.object none [⟨"at", none, some (.literal (.integer 1))⟩] [])⟩,
   ⟨"high", none, some (.object none [⟨"at", none, some (.literal (.integer 9))⟩] [])⟩,
   ⟨"limit", some "Integer", some (.literal (.integer 5))⟩]

/-- The first method calls the one after it, which calls the first one. -/
def gaugeMethods : List Definition :=
  [⟨"covers", [⟨"n", some "Integer"⟩], some "Boolean",
     [.ret (some (.method (.variable "this") "within" [.variable "n"]))]⟩,
   ⟨"within", [⟨"n", some "Integer"⟩], some "Boolean",
     [.branch (.binary .lessEq (.variable "n") (.property (.variable "this") "limit"))
       [.ret (some (.literal (.boolean true)))]
       [.ret (some (.method (.variable "this") "covers"
         [.property (.property (.variable "this") "low") "at"]))]]⟩]

/-- Reversing the fields exchanges the numbers of the two inner object types. -/
theorem Check.object_members_reordered_gauge :
    1 < isolatedTypes.size ∧ isolatedTypes.WellFormed ∧
    gaugeFields.Perm gaugeFields.reverse ∧ gaugeMethods.Perm gaugeMethods.reverse ∧
    ∃ tfields tmethods t, expr 1 (.object none gaugeFields gaugeMethods) isolatedTypes =
        .ok (.object none tfields tmethods (.object 2)) t ∧
      ∃ (ρ : Equiv.Perm FrameId) (tfields' : List TypedDeclaration)
        (tmethods' : List TypedDefinition) (t' : Store Ty), (∀ o ≤ 2, ρ o = o) ∧
        expr 1 (.object none gaugeFields.reverse gaugeMethods.reverse) isolatedTypes =
          .ok (.object none tfields' tmethods' (.object 2)) t' ∧
        Reordered gaugeFields (renameFields ρ tfields) gaugeFields.reverse tfields' ∧
        Reordered gaugeMethods (renameMethods ρ tmethods) gaugeMethods.reverse tmethods' := by
  have hf : 1 < isolatedTypes.size := by decide
  have hs := wellFormed_isolatedTypes
  have hfields : gaugeFields.Perm gaugeFields.reverse := (List.reverse_perm _).symm
  have hmethods : gaugeMethods.Perm gaugeMethods.reverse := (List.reverse_perm _).symm
  have hok : (expr 1 (.object none gaugeFields gaugeMethods) isolatedTypes).isOk = true := by
    decide +kernel
  obtain ⟨te, t, h⟩ := EStateM.Result.isOk_iff.mp hok
  obtain ⟨tfields, tmethods, rfl, -, ρ, tfields', tmethods', t', hρ, hrun, -, hreordered⟩ :=
    (object_members_reordered hf hs hfields hmethods).2 te t h
  exact ⟨hf, hs, hfields, hmethods, tfields, tmethods, t, h, ρ, tfields', tmethods', t', hρ, hrun,
    hreordered⟩

end ObjectLang
