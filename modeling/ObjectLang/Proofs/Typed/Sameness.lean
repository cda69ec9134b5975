import ObjectLang.Proofs.Program.Decimals
import ObjectLang.Proofs.Typed.Erasure
import ObjectLang.Typed.Equality

/-!
# Typed programs that are the same tree

To be the same is to be equal but for decimals, which are compared as numbers. So a typed tree
without decimal literals is the same as another one if and only if the two are equal.
-/

namespace ObjectLang

theorem Literal.same_iff_eq {a : Literal} (ha : a.decimals = []) (b : Literal) :
    a.same b = true ↔ a = b := by
  cases a with
  | decimal d => cases ha
  | _ => exact beq_iff_eq

mutual

theorem TypedExpr.same_iff_eq : ∀ a b : TypedExpr, a.erase.decimals = [] →
    (a.same b = true ↔ a = b)
  | .literal value ty, b, ha => by
    cases b <;> simp [TypedExpr.same, Literal.same_iff_eq (a := value) ha]
  | .group inner, b, ha => by
    cases b <;> simp [TypedExpr.same, TypedExpr.same_iff_eq inner _ ha]
  | .binary op left right ty, b, ha => by
    obtain ⟨hleft, hright⟩ := List.append_eq_nil_iff.mp ha
    cases b <;> simp [TypedExpr.same, TypedExpr.same_iff_eq left _ hleft,
      TypedExpr.same_iff_eq right _ hright, and_assoc]
  | .variable name ty, b, _ => by
    cases b <;> simp [TypedExpr.same]
  | .property receiver name ty, b, ha => by
    cases b <;> simp [TypedExpr.same, TypedExpr.same_iff_eq receiver _ ha, and_assoc]
  | .call name arguments ty, b, ha => by
    cases b <;> simp [TypedExpr.same, TypedExpr.sameList_iff_eq arguments _ ha, and_assoc]
  | .method receiver name arguments ty, b, ha => by
    obtain ⟨hreceiver, harguments⟩ := List.append_eq_nil_iff.mp ha
    cases b <;> simp [TypedExpr.same, TypedExpr.same_iff_eq receiver _ hreceiver,
      TypedExpr.sameList_iff_eq arguments _ harguments, and_assoc]
  | .object name fields methods ty, b, ha => by
    obtain ⟨hfields, hmethods⟩ := List.append_eq_nil_iff.mp ha
    cases b <;> simp [TypedExpr.same, TypedDeclaration.sameList_iff_eq fields _ hfields,
      TypedDefinition.sameList_iff_eq methods _ hmethods, and_assoc]

theorem TypedExpr.sameList_iff_eq : ∀ as bs : List TypedExpr,
    Expr.decimalsOfList (eraseExprs as) = [] → (TypedExpr.sameList as bs = true ↔ as = bs)
  | [], bs, _ => by cases bs <;> simp [TypedExpr.sameList]
  | a :: as, bs, ha => by
    obtain ⟨ha, has⟩ := List.append_eq_nil_iff.mp ha
    cases bs <;> simp [TypedExpr.sameList, TypedExpr.same_iff_eq a _ ha,
      TypedExpr.sameList_iff_eq as _ has]

theorem TypedExpr.sameOption_iff_eq : ∀ a b : Option TypedExpr,
    Expr.decimalsOfOption (eraseOption a) = [] → (TypedExpr.sameOption a b = true ↔ a = b)
  | none, b, _ => by cases b <;> simp [TypedExpr.sameOption]
  | some a, b, ha => by
    cases b <;> simp [TypedExpr.sameOption, TypedExpr.same_iff_eq a _ ha]

theorem TypedDeclaration.same_iff_eq : ∀ a b : TypedDeclaration, a.erase.decimals = [] →
    (a.same b = true ↔ a = b)
  | ⟨name, ty, value⟩, b, ha => by
    cases b
    simp [TypedDeclaration.same, TypedExpr.sameOption_iff_eq value _ ha, and_assoc]

theorem TypedDeclaration.sameList_iff_eq : ∀ as bs : List TypedDeclaration,
    Declaration.decimalsOfList (eraseFields as) = [] →
    (TypedDeclaration.sameList as bs = true ↔ as = bs)
  | [], bs, _ => by cases bs <;> simp [TypedDeclaration.sameList]
  | a :: as, bs, ha => by
    obtain ⟨ha, has⟩ := List.append_eq_nil_iff.mp ha
    cases bs <;> simp [TypedDeclaration.sameList, TypedDeclaration.same_iff_eq a _ ha,
      TypedDeclaration.sameList_iff_eq as _ has]

theorem TypedDefinition.same_iff_eq : ∀ a b : TypedDefinition, a.erase.decimals = [] →
    (a.same b = true ↔ a = b)
  | ⟨name, parameters, returns, body⟩, b, ha => by
    cases b
    simp [TypedDefinition.same, TypedStmt.sameList_iff_eq body _ ha, and_assoc]

theorem TypedDefinition.sameList_iff_eq : ∀ as bs : List TypedDefinition,
    Definition.decimalsOfList (eraseMethods as) = [] →
    (TypedDefinition.sameList as bs = true ↔ as = bs)
  | [], bs, _ => by cases bs <;> simp [TypedDefinition.sameList]
  | a :: as, bs, ha => by
    obtain ⟨ha, has⟩ := List.append_eq_nil_iff.mp ha
    cases bs <;> simp [TypedDefinition.sameList, TypedDefinition.same_iff_eq a _ ha,
      TypedDefinition.sameList_iff_eq as _ has]

theorem TypedStmt.same_iff_eq : ∀ a b : TypedStmt, a.erase.decimals = [] →
    (a.same b = true ↔ a = b)
  | .declare d, b, ha => by
    cases b <;> simp [TypedStmt.same, TypedDeclaration.same_iff_eq d _ ha]
  | .define d, b, ha => by
    cases b <;> simp [TypedStmt.same, TypedDefinition.same_iff_eq d _ ha]
  | .branch condition thenBody elseBody, b, ha => by
    obtain ⟨hcondition, hbodies⟩ := List.append_eq_nil_iff.mp ha
    obtain ⟨hthen, helse⟩ := List.append_eq_nil_iff.mp hbodies
    cases b <;> simp [TypedStmt.same, TypedExpr.same_iff_eq condition _ hcondition,
      TypedStmt.sameList_iff_eq thenBody _ hthen, TypedStmt.sameList_iff_eq elseBody _ helse,
      and_assoc]
  | .forEach name ty items body, b, ha => by
    obtain ⟨hitems, hbody⟩ := List.append_eq_nil_iff.mp ha
    cases b <;> simp [TypedStmt.same, TypedExpr.same_iff_eq items _ hitems,
      TypedStmt.sameList_iff_eq body _ hbody, and_assoc]
  | .ret value, b, ha => by
    cases b <;> simp [TypedStmt.same, TypedExpr.sameOption_iff_eq value _ ha]
  | .expression value, b, ha => by
    cases b <;> simp [TypedStmt.same, TypedExpr.same_iff_eq value _ ha]
  | .assignVariable name ty value, b, ha => by
    cases b <;> simp [TypedStmt.same, TypedExpr.same_iff_eq value _ ha, and_assoc]
  | .assignProperty receiver name ty value, b, ha => by
    obtain ⟨hreceiver, hvalue⟩ := List.append_eq_nil_iff.mp ha
    cases b <;> simp [TypedStmt.same, TypedExpr.same_iff_eq receiver _ hreceiver,
      TypedExpr.same_iff_eq value _ hvalue, and_assoc]

theorem TypedStmt.sameList_iff_eq : ∀ as bs : List TypedStmt,
    Stmt.decimalsOfList (eraseStmts as) = [] → (TypedStmt.sameList as bs = true ↔ as = bs)
  | [], bs, _ => by cases bs <;> simp [TypedStmt.sameList]
  | a :: as, bs, ha => by
    obtain ⟨ha, has⟩ := List.append_eq_nil_iff.mp ha
    cases bs <;> simp [TypedStmt.sameList, TypedStmt.same_iff_eq a _ ha,
      TypedStmt.sameList_iff_eq as _ has]

end

/-- Without decimal literals, typed programs that are the same are equal. -/
theorem TypedProgram.same_iff_eq {p : TypedProgram} (hp : p.erase.decimals = [])
    (q : TypedProgram) : p.same q = true ↔ p = q := by
  cases p
  cases q
  rw [TypedProgram.same, TypedStmt.sameList_iff_eq _ _ hp, TypedProgram.mk.injEq]

end ObjectLang
