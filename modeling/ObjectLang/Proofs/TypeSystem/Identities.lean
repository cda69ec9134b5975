import Mathlib.Data.Set.Function
import ObjectLang.Typed.Basic

/-!
# Identities of object types

An object type is the frame of its members, so a typed program depends on the numbers that the
frames of its objects happen to have. Renaming gives these frames other numbers, in types and in
typed trees.
-/

namespace ObjectLang

/-! ## Types -/

namespace Ty

mutual

/-- The frames of the object types that occur in a type. -/
def objects : Ty → List FrameId
  | .function params returns => objectsOf params ++ returns.objects
  | .object o => [o]
  | _ => []

/-- The frames of the object types that occur in types. -/
def objectsOf : List Ty → List FrameId
  | [] => []
  | t :: ts => t.objects ++ objectsOf ts

end

mutual

/-- The type with other numbers for frames. -/
def rename (ρ : FrameId → FrameId) : Ty → Ty
  | .function params returns => .function (renameAll ρ params) (returns.rename ρ)
  | .object o => .object (ρ o)
  | .any => .any
  | .nil => .nil
  | .boolean => .boolean
  | .integer => .integer
  | .decimal => .decimal
  | .string => .string
  | .comparable => .comparable
  | .equatable => .equatable
  | .iterable => .iterable

/-- The types with other numbers for frames. -/
def renameAll (ρ : FrameId → FrameId) : List Ty → List Ty
  | [] => []
  | t :: ts => t.rename ρ :: renameAll ρ ts

end

mutual

theorem objects_rename (ρ : FrameId → FrameId) : ∀ t : Ty, (t.rename ρ).objects = t.objects.map ρ
  | .function params returns => by
    rw [rename, objects, objects, List.map_append, objectsOf_renameAll ρ params,
      objects_rename ρ returns]
  | .object _ | .any | .nil | .boolean | .integer | .decimal | .string | .comparable | .equatable
  | .iterable => rfl

theorem objectsOf_renameAll (ρ : FrameId → FrameId) :
    ∀ ts : List Ty, objectsOf (renameAll ρ ts) = (objectsOf ts).map ρ
  | [] => rfl
  | t :: ts => by
    rw [renameAll, objectsOf, objectsOf, List.map_append, objects_rename ρ t,
      objectsOf_renameAll ρ ts]

end

mutual

theorem rename_congr {ρ ρ' : FrameId → FrameId} :
    ∀ {t : Ty}, (∀ o ∈ t.objects, ρ o = ρ' o) → t.rename ρ = t.rename ρ'
  | .function params returns, h => by
    simp only [objects, List.mem_append] at h
    rw [rename, rename, renameAll_congr fun o ho => h o (.inl ho),
      rename_congr fun o ho => h o (.inr ho)]
  | .object o, h => by
    rw [rename, rename, h o List.mem_cons_self]
  | .any, _ | .nil, _ | .boolean, _ | .integer, _ | .decimal, _ | .string, _ | .comparable, _
  | .equatable, _ | .iterable, _ => rfl

theorem renameAll_congr {ρ ρ' : FrameId → FrameId} :
    ∀ {ts : List Ty}, (∀ o ∈ objectsOf ts, ρ o = ρ' o) → renameAll ρ ts = renameAll ρ' ts
  | [], _ => rfl
  | t :: ts, h => by
    simp only [objectsOf, List.mem_append] at h
    rw [renameAll, renameAll, rename_congr fun o ho => h o (.inl ho),
      renameAll_congr fun o ho => h o (.inr ho)]

end

mutual

theorem rename_id : ∀ t : Ty, t.rename id = t
  | .function params returns => by rw [rename, renameAll_id params, rename_id returns]
  | .object _ | .any | .nil | .boolean | .integer | .decimal | .string | .comparable | .equatable
  | .iterable => rfl

theorem renameAll_id : ∀ ts : List Ty, renameAll id ts = ts
  | [] => rfl
  | t :: ts => by rw [renameAll, rename_id t, renameAll_id ts]

end

theorem length_renameAll (ρ : FrameId → FrameId) (ts : List Ty) :
    (renameAll ρ ts).length = ts.length := by
  induction ts with
  | nil => rfl
  | cons t ts ih => rw [renameAll, List.length_cons, List.length_cons, ih]

theorem mem_objectsOf {o : FrameId} {ts : List Ty} :
    o ∈ objectsOf ts ↔ ∃ t ∈ ts, o ∈ t.objects := by
  induction ts with
  | nil => simp [objectsOf]
  | cons t ts ih => simp [objectsOf, ih]

/-- A predefined type is about no frame. -/
theorem rename_of_name? {t : Ty} {name : String} (h : t.name? = some name)
    (ρ : FrameId → FrameId) : t.rename ρ = t := by
  cases t <;> first | rfl | cases h

/-- The object types that occur in the type are among those in `K`. -/
def Within (K : Set FrameId) (t : Ty) : Prop := ∀ o ∈ t.objects, o ∈ K

namespace Within

variable {K K' : Set FrameId} {t : Ty}

theorem mono (h : t.Within K) (hK : K ⊆ K') : t.Within K' := fun o ho => hK (h o ho)

theorem object {o : FrameId} (ho : o ∈ K) : (Ty.object o).Within K := by
  intro o' ho'
  rw [objects, List.mem_singleton] at ho'
  exact ho' ▸ ho

theorem of_object {o : FrameId} (h : (Ty.object o).Within K) : o ∈ K :=
  h o List.mem_cons_self

theorem returns {params : List Ty} {returns : Ty} (h : (Ty.function params returns).Within K) :
    returns.Within K :=
  fun o ho => h o (List.mem_append_right _ ho)

theorem of_objects (h : t.objects = []) (K : Set FrameId) : t.Within K := by
  intro o ho
  rw [h] at ho
  cases ho

/-- A predefined type is about no frame. -/
theorem of_name? {name : String} (h : t.name? = some name) (K : Set FrameId) : t.Within K := by
  cases t with
  | function => cases h
  | object => cases h
  | _ => exact of_objects rfl K

theorem function {params : List Ty} {returns : Ty} (hparams : ∀ p ∈ params, p.Within K)
    (hreturns : returns.Within K) : (Ty.function params returns).Within K := by
  intro o ho
  rcases List.mem_append.mp ho with ho | ho
  · obtain ⟨p, hp, ho⟩ := mem_objectsOf.mp ho
    exact hparams p hp o ho
  · exact hreturns o ho

end Within

end Ty

/-! ## Bindings -/

/-- The bindings with other numbers for frames. -/
def renameBindings (ρ : FrameId → FrameId) (bindings : List (String × Ty)) : List (String × Ty) :=
  bindings.map fun b => (b.1, b.2.rename ρ)

theorem renameBindings_fst (ρ : FrameId → FrameId) (bindings : List (String × Ty)) :
    (renameBindings ρ bindings).map Prod.fst = bindings.map Prod.fst := by
  rw [renameBindings, List.map_map]
  rfl

theorem lookup_renameBindings (ρ : FrameId → FrameId) (bindings : List (String × Ty))
    (name : String) :
    (renameBindings ρ bindings).lookup name = (bindings.lookup name).map (Ty.rename ρ) := by
  induction bindings with
  | nil => rfl
  | cons b rest ih =>
    rw [renameBindings, List.map_cons, List.lookup_cons, List.lookup_cons]
    split
    · rfl
    · exact ih

/-! ## Typed trees -/

/-- The parameter with other numbers for frames. -/
def TypedParameter.rename (ρ : FrameId → FrameId) (p : TypedParameter) : TypedParameter :=
  ⟨p.name, p.ty.rename ρ⟩

mutual

/-- The expression with other numbers for frames. -/
def TypedExpr.rename (ρ : FrameId → FrameId) : TypedExpr → TypedExpr
  | .literal value ty => .literal value (ty.rename ρ)
  | .group inner => .group (inner.rename ρ)
  | .binary op left right ty => .binary op (left.rename ρ) (right.rename ρ) (ty.rename ρ)
  | .variable name ty => .variable name (ty.rename ρ)
  | .property receiver name ty => .property (receiver.rename ρ) name (ty.rename ρ)
  | .call name arguments ty => .call name (renameExprs ρ arguments) (ty.rename ρ)
  | .method receiver name arguments ty =>
    .method (receiver.rename ρ) name (renameExprs ρ arguments) (ty.rename ρ)
  | .object name fields methods ty =>
    .object name (renameFields ρ fields) (renameMethods ρ methods) (ty.rename ρ)

def renameExprs (ρ : FrameId → FrameId) : List TypedExpr → List TypedExpr
  | [] => []
  | e :: rest => e.rename ρ :: renameExprs ρ rest

def renameOption (ρ : FrameId → FrameId) : Option TypedExpr → Option TypedExpr
  | none => none
  | some e => some (e.rename ρ)

/-- The declaration with other numbers for frames. -/
def TypedDeclaration.rename (ρ : FrameId → FrameId) : TypedDeclaration → TypedDeclaration
  | ⟨name, ty, value⟩ => ⟨name, ty.rename ρ, renameOption ρ value⟩

def renameFields (ρ : FrameId → FrameId) : List TypedDeclaration → List TypedDeclaration
  | [] => []
  | d :: rest => d.rename ρ :: renameFields ρ rest

/-- The function or method with other numbers for frames. -/
def TypedDefinition.rename (ρ : FrameId → FrameId) : TypedDefinition → TypedDefinition
  | ⟨name, parameters, returns, body⟩ =>
    ⟨name, parameters.map (·.rename ρ), returns.rename ρ, renameStmts ρ body⟩

def renameMethods (ρ : FrameId → FrameId) : List TypedDefinition → List TypedDefinition
  | [] => []
  | d :: rest => d.rename ρ :: renameMethods ρ rest

/-- The statement with other numbers for frames. -/
def TypedStmt.rename (ρ : FrameId → FrameId) : TypedStmt → TypedStmt
  | .declare d => .declare (d.rename ρ)
  | .define d => .define (d.rename ρ)
  | .branch condition thenBody elseBody =>
    .branch (condition.rename ρ) (renameStmts ρ thenBody) (renameStmts ρ elseBody)
  | .forEach name ty items body =>
    .forEach name (ty.rename ρ) (items.rename ρ) (renameStmts ρ body)
  | .ret value => .ret (renameOption ρ value)
  | .expression value => .expression (value.rename ρ)
  | .assignVariable name ty value => .assignVariable name (ty.rename ρ) (value.rename ρ)
  | .assignProperty receiver name ty value =>
    .assignProperty (receiver.rename ρ) name (ty.rename ρ) (value.rename ρ)

def renameStmts (ρ : FrameId → FrameId) : List TypedStmt → List TypedStmt
  | [] => []
  | s :: rest => s.rename ρ :: renameStmts ρ rest

end

/-- The program with other numbers for frames. -/
def TypedProgram.rename (ρ : FrameId → FrameId) (p : TypedProgram) : TypedProgram :=
  ⟨renameStmts ρ p.statements⟩

mutual

/-- The frames of the object literals in the expression. -/
def TypedExpr.identities : TypedExpr → List FrameId
  | .literal _ _ => []
  | .group inner => inner.identities
  | .binary _ left right _ => left.identities ++ right.identities
  | .variable _ _ => []
  | .property receiver _ _ => receiver.identities
  | .call _ arguments _ => identitiesOfExprs arguments
  | .method receiver _ arguments _ => receiver.identities ++ identitiesOfExprs arguments
  | .object _ fields methods ty =>
    ty.objects ++ (identitiesOfFields fields ++ identitiesOfMethods methods)

def identitiesOfExprs : List TypedExpr → List FrameId
  | [] => []
  | e :: rest => e.identities ++ identitiesOfExprs rest

def identitiesOfOption : Option TypedExpr → List FrameId
  | none => []
  | some e => e.identities

/-- The frames of the object literals in the declaration. -/
def TypedDeclaration.identities : TypedDeclaration → List FrameId
  | ⟨_, _, value⟩ => identitiesOfOption value

def identitiesOfFields : List TypedDeclaration → List FrameId
  | [] => []
  | d :: rest => d.identities ++ identitiesOfFields rest

/-- The frames of the object literals in the function or method. -/
def TypedDefinition.identities : TypedDefinition → List FrameId
  | ⟨_, _, _, body⟩ => identitiesOfStmts body

def identitiesOfMethods : List TypedDefinition → List FrameId
  | [] => []
  | d :: rest => d.identities ++ identitiesOfMethods rest

/-- The frames of the object literals in the statement. -/
def TypedStmt.identities : TypedStmt → List FrameId
  | .declare d => d.identities
  | .define d => d.identities
  | .branch condition thenBody elseBody =>
    condition.identities ++ (identitiesOfStmts thenBody ++ identitiesOfStmts elseBody)
  | .forEach _ _ items body => items.identities ++ identitiesOfStmts body
  | .ret value => identitiesOfOption value
  | .expression value => value.identities
  | .assignVariable _ _ value => value.identities
  | .assignProperty receiver _ _ value => receiver.identities ++ value.identities

def identitiesOfStmts : List TypedStmt → List FrameId
  | [] => []
  | s :: rest => s.identities ++ identitiesOfStmts rest

end

mutual

theorem TypedExpr.identities_rename (ρ : FrameId → FrameId) :
    ∀ e : TypedExpr, (e.rename ρ).identities = e.identities.map ρ
  | .literal _ _ | .variable _ _ => rfl
  | .group inner => by
    rw [TypedExpr.rename, TypedExpr.identities, TypedExpr.identities, inner.identities_rename ρ]
  | .binary _ left right _ => by
    rw [TypedExpr.rename, TypedExpr.identities, TypedExpr.identities, left.identities_rename ρ,
      right.identities_rename ρ, List.map_append]
  | .property receiver _ _ => by
    rw [TypedExpr.rename, TypedExpr.identities, TypedExpr.identities, receiver.identities_rename ρ]
  | .call _ arguments _ => by
    rw [TypedExpr.rename, TypedExpr.identities, TypedExpr.identities,
      identitiesOfExprs_rename ρ arguments]
  | .method receiver _ arguments _ => by
    rw [TypedExpr.rename, TypedExpr.identities, TypedExpr.identities, receiver.identities_rename ρ,
      identitiesOfExprs_rename ρ arguments, List.map_append]
  | .object _ fields methods ty => by
    rw [TypedExpr.rename, TypedExpr.identities, TypedExpr.identities, ty.objects_rename,
      identitiesOfFields_rename ρ fields, identitiesOfMethods_rename ρ methods, List.map_append,
      List.map_append]

theorem identitiesOfExprs_rename (ρ : FrameId → FrameId) : ∀ es : List TypedExpr,
    identitiesOfExprs (renameExprs ρ es) = (identitiesOfExprs es).map ρ
  | [] => rfl
  | e :: rest => by
    rw [renameExprs, identitiesOfExprs, identitiesOfExprs, e.identities_rename ρ,
      identitiesOfExprs_rename ρ rest, List.map_append]

theorem identitiesOfOption_rename (ρ : FrameId → FrameId) : ∀ e : Option TypedExpr,
    identitiesOfOption (renameOption ρ e) = (identitiesOfOption e).map ρ
  | none => rfl
  | some e => e.identities_rename ρ

theorem TypedDeclaration.identities_rename (ρ : FrameId → FrameId) :
    ∀ d : TypedDeclaration, (d.rename ρ).identities = d.identities.map ρ
  | ⟨_, _, value⟩ => identitiesOfOption_rename ρ value

theorem identitiesOfFields_rename (ρ : FrameId → FrameId) : ∀ ds : List TypedDeclaration,
    identitiesOfFields (renameFields ρ ds) = (identitiesOfFields ds).map ρ
  | [] => rfl
  | d :: rest => by
    rw [renameFields, identitiesOfFields, identitiesOfFields, d.identities_rename ρ,
      identitiesOfFields_rename ρ rest, List.map_append]

theorem TypedDefinition.identities_rename (ρ : FrameId → FrameId) :
    ∀ d : TypedDefinition, (d.rename ρ).identities = d.identities.map ρ
  | ⟨_, _, _, body⟩ => identitiesOfStmts_rename ρ body

theorem identitiesOfMethods_rename (ρ : FrameId → FrameId) : ∀ ds : List TypedDefinition,
    identitiesOfMethods (renameMethods ρ ds) = (identitiesOfMethods ds).map ρ
  | [] => rfl
  | d :: rest => by
    rw [renameMethods, identitiesOfMethods, identitiesOfMethods, d.identities_rename ρ,
      identitiesOfMethods_rename ρ rest, List.map_append]

theorem TypedStmt.identities_rename (ρ : FrameId → FrameId) :
    ∀ s : TypedStmt, (s.rename ρ).identities = s.identities.map ρ
  | .declare d => d.identities_rename ρ
  | .define d => d.identities_rename ρ
  | .branch condition thenBody elseBody => by
    rw [TypedStmt.rename, TypedStmt.identities, TypedStmt.identities, condition.identities_rename ρ,
      identitiesOfStmts_rename ρ thenBody, identitiesOfStmts_rename ρ elseBody, List.map_append,
      List.map_append]
  | .forEach _ _ items body => by
    rw [TypedStmt.rename, TypedStmt.identities, TypedStmt.identities, items.identities_rename ρ,
      identitiesOfStmts_rename ρ body, List.map_append]
  | .ret value => identitiesOfOption_rename ρ value
  | .expression value => value.identities_rename ρ
  | .assignVariable _ _ value => value.identities_rename ρ
  | .assignProperty receiver _ _ value => by
    rw [TypedStmt.rename, TypedStmt.identities, TypedStmt.identities,
      receiver.identities_rename ρ, value.identities_rename ρ, List.map_append]

theorem identitiesOfStmts_rename (ρ : FrameId → FrameId) : ∀ body : List TypedStmt,
    identitiesOfStmts (renameStmts ρ body) = (identitiesOfStmts body).map ρ
  | [] => rfl
  | s :: rest => by
    rw [renameStmts, identitiesOfStmts, identitiesOfStmts, s.identities_rename ρ,
      identitiesOfStmts_rename ρ rest, List.map_append]

end

/-- The frames of all object literals in the program. -/
def TypedProgram.identities (p : TypedProgram) : List FrameId := identitiesOfStmts p.statements

end ObjectLang
