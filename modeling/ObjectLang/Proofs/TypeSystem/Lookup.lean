import ObjectLang.Proofs.Program.Scoped
import ObjectLang.Proofs.Scope.Owners
import ObjectLang.Proofs.TypeSystem.Rules

/-!
# Names in scopes

Lemmas about the rules: which types can have a name, what a name means after more names were bound,
which type returns have to fit, and which names a block and a call bind.
-/

namespace ObjectLang

/-! ## Types -/

/-- The type is neither that of a function nor that of an object. -/
def Ty.IsPlain : Ty → Prop
  | .function _ _ | .object _ => False
  | _ => True

theorem Ty.isPlain_of_name? {ty : Ty} {name : String} (h : ty.name? = some name) : ty.IsPlain := by
  cases ty with
  | function params returns => cases h
  | object o => cases h
  | _ => trivial

theorem Denotes.isPlain {name : Option String} {ty : Ty} (h : Denotes name ty) : ty.IsPlain := by
  cases h with
  | none => trivial
  | some hname => exact Ty.isPlain_of_name? hname

/-- A plain type, or the type itself. -/
theorem Ty.Below.isPlain_or_eq {t u : Ty} (h : t.Below u) : u.IsPlain ∨ t = u := by
  cases h with
  | refl => exact .inr rfl
  | any => exact .inl trivial
  | comparable _ => exact .inl trivial
  | equatable _ => exact .inl trivial

/-- No level of the scope shows the members of an object. -/
def Scope.Memberless (Γ : Scope) : Prop := ∀ level ∈ Γ, level.frame = none

theorem Scope.Memberless.members_eq {Γ : Scope} (h : Γ.Memberless)
    (Δ : FrameId → List (String × Ty)) (o : FrameId) : Γ.members Δ o = Δ o := by
  have hnone : Γ.find? (·.frame == some o) = none := by
    rw [List.find?_eq_none]
    intro level hlevel
    rw [h level hlevel]
    exact fun heq => by cases heq
  rw [Scope.members, hnone]

theorem Scope.Memberless.block {Γ : Scope} (h : Γ.Memberless) (bindings : List (String × Ty)) :
    Scope.Memberless (.block bindings :: Γ) := by
  intro level hlevel
  rcases List.mem_cons.mp hlevel with rfl | hlevel
  · rfl
  · exact h level hlevel

theorem Scope.Memberless.bind {Γ : Scope} (h : Γ.Memberless) (bindings : List (String × Ty)) :
    (Γ.bind bindings).Memberless := by
  cases Γ with
  | nil => exact h
  | cons level rest =>
    intro level' hlevel
    rcases List.mem_cons.mp hlevel with rfl | hlevel
    · exact h level List.mem_cons_self
    · exact h level' (List.mem_cons_of_mem _ hlevel)

namespace Scope

variable {Γ : Scope} {bindings : List (String × Ty)} {name : String} {ty : Ty}

theorem lookup_cons (level : Level) (Γ : Scope) (name : String) :
    lookup (level :: Γ) name = (level.bindings.lookup name).or (Γ.lookup name) := by
  rw [lookup, List.findSome?_cons]
  cases level.bindings.lookup name <;> rfl

/-- Other names mean what they meant. -/
theorem lookup_bind_of_not_mem (h : name ∉ bindings.map Prod.fst) :
    (Γ.bind bindings).lookup name = Γ.lookup name := by
  cases Γ with
  | nil => rfl
  | cons level rest =>
    rw [bind, lookup_cons, lookup_cons, List.lookup_append, lookup_eq_none_of_not_mem h,
      Option.or_none]

theorem ownNames_bind (hΓ : Γ ≠ []) :
    (Γ.bind bindings).ownNames = Γ.ownNames ++ bindings.map Prod.fst := by
  cases Γ with
  | nil => exact absurd rfl hΓ
  | cons level rest => exact List.map_append

/-- Returns have to fit the type, if the scope allows them. -/
def Returns (Γ : Scope) (ty : Ty) : Prop := ∀ ty', Γ.lookup returnsName = some ty' → ty' = ty

namespace Returns

theorem bind (h : Γ.Returns ty) (hbindings : returnsName ∉ bindings.map Prod.fst) :
    (Γ.bind bindings).Returns ty := by
  intro ty' hty
  rw [lookup_bind_of_not_mem hbindings] at hty
  exact h ty' hty

theorem block (h : Γ.Returns ty) (hbindings : returnsName ∉ bindings.map Prod.fst) :
    Scope.Returns (.block bindings :: Γ) ty := by
  intro ty' hty
  rw [lookup_cons, Level.block, lookup_eq_none_of_not_mem hbindings] at hty
  exact h ty' hty

/-- In the body of a function the type of results is the one that it declares. -/
theorem body (Γ : Scope) (returns : Ty) (hbindings : returnsName ∉ bindings.map Prod.fst) :
    Scope.Returns (.block (bindings ++ [(returnsName, returns)]) :: Γ) returns := by
  intro ty' hty
  rw [lookup_cons, Level.block, List.lookup_append, lookup_eq_none_of_not_mem hbindings] at hty
  simpa [eq_comm] using hty

end Returns

end Scope

/-! ## Names of blocks -/

/-- What the statements bind in the frame of their block. -/
def blockBindings (body : List TypedStmt) : List (String × Ty) := body.flatMap (·.bindings)

/-- The names that the statements bind in the frame of their block. -/
def blockNames (body : List TypedStmt) : List String := (blockBindings body).map Prod.fst

/-- What a call binds for a function with the given receiver. -/
def callBindings (receiver : Option FrameId) (parameters : List TypedParameter) :
    List (String × Ty) :=
  (receiver.map Ty.object).toList.map (thisName, ·) ++ parameters.map fun p => (p.name, p.ty)

theorem memberBindings_names (fields : List TypedDeclaration) (methods : List TypedDefinition) :
    (memberBindings fields methods).map Prod.fst =
      fields.map (·.name) ++ methods.map (·.name) := by
  rw [memberBindings, List.map_append, List.map_map, List.map_map]
  rfl

section

variable {Δ : FrameId → List (String × Ty)} {Γ : Scope}

theorem TypesStmt.names_eq {s : Stmt} {t : TypedStmt} (h : TypesStmt Δ Γ s t) :
    t.bindings.map Prod.fst = s.binds := by
  cases h with
  | declare _ h => exact congrArg ([·]) h.name_eq
  | define _ h => exact congrArg ([·]) h.name_eq
  | _ => rfl

theorem TypesStmt.not_mem_ownNames {s : Stmt} {t : TypedStmt} (h : TypesStmt Δ Γ s t) :
    ∀ name ∈ s.binds, name ∉ Γ.ownNames := by
  cases h with
  | declare hfree _ => simpa [Stmt.binds] using hfree
  | define hfree _ => simpa [Stmt.binds] using hfree
  | _ => simp [Stmt.binds]

/-- No name is bound twice in a block. -/
theorem TypesStmts.nodup {body : List Stmt} {ts : List TypedStmt} (h : TypesStmts Δ Γ body ts)
    (hΓ : Γ ≠ []) (hnodup : Γ.ownNames.Nodup) : (Γ.ownNames ++ blockNames ts).Nodup := by
  induction body generalizing Γ ts with
  | nil =>
    cases h
    simpa [blockNames, blockBindings] using hnodup
  | cons s rest ih =>
    cases h with
    | @cons _ _ t _ trest hs hrest =>
      have hown : (Γ.bind t.bindings).ownNames = Γ.ownNames ++ s.binds := by
        rw [Scope.ownNames_bind hΓ, hs.names_eq]
      have hΓ' : Γ.bind t.bindings ≠ [] := by
        cases Γ with
        | nil => exact absurd rfl hΓ
        | cons level outer => exact List.cons_ne_nil _ _
      have hbinds : (Γ.ownNames ++ s.binds).Nodup := by
        refine List.nodup_append.mpr ⟨hnodup, ?_, ?_⟩
        · cases s <;> simp [Stmt.binds]
        · rintro name hname _ hmem rfl
          exact hs.not_mem_ownNames name hmem hname
      have hall := ih hrest hΓ' (hown ▸ hbinds)
      rw [hown, List.append_assoc, ← hs.names_eq] at hall
      rw [blockNames, blockBindings, List.flatMap_cons, List.map_append]
      exact hall

/-- Arguments are of types below those of the parameters. -/
theorem TypesArguments.forall₂_below {es : List Expr} {params : List Ty} {ts : List TypedExpr}
    (h : TypesArguments Δ Γ es params ts) :
    List.Forall₂ (fun t param => t.ty.Below param) ts params := by
  induction es generalizing params ts with
  | nil =>
    cases h
    exact .nil
  | cons e rest ih =>
    cases h with
    | cons _ hbelow hrest => exact .cons hbelow (ih hrest)

/-! ## Functions -/

/-- Parameters keep their names, and have plain types. -/
theorem parameters_of_types {parameters : List Parameter} {ts : List TypedParameter}
    (h : List.Forall₂ Parameter.Types parameters ts) :
    parameters.map (·.name) = ts.map (·.name) ∧ ∀ t ∈ ts, t.ty.IsPlain := by
  induction h with
  | nil => exact ⟨rfl, fun _ ht => by cases ht⟩
  | cons hp _ ih =>
    refine ⟨congrArg₂ List.cons hp.1.symm ih.1, fun t ht => ?_⟩
    rcases List.mem_cons.mp ht with rfl | ht
    · exact hp.2.isPlain
    · exact ih.2 t ht

namespace TypesDefinition

variable {receiver : Option FrameId} {d : Definition} {t : TypedDefinition}

theorem parameters_isPlain {this : Option Ty} (h : TypesDefinition Δ Γ this d t) :
    ∀ p ∈ t.parameters, p.ty.IsPlain := by
  cases h with
  | mk hparameters _ _ _ => exact (parameters_of_types hparameters).2

theorem denotes_returns {this : Option Ty} (h : TypesDefinition Δ Γ this d t) :
    Denotes d.returnType t.returns := by
  cases h with
  | mk _ hreturns _ _ => exact hreturns

/-- The body is typed where the names of a call and the type of results are bound. -/
theorem body (h : TypesDefinition Δ Γ (receiver.map .object) d t) :
    TypesStmts Δ (.block (callBindings receiver t.parameters ++ [(returnsName, t.returns)]) :: Γ)
      d.body t.body := by
  cases h with
  | mk _ _ _ hbody => exact hbody

theorem returnsName_not_mem (h : TypesDefinition Δ Γ (receiver.map .object) d t) :
    returnsName ∉ (callBindings receiver t.parameters).map Prod.fst := by
  cases h with
  | @mk _ _ _ _ _ _ tparameters returns _ _ _ hnodup _ =>
    have hnodup : ((callBindings receiver tparameters ++
        [(returnsName, returns)]).map Prod.fst).Nodup := hnodup
    rw [List.map_append] at hnodup
    exact fun hmem => (List.nodup_append.mp hnodup).2.2 _ hmem _ (List.mem_singleton_self _) rfl

/-- What a call binds is bound once, and not again by the body. -/
theorem nodup (h : TypesDefinition Δ Γ (receiver.map .object) d t) :
    ((callBindings receiver t.parameters).map Prod.fst ++ blockNames t.body).Nodup := by
  have hbody := h.body
  cases h with
  | mk _ _ hnodup _ =>
    refine (hbody.nodup (List.cons_ne_nil _ _) hnodup).sublist (List.Sublist.append_right ?_ _)
    exact (List.sublist_append_left _ _).map _

end TypesDefinition

end

end ObjectLang
