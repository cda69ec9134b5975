import ObjectLang.Proofs.Check.Growth

/-!
# What the checker accepts

For each rule and each step of the checker, what follows from its success: what has been compared with
what, and what the store of type frames is afterwards.

A block is visited once, in a type frame of its own below the frame of the statement that contains the
block. What has been found out about the frames around the block stays as it is.
-/

namespace ObjectLang

/-! ## Rules -/

theorem except_bind_eq_ok {ε α β : Type} {x : Except ε α} {k : α → Except ε β} {b : β}
    (h : (x >>= k) = .ok b) : ∃ a, x = .ok a ∧ k a = .ok b := by
  cases x with
  | ok a => exact ⟨a, rfl, h⟩
  | error e => cases h

theorem Ty.requireSubtype_eq_ok {found expected : Ty} {u : Unit}
    (h : found.requireSubtype expected = .ok u) : found.subtypeOf expected = true := by
  unfold requireSubtype at h
  split at h
  · assumption
  · cases h

theorem Ty.requireSame_eq_ok {left right : Ty} {u : Unit} (h : left.requireSame right = .ok u) :
    right = left := by
  unfold requireSame at h
  split at h
  · assumption
  · cases h

theorem Operator.arithmeticTy_eq_ok {op : Operator} {left right ty : Ty}
    (h : op.arithmeticTy left right = .ok ty) :
    left.isNumeric = true ∧ right = left ∧ ty = left := by
  unfold arithmeticTy at h
  split at h
  · next hnumeric =>
    obtain ⟨u, hsame, hty⟩ := except_bind_eq_ok h
    cases hty
    exact ⟨hnumeric, Ty.requireSame_eq_ok hsame, rfl⟩
  · cases h

/-- Conjunction and disjunction take two truth values. -/
theorem Operator.boolean_of_logical {op : Operator} {left right ty : Ty} (hop : op = and ∨ op = or)
    (h : op.resultTy left right = .ok ty) : left = .boolean ∧ right = .boolean ∧ ty = .boolean := by
  have hrule : (do left.requireSubtype .boolean; right.requireSubtype .boolean; return .boolean) =
      (.ok ty : Except CheckError Ty) := by
    rcases hop with rfl | rfl <;> exact h
  obtain ⟨_, hleft, hrest⟩ := except_bind_eq_ok hrule
  obtain ⟨_, hright, hty⟩ := except_bind_eq_ok hrest
  cases hty
  have heq {t : Ty} (h : t.subtypeOf .boolean = true) : t = .boolean := by
    simpa [Ty.subtypeOf] using h
  exact ⟨heq (Ty.requireSubtype_eq_ok hleft), heq (Ty.requireSubtype_eq_ok hright), rfl⟩

namespace Check

/-! ## Accepted steps -/

section

variable {f : FrameId} {name : String} {ty : Ty} {s t : Store Ty} {u : Unit}

theorem requireFree_eq_ok (h : requireFree f name s = .ok u t) : name ∉ s.names f ∧ t = s := by
  unfold requireFree at h
  rw [get_bind_run] at h
  split at h
  · cases h
  · next hfree =>
    cases h
    exact ⟨fun hmem => hfree ((s.defines_iff f name).mpr hmem), rfl⟩

theorem newFrame_eq_ok {parent : Option FrameId} (h : newFrame parent s = .ok f t) :
    f = s.size ∧ t = (s.newFrame parent).2 := by
  rw [newFrame_run] at h
  cases h
  exact ⟨rfl, rfl⟩

theorem define_eq_ok (h : define f name ty s = .ok u t) :
    name ∉ s.names f ∧ t = s.append f name ty := by
  obtain ⟨_, s₁, hfree, happend⟩ := bind_run_eq_ok_iff.mp h
  obtain ⟨hname, rfl⟩ := requireFree_eq_ok hfree
  cases happend
  exact ⟨hname, rfl⟩

theorem lookup_eq_ok (h : lookup f name s = .ok ty t) : s.lookup f name = some ty ∧ t = s := by
  obtain ⟨ty?, s₁, hget, hrest⟩ := bind_run_eq_ok_iff.mp h
  cases hget
  cases hl : s.lookup f name with
  | none =>
    rw [hl] at hrest
    cases hrest
  | some ty' =>
    rw [hl] at hrest
    cases hrest
    exact ⟨rfl, rfl⟩

theorem result_eq_ok {α : Type} {r : Except CheckError α} {a : α} (h : result r s = .ok a t) :
    r = .ok a ∧ t = s := by
  cases r with
  | ok b =>
    cases h
    exact ⟨rfl, rfl⟩
  | error e => cases h

theorem requireSubtype_eq_ok {expected : Ty} (h : requireSubtype ty expected s = .ok u t) :
    ty.subtypeOf expected = true ∧ t = s := by
  obtain ⟨hrule, rfl⟩ := result_eq_ok h
  exact ⟨Ty.requireSubtype_eq_ok hrule, rfl⟩

theorem declaredTy?_eq_ok {typeName : Option String} {declared : Option Ty}
    (h : declaredTy? typeName s = .ok declared t) :
    t = s ∧ ∀ ty, declared = some ty → ∃ name ∈ typeName, Ty.ofName? name = some ty := by
  cases typeName with
  | none =>
    cases h
    exact ⟨rfl, fun ty hty => by cases hty⟩
  | some name =>
    obtain ⟨ty, s₁, hresolve, hrest⟩ := bind_run_eq_ok_iff.mp h
    cases hrest
    unfold resolveName at hresolve
    cases hname : Ty.ofName? name with
    | none =>
      rw [hname] at hresolve
      cases hresolve
    | some ty' =>
      rw [hname] at hresolve
      cases hresolve
      exact ⟨rfl, fun ty' hty' => ⟨name, rfl, hty' ▸ hname⟩⟩

theorem bindingTy_eq_ok {declared : Option Ty} {value : TypedExpr}
    (h : bindingTy declared (some value) s = .ok ty t) :
    t = s ∧ (declared = none ∧ ty = value.ty ∨
      declared = some ty ∧ value.ty.subtypeOf ty = true) := by
  cases declared with
  | none =>
    cases h
    exact ⟨rfl, .inl ⟨rfl, rfl⟩⟩
  | some ty' =>
    obtain ⟨_, s₁, hsubtype, hrest⟩ := bind_run_eq_ok_iff.mp h
    cases hrest
    obtain ⟨hsub, rfl⟩ := requireSubtype_eq_ok hsubtype
    exact ⟨rfl, .inr ⟨rfl, hsub⟩⟩

theorem callable_eq_ok {count : Nat} {x : List Ty × Ty} (h : callable name count ty s = .ok x t) :
    ty = .function x.1 x.2 ∧ x.1.length = count ∧ t = s := by
  cases ty with
  | function params returns =>
    unfold callable at h
    dsimp only at h
    split at h
    · next hlength =>
      cases h
      exact ⟨rfl, hlength, rfl⟩
    · cases h
  | _ => cases h

theorem names_of_define (hf : f < s.size) (h : define f name ty s = .ok u t)
    (hnodup : (s.names f).Nodup) : t.names f = s.names f ++ [name] ∧ (t.names f).Nodup := by
  obtain ⟨hname, rfl⟩ := define_eq_ok h
  rw [s.names_append hf]
  refine ⟨rfl, List.nodup_append.mpr ⟨hnodup, by simp, fun a ha b hb => ?_⟩⟩
  rw [List.mem_singleton] at hb
  rintro rfl
  exact hname (hb ▸ ha)

theorem names_of_defineAll {bindings : List (String × Ty)} (hf : f < s.size)
    (h : defineAll f bindings s = .ok u t) (hnodup : (s.names f).Nodup) :
    t.names f = s.names f ++ bindings.map Prod.fst ∧ (t.names f).Nodup := by
  induction bindings generalizing s with
  | nil =>
    cases h
    exact ⟨by simp, hnodup⟩
  | cons b rest ih =>
    obtain ⟨name, ty⟩ := b
    obtain ⟨_, s₁, hdefine, hrest⟩ := bind_run_eq_ok_iff.mp h
    obtain ⟨hnames, hnodup₁⟩ := names_of_define hf hdefine hnodup
    have hf₁ := hf.trans_le ((confined.define f name ty).grows hdefine).size_le
    obtain ⟨hnames₁, hnodup₂⟩ := ih hf₁ hrest hnodup₁
    exact ⟨by rw [hnames₁, hnames]; simp, hnodup₂⟩

end

/-! ## Blocks -/

/-- The checker accepts a block in the type frame `k` below `f`. It comes from `types` to the block
with the types `inner`, and leaves the block with the types `types'`. -/
structure AcceptsBlock (f k : FrameId) (types inner types' : Store Ty) (body : List Stmt)
    (typed : List TypedStmt) : Prop where
  accepts : stmts k body inner = .ok typed types'
  parent_eq : inner.parent? k = some f
  parent_eq' : types'.parent? k = some f
  grows : Store.Grows id none types types'

variable {f p : FrameId} {types types' : Store Ty} {t : TypedStmt}

/-- A block in a new type frame, in which names may have been bound before. -/
theorem AcceptsBlock.of_newFrame {inner : Store Ty} {body : List Stmt} {typed : List TypedStmt}
    (hf : f < types.size)
    (hinner : Store.Grows id (some types.size) (types.newFrame (some f)).2 inner)
    (h : stmts types.size body inner = .ok typed types') :
    AcceptsBlock f types.size types inner types' body typed := by
  have hgrows := (confined.stmts types.size body).grows h
  have hparent : inner.parent? types.size = some f := by
    rw [hinner.parent_eq types.size (by simp)]
    exact types.parent?_newFrame_size hf
  have hsize : types.size < inner.size := inner.parent?_lt_size hparent
  exact ⟨h, hparent, (hgrows.parent_eq types.size hsize).trans hparent,
    (Store.Grows.newFrame id types (some f)).enclosed le_rfl (hinner.trans hgrows)⟩

/-- The frame of a statement stays below the same frame while the checker goes on. -/
theorem parent?_of_grows {g : Option FrameId} (hp : types.parent? f = some p)
    (h : Store.Grows id g types types') : types'.parent? f = some p := by
  rw [h.parent_eq f (types.parent?_lt_size hp)]
  exact hp

/-- An accepted branch tests a truth value and has two accepted blocks. -/
theorem branch_eq_ok {condition : Expr} {thenBody elseBody : List Stmt} (hf : f < types.size)
    (h : stmt f (.branch condition thenBody elseBody) types = .ok t types') :
    ∃ tcondition types₀ tthen types₁ telse, t = .branch tcondition tthen telse ∧
      expr f condition types = .ok tcondition types₀ ∧
      tcondition.ty.subtypeOf .boolean = true ∧
      AcceptsBlock f types₀.size types₀ (types₀.newFrame (some f)).2 types₁ thenBody tthen ∧
      AcceptsBlock f types₁.size types₁ (types₁.newFrame (some f)).2 types' elseBody telse := by
  simp only [stmt, bind_run_eq_ok_iff, pure_run_eq_ok_iff] at h
  obtain ⟨tcondition, types₀, hexpr, _, _, hsubtype, _, _, hopen, tthen, types₁, hthen, _, _,
    hopen', telse, _, helse, rfl, rfl⟩ := h
  obtain ⟨hsub, rfl⟩ := requireSubtype_eq_ok hsubtype
  obtain ⟨rfl, rfl⟩ := newFrame_eq_ok hopen
  obtain ⟨rfl, rfl⟩ := newFrame_eq_ok hopen'
  have hf₀ := hf.trans_le ((confined.expr f condition).grows hexpr).size_le
  have hblock := AcceptsBlock.of_newFrame hf₀ (.refl _ _ _) hthen
  have hf₁ := hf₀.trans_le hblock.grows.size_le
  have hblock' := AcceptsBlock.of_newFrame hf₁ (.refl _ _ _) helse
  exact ⟨tcondition, _, tthen, types₁, telse, rfl, hexpr, hsub, hblock, hblock'⟩

/-- An accepted loop has items that can be iterated over, and an accepted block in which the name is
an integer. -/
theorem forEach_eq_ok {name : String} {items : Expr} {body : List Stmt}
    (hf : f < types.size) (h : stmt f (.forEach name items body) types = .ok t types') :
    ∃ titems types₀ tbody, t = .forEach name .integer titems tbody ∧
      expr f items types = .ok titems types₀ ∧ titems.ty.subtypeOf .iterable = true ∧
      AcceptsBlock f types₀.size types₀
        ((types₀.newFrame (some f)).2.append types₀.size name .integer) types' body tbody := by
  simp only [stmt, bind_run_eq_ok_iff, pure_run_eq_ok_iff] at h
  obtain ⟨titems, types₀, hexpr, _, _, hsubtype, _, _, hopen, _, _, hdefine, tbody, _, hbody, rfl,
    rfl⟩ := h
  obtain ⟨hsub, rfl⟩ := requireSubtype_eq_ok hsubtype
  obtain ⟨rfl, rfl⟩ := newFrame_eq_ok hopen
  obtain ⟨-, rfl⟩ := define_eq_ok hdefine
  have hf₀ := hf.trans_le ((confined.expr f items).grows hexpr).size_le
  have hblock := AcceptsBlock.of_newFrame hf₀ (.append id _ _ name .integer) hbody
  exact ⟨titems, _, tbody, rfl, hexpr, hsub, hblock⟩

end Check

end ObjectLang
