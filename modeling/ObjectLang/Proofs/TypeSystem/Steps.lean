import ObjectLang.Proofs.Check.Accepted
import ObjectLang.Proofs.TypeSystem.Rules

/-!
# Steps of the checker and their rules

Each step of the checker that does not look into trees succeeds exactly if its rule holds, and then
leaves behind exactly the bindings that the rule speaks of.
-/

namespace ObjectLang

/-! ## Types -/

namespace Ty

theorem subtypeOf_iff_below {t u : Ty} : t.subtypeOf u = true ↔ t.Below u := by
  constructor
  · intro h
    unfold subtypeOf at h
    rcases Bool.or_eq_true_iff.mp h with heq | hkind
    · rw [eq_of_beq heq]
      exact .refl u
    · cases u with
      | any => exact .any t
      | comparable =>
        cases t with
        | comparable => exact .refl _
        | boolean | integer | decimal | string => exact .comparable (by simp)
        | _ => cases hkind
      | equatable =>
        cases t with
        | equatable => exact .refl _
        | nil | boolean | integer | decimal | string | comparable | iterable =>
          exact .equatable (by simp)
        | _ => cases hkind
      | _ => cases hkind
  · intro h
    cases h with
    | refl => simp [subtypeOf]
    | any => simp [subtypeOf]
    | comparable ht =>
      simp only [List.mem_cons, List.not_mem_nil, or_false] at ht
      rcases ht with rfl | rfl | rfl | rfl <;> rfl
    | equatable ht =>
      simp only [List.mem_cons, List.not_mem_nil, or_false] at ht
      rcases ht with rfl | rfl | rfl | rfl | rfl | rfl | rfl <;> rfl

theorem requireSubtype_eq_ok_iff {t u : Ty} : t.requireSubtype u = .ok () ↔ t.Below u := by
  rw [← subtypeOf_iff_below, requireSubtype]
  split <;> simp [*]

/-- Names of types are found exactly for the types that bear them. -/
theorem ofName?_eq_some_iff {name : String} {t : Ty} :
    ofName? name = some t ↔ t.name? = some name := by
  constructor
  · intro h
    rw [ofName?] at h
    have hname := List.find?_some h
    exact eq_of_beq hname
  · exact ofName?_of_name?

end Ty

/-- What the operands of an arithmetic operation have to be. -/
theorem Operator.arithmeticTy_eq_ok_iff {op : Operator} {left right ty : Ty} :
    op.arithmeticTy left right = .ok ty ↔
      left ∈ [Ty.integer, Ty.decimal] ∧ right = left ∧ ty = left := by
  have hnumeric : left.isNumeric = true ↔ left ∈ [Ty.integer, Ty.decimal] := by
    cases left <;> simp [Ty.isNumeric]
  constructor
  · intro h
    obtain ⟨hleft, hsame, hty⟩ := arithmeticTy_eq_ok h
    exact ⟨hnumeric.mp hleft, hsame, hty⟩
  · rintro ⟨hleft, rfl, rfl⟩
    rw [arithmeticTy, if_pos (hnumeric.mpr hleft), Ty.requireSame, if_pos rfl]
    rfl

/-- The checker's table of operators is that of the rules. -/
theorem Operator.resultTy_eq_ok_iff {op : Operator} {left right ty : Ty} :
    op.resultTy left right = .ok ty ↔ op.Types left right ty := by
  constructor
  · intro h
    have harithmetic (hop : op ∈ [add, sub, mul, div]) (h : op.arithmeticTy left right = .ok ty) :
        op.Types left right ty := by
      obtain ⟨hleft, rfl, rfl⟩ := arithmeticTy_eq_ok_iff.mp h
      exact .arithmetic hop hleft
    have hordering (hop : op ∈ [less, lessEq, greater, greaterEq])
        (h : (do left.requireSubtype .comparable; left.requireSame right; return .boolean) =
          (.ok ty : Except CheckError Ty)) : op.Types left right ty := by
      obtain ⟨_, hleft, hrest⟩ := except_bind_eq_ok h
      obtain ⟨_, hsame, hty⟩ := except_bind_eq_ok hrest
      cases hty
      rw [Ty.requireSame_eq_ok hsame]
      exact .ordering hop (Ty.requireSubtype_eq_ok_iff.mp hleft)
    have hequality (hop : op ∈ [eq, notEq])
        (h : (do left.requireSubtype .equatable; right.requireSubtype .equatable; return .boolean) =
          (.ok ty : Except CheckError Ty)) : op.Types left right ty := by
      obtain ⟨_, hleft, hrest⟩ := except_bind_eq_ok h
      obtain ⟨_, hright, hty⟩ := except_bind_eq_ok hrest
      cases hty
      exact .equality hop (Ty.requireSubtype_eq_ok_iff.mp hleft)
        (Ty.requireSubtype_eq_ok_iff.mp hright)
    have hlogic (hop : op = and ∨ op = or) (h : op.resultTy left right = .ok ty) :
        op.Types left right ty := by
      obtain ⟨rfl, rfl, rfl⟩ := boolean_of_logical hop h
      exact .logic (by simpa using hop)
    cases op with
    | add =>
      simp only [resultTy] at h
      split at h
      · next htext =>
        cases h
        rcases htext with rfl | rfl
        · exact .joinRight right
        · exact .joinLeft left
      · exact harithmetic (by simp) h
    | sub | mul | div => exact harithmetic (by simp) h
    | less | lessEq | greater | greaterEq => exact hordering (by simp) h
    | eq | notEq => exact hequality (by simp) h
    | and | or => exact hlogic (by simp) h
  · intro h
    cases h with
    | joinRight => simp [resultTy]
    | joinLeft => simp [resultTy]
    | arithmetic hop ht =>
      have hty : op.arithmeticTy left left = .ok left := arithmeticTy_eq_ok_iff.mpr ⟨ht, rfl, rfl⟩
      simp only [List.mem_cons, List.not_mem_nil, or_false] at hop ht
      rcases hop with rfl | rfl | rfl | rfl
      · rcases ht with rfl | rfl <;> rfl
      · exact hty
      · exact hty
      · exact hty
    | ordering hop ht =>
      have hsub := Ty.requireSubtype_eq_ok_iff.mpr ht
      simp only [List.mem_cons, List.not_mem_nil, or_false] at hop
      rcases hop with rfl | rfl | rfl | rfl <;>
        simp only [resultTy, hsub, Ty.requireSame, if_pos] <;> rfl
    | equality hop hleft hright =>
      have hsub := Ty.requireSubtype_eq_ok_iff.mpr hleft
      have hsub' := Ty.requireSubtype_eq_ok_iff.mpr hright
      simp only [List.mem_cons, List.not_mem_nil, or_false] at hop
      rcases hop with rfl | rfl <;> simp only [resultTy, hsub, hsub'] <;> rfl
    | logic hop =>
      simp only [List.mem_cons, List.not_mem_nil, or_false] at hop
      rcases hop with rfl | rfl <;> rfl

/-! ## Steps -/

namespace Check

variable {f members : FrameId} {name : String} {ty : Ty} {s t : Store Ty} {u : Unit}

theorem requireFree_run_iff : requireFree f name s = .ok u t ↔ name ∉ s.names f ∧ s = t := by
  constructor
  · intro h
    obtain ⟨hname, rfl⟩ := requireFree_eq_ok h
    exact ⟨hname, rfl⟩
  · rintro ⟨hname, rfl⟩
    have hdefines : ¬ s.defines f name = true := fun h => hname ((s.defines_iff f name).mp h)
    rw [requireFree, get_bind_run, if_neg hdefines]
    rfl

theorem newFrame_run_iff {parent : Option FrameId} :
    newFrame parent s = .ok f t ↔ f = s.size ∧ t = (s.newFrame parent).2 := by
  constructor
  · exact newFrame_eq_ok
  · rintro ⟨rfl, rfl⟩
    exact newFrame_run parent s

theorem define_run_iff :
    define f name ty s = .ok u t ↔ name ∉ s.names f ∧ t = s.append f name ty := by
  constructor
  · exact define_eq_ok
  · rintro ⟨hname, rfl⟩
    have hfree := (requireFree_run_iff (u := ())).mpr ⟨hname, rfl⟩
    rw [define, bind_run_ok hfree]
    rfl

/-- Distinct names can be bound in a frame if the frame binds none of them. -/
theorem defineAll_run_iff {bindings : List (String × Ty)} (hf : f < s.size) :
    defineAll f bindings s = .ok u t ↔ (bindings.map Prod.fst).Nodup ∧
      (∀ name ∈ bindings.map Prod.fst, name ∉ s.names f) ∧ t = s.appendAll f bindings := by
  induction bindings generalizing s with
  | nil =>
    rw [defineAll, pure_run_eq_ok_iff]
    simp [Store.appendAll, eq_comm]
  | cons b rest ih =>
    obtain ⟨name, ty⟩ := b
    have hnames := s.names_append hf name ty
    simp only [defineAll, bind_run_eq_ok_iff, define_run_iff, Store.appendAll_cons, List.map_cons,
      List.nodup_cons, List.mem_cons, forall_eq_or_imp]
    constructor
    · rintro ⟨_, _, ⟨hname, rfl⟩, hrest⟩
      obtain ⟨hnodup, hfree, rfl⟩ := (ih (by simpa using hf)).mp hrest
      rw [hnames] at hfree
      refine ⟨⟨fun hmem => hfree name hmem (by simp), hnodup⟩, ⟨hname, fun n hn h => ?_⟩, rfl⟩
      exact hfree n hn (List.mem_append_left _ h)
    · rintro ⟨⟨hnew, hnodup⟩, ⟨hname, hfree⟩, rfl⟩
      refine ⟨(), _, ⟨hname, rfl⟩, (ih (by simpa using hf)).mpr ⟨hnodup, fun n hn h => ?_, rfl⟩⟩
      rw [hnames, List.mem_append, List.mem_singleton] at h
      rcases h with h | rfl
      · exact hfree n hn h
      · exact hnew hn

theorem lookup?_run (f : FrameId) (name : String) (s : Store Ty) :
    lookup? f name s = .ok (s.lookup f name) s := rfl

theorem lookup_run_iff : lookup f name s = .ok ty t ↔ s.lookup f name = some ty ∧ s = t := by
  constructor
  · intro h
    obtain ⟨hty, rfl⟩ := lookup_eq_ok h
    exact ⟨hty, rfl⟩
  · rintro ⟨hty, rfl⟩
    rw [lookup, bind_run_ok (lookup?_run f name s), hty]
    rfl

theorem result_run_iff {α : Type} {r : Except CheckError α} {a : α} :
    result r s = .ok a t ↔ r = .ok a ∧ s = t := by
  constructor
  · intro h
    obtain ⟨hr, rfl⟩ := result_eq_ok h
    exact ⟨hr, rfl⟩
  · rintro ⟨rfl, rfl⟩
    rfl

theorem requireSubtype_run_iff {expected : Ty} :
    requireSubtype ty expected s = .ok u t ↔ ty.Below expected ∧ s = t := by
  rw [requireSubtype, result_run_iff, Ty.requireSubtype_eq_ok_iff]

theorem membersOf_run_iff : membersOf ty s = .ok members t ↔ ty = .object members ∧ s = t := by
  constructor
  · intro h
    cases ty with
    | object members =>
      cases h
      exact ⟨rfl, rfl⟩
    | _ => cases h
  · rintro ⟨rfl, rfl⟩
    rfl

theorem memberTy_run_iff :
    memberTy members name s = .ok ty t ↔ (s.bindings members).lookup name = some ty ∧ s = t := by
  rw [memberTy, get_bind_run, Store.own?]
  cases (s.bindings members).lookup name with
  | some ty' =>
    dsimp only
    rw [pure_run_eq_ok_iff]
    simp [eq_comm]
  | none =>
    constructor
    · intro h
      cases h
    · rintro ⟨h, -⟩
      cases h

theorem callable_run_iff {count : Nat} {params : List Ty} {returns : Ty} :
    callable name count ty s = .ok (params, returns) t ↔
      ty = .function params returns ∧ params.length = count ∧ s = t := by
  constructor
  · intro h
    obtain ⟨hty, hlength, rfl⟩ := callable_eq_ok h
    exact ⟨hty, hlength, rfl⟩
  · rintro ⟨rfl, rfl, rfl⟩
    rw [callable, if_pos rfl]
    rfl

theorem requireUnreserved_run_iff {name : Option String} :
    requireUnreserved name s = .ok u t ↔
      (∀ n ∈ name, ∀ ty : Ty, ty.name? ≠ some n) ∧ s = t := by
  cases name with
  | none =>
    rw [requireUnreserved, pure_run_eq_ok_iff]
    simp [eq_comm]
  | some name =>
    unfold requireUnreserved
    dsimp only
    split
    · next hsome =>
      obtain ⟨ty, hty⟩ := Option.isSome_iff_exists.mp hsome
      constructor
      · intro h
        cases h
      · rintro ⟨h, -⟩
        exact absurd (Ty.ofName?_eq_some_iff.mp hty) (h name rfl ty)
    · next hnone =>
      rw [pure_run_eq_ok_iff]
      constructor
      · rintro ⟨-, rfl⟩
        refine ⟨fun n hn ty hty => hnone ?_, rfl⟩
        cases hn
        rw [Ty.ofName?_of_name? hty]
        rfl
      · rintro ⟨-, rfl⟩
        exact ⟨rfl, rfl⟩

/-! ## Declared types -/

theorem resolveName_run_iff : resolveName name s = .ok ty t ↔ ty.name? = some name ∧ s = t := by
  rw [← Ty.ofName?_eq_some_iff, resolveName]
  cases Ty.ofName? name with
  | some ty' =>
    dsimp only
    rw [pure_run_eq_ok_iff]
    simp [eq_comm]
  | none =>
    constructor
    · intro h
      cases h
    · rintro ⟨h, -⟩
      cases h

/-- A declared type is the one that its name stands for. -/
theorem declaredTy?_run_iff {typeName : Option String} {declared : Option Ty} :
    declaredTy? typeName s = .ok declared t ↔
      (typeName = none ∧ declared = none ∨
        ∃ name ty, typeName = some name ∧ declared = some ty ∧ ty.name? = some name) ∧ s = t := by
  cases typeName with
  | none =>
    rw [declaredTy?, pure_run_eq_ok_iff]
    simp [eq_comm]
  | some name =>
    simp only [declaredTy?, bind_run_eq_ok_iff, resolveName_run_iff, pure_run_eq_ok_iff]
    constructor
    · rintro ⟨ty, _, ⟨hty, rfl⟩, rfl, rfl⟩
      exact ⟨.inr ⟨name, ty, rfl, rfl, hty⟩, rfl⟩
    · rintro ⟨⟨h, -⟩ | ⟨_, ty, h, rfl, hty⟩, rfl⟩
      · cases h
      · cases h
        exact ⟨ty, s, ⟨hty, rfl⟩, rfl, rfl⟩

theorem declaredTy_run_iff {typeName : Option String} :
    declaredTy typeName s = .ok ty t ↔ Denotes typeName ty ∧ s = t := by
  simp only [declaredTy, bind_run_eq_ok_iff, declaredTy?_run_iff, pure_run_eq_ok_iff]
  constructor
  · rintro ⟨_, _, ⟨⟨rfl, rfl⟩ | ⟨name, ty', rfl, rfl, hty⟩, rfl⟩, rfl, rfl⟩
    · exact ⟨.none, rfl⟩
    · exact ⟨.some hty, rfl⟩
  · rintro ⟨hdenotes, rfl⟩
    cases hdenotes with
    | none => exact ⟨none, s, ⟨.inl ⟨rfl, rfl⟩, rfl⟩, rfl, rfl⟩
    | some hty => exact ⟨some ty, s, ⟨.inr ⟨_, ty, rfl, rfl, hty⟩, rfl⟩, rfl, rfl⟩

/-- The type of a declared name comes from the type name and the initial value. -/
theorem bindingTy_run_iff {declared : Option Ty} {value : Option TypedExpr} :
    bindingTy declared value s = .ok ty t ↔
      (∀ v ∈ value, declared = none ∧ ty = v.ty ∨ declared = some ty ∧ v.ty.Below ty) ∧
        (value = none → ty = declared.getD .any) ∧ s = t := by
  cases declared with
  | none =>
    cases value with
    | none =>
      rw [bindingTy, pure_run_eq_ok_iff]
      simp [eq_comm]
    | some v =>
      rw [bindingTy, pure_run_eq_ok_iff]
      simp [eq_comm]
  | some ty' =>
    cases value with
    | none =>
      rw [bindingTy, pure_run_eq_ok_iff]
      simp [eq_comm]
    | some v =>
      simp only [bindingTy, bind_run_eq_ok_iff, requireSubtype_run_iff, pure_run_eq_ok_iff]
      constructor
      · rintro ⟨_, _, ⟨hbelow, rfl⟩, rfl, rfl⟩
        simpa using hbelow
      · rintro ⟨hbelow, -, rfl⟩
        obtain ⟨heq, hbelow⟩ : ty' = ty ∧ v.ty.Below ty := by simpa using hbelow
        subst heq
        exact ⟨(), s, ⟨hbelow, rfl⟩, rfl, rfl⟩

/-- The two steps that find the type of a declared name decide the rules for it. -/
theorem declares_iff {typeName : Option String} {value : Option TypedExpr} {s' : Store Ty} :
    Declares typeName value ty ↔ ∃ declared, declaredTy? typeName s = .ok declared s ∧
      bindingTy declared value s' = .ok ty s' := by
  simp only [declaredTy?_run_iff, bindingTy_run_iff]
  constructor
  · intro h
    cases h with
    | neither => exact ⟨none, by simp⟩
    | value v => exact ⟨none, by simp⟩
    | typeName hty => exact ⟨some ty, by simp [hty]⟩
    | both hty hbelow => exact ⟨some ty, by simp [hty, hbelow]⟩
  · rintro ⟨_, ⟨⟨rfl, rfl⟩ | ⟨name, ty', rfl, rfl, hty⟩, -⟩, hvalue, hnone, -⟩
    · cases value with
      | none =>
        rw [hnone rfl]
        exact .neither
      | some v =>
        obtain rfl : ty = v.ty := by simpa using hvalue
        exact .value v
    · cases value with
      | none =>
        obtain rfl : ty = ty' := hnone rfl
        exact .typeName hty
      | some v =>
        obtain ⟨rfl, hbelow⟩ : ty' = ty ∧ v.ty.Below ty := by simpa using hvalue
        exact .both hty hbelow

/-! ## Signatures -/

/-- The signature gives the types of the definition's parameters and result. -/
structure Signature.Types (d : Definition) (signature : Signature) : Prop where
  parameters : List.Forall₂ Parameter.Types d.parameters signature.parameters
  distinct : (d.parameters.map (·.name)).Nodup
  returns : Denotes d.returnType signature.returns

theorem parameters_run_iff {seen : List String} {ps : List Parameter}
    {tps : List TypedParameter} :
    parameters seen ps s = .ok tps t ↔ List.Forall₂ Parameter.Types ps tps ∧
      (ps.map (·.name)).Nodup ∧ (∀ p ∈ ps, p.name ∉ seen) ∧ s = t := by
  induction ps generalizing seen tps s t with
  | nil =>
    rw [parameters, pure_run_eq_ok_iff]
    simp [eq_comm]
  | cons p rest ih =>
    have hnew {u : Unit} {s' : Store Ty} :
        requireNew seen p.name s = .ok u s' ↔ p.name ∉ seen ∧ s' = s := by
      unfold requireNew
      split
      · next hseen =>
        constructor
        · intro h
          cases h
        · rintro ⟨h, -⟩
          exact absurd hseen h
      · next hseen =>
        rw [pure_run_eq_ok_iff]
        simp [hseen, eq_comm]
    simp only [parameters, bind_run_eq_ok_iff, pure_run_eq_ok_iff, hnew, declaredTy_run_iff, ih,
      List.map_cons, List.nodup_cons, List.mem_cons, forall_eq_or_imp, not_or]
    constructor
    · rintro ⟨_, _, ⟨hp, rfl⟩, ty, _, ⟨hty, rfl⟩, tps, _, ⟨hrest, hnodup, hseen, rfl⟩, rfl, rfl⟩
      refine ⟨.cons ⟨rfl, hty⟩ hrest, ⟨?_, hnodup⟩, ⟨hp, fun q hq => (hseen q hq).2⟩, rfl⟩
      intro hmem
      obtain ⟨q, hq, hname⟩ := List.mem_map.mp hmem
      exact (hseen q hq).1 hname
    · rintro ⟨hall, ⟨hp, hnodup⟩, ⟨hpseen, hseen⟩, rfl⟩
      obtain ⟨tp, tps, ⟨hname, hty⟩, hrest, rfl⟩ := List.forall₂_cons_left_iff.mp hall
      refine ⟨(), s, ⟨hpseen, rfl⟩, tp.ty, s, ⟨hty, rfl⟩, tps, s,
        ⟨hrest, hnodup, fun q hq => ⟨fun h => ?_, hseen q hq⟩, rfl⟩, ?_, rfl⟩
      · exact hp (List.mem_map.mpr ⟨q, hq, h⟩)
      · rw [← hname]

theorem signature_run_iff {d : Definition} {signature : Signature} :
    Check.signature d s = .ok signature t ↔ Signature.Types d signature ∧ s = t := by
  simp only [Check.signature, bind_run_eq_ok_iff, pure_run_eq_ok_iff, parameters_run_iff,
    declaredTy_run_iff]
  constructor
  · rintro ⟨tps, _, ⟨hparams, hnodup, -, rfl⟩, returns, _, ⟨hreturns, rfl⟩, rfl, rfl⟩
    exact ⟨⟨hparams, hnodup, hreturns⟩, rfl⟩
  · rintro ⟨⟨hparams, hnodup, hreturns⟩, rfl⟩
    exact ⟨signature.parameters, s, ⟨hparams, hnodup, by simp, rfl⟩, signature.returns, s,
      ⟨hreturns, rfl⟩, rfl, rfl⟩

/-- The bindings of methods with the given signatures. -/
def methodBindings (ds : List Definition) (signatures : List Signature) : List (String × Ty) :=
  List.zipWith (fun d signature => (d.name, signature.ty)) ds signatures

theorem registerMethods_run_iff {ds : List Definition} {signatures : List Signature}
    (hm : members < s.size) :
    registerMethods members ds s = .ok signatures t ↔
      List.Forall₂ Signature.Types ds signatures ∧ (ds.map (·.name)).Nodup ∧
        (∀ d ∈ ds, d.name ∉ s.names members) ∧
        t = s.appendAll members (methodBindings ds signatures) := by
  induction ds generalizing s signatures with
  | nil =>
    rw [registerMethods, pure_run_eq_ok_iff]
    simp only [List.forall₂_nil_left_iff, List.map_nil, List.nodup_nil, true_and]
    constructor
    · rintro ⟨rfl, rfl⟩
      exact ⟨rfl, by simp, rfl⟩
    · rintro ⟨rfl, -, rfl⟩
      exact ⟨rfl, rfl⟩
  | cons d rest ih =>
    have hnames (ty : Ty) := s.names_append hm d.name ty
    simp only [registerMethods, bind_run_eq_ok_iff, pure_run_eq_ok_iff, requireFree_run_iff,
      signature_run_iff, define_run_iff, List.map_cons, List.nodup_cons, List.mem_cons,
      forall_eq_or_imp]
    constructor
    · rintro ⟨_, _, ⟨hd, rfl⟩, signature, _, ⟨hsignature, rfl⟩, _, _, ⟨-, rfl⟩, signatures, _,
        hrest, rfl, rfl⟩
      obtain ⟨hall, hnodup, hfree, rfl⟩ := (ih (by simpa using hm)).mp hrest
      rw [hnames] at hfree
      refine ⟨.cons hsignature hall, ⟨?_, hnodup⟩, ⟨hd, fun d' hd' h => ?_⟩, rfl⟩
      · intro hmem
        obtain ⟨d', hd', hname⟩ := List.mem_map.mp hmem
        exact hfree d' hd' (by simp [hname])
      · exact hfree d' hd' (List.mem_append_left _ h)
    · rintro ⟨hall, ⟨hnew, hnodup⟩, ⟨hd, hfree⟩, rfl⟩
      obtain ⟨signature, signatures, hsignature, hrest, rfl⟩ := List.forall₂_cons_left_iff.mp hall
      refine ⟨(), s, ⟨hd, rfl⟩, signature, s, ⟨hsignature, rfl⟩, (), _, ⟨hd, rfl⟩, signatures, _,
        (ih (by simpa using hm)).mpr ⟨hrest, hnodup, fun d' hd' h => ?_, rfl⟩, rfl, rfl⟩
      rw [hnames, List.mem_append, List.mem_singleton] at h
      rcases h with h | h
      · exact hfree d' hd' h
      · exact hnew (List.mem_map.mpr ⟨d', hd', h⟩)

end Check

end ObjectLang
