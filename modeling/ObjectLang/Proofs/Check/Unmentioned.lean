import ObjectLang.Proofs.Acyclicity
import ObjectLang.Proofs.Program.Vocabulary
import ObjectLang.Proofs.Scope.Surplus

/-!
# Names that a program does not mention, in the checker

The checker asks frames for the names that the program mentions, and for the name that holds the
type of the enclosing function's result. To a binding of any other name it is blind: it comes to the
same conclusion with it and without it, object types bear the same numbers, and the frames differ by
that binding in the end as they did in the beginning. -/

namespace ObjectLang

open Store (Surplus)

/-! ## Texts -/

namespace Ty

variable {K : Set FrameId}

mutual

/-- The text of a type depends on the texts of the object types that occur in it. -/
theorem textWith_congr {object object' : FrameId → String}
    (h : ∀ o ∈ K, object' o = object o) :
    ∀ ty : Ty, ty.Within K → ty.textWith object' = ty.textWith object
  | .function params returns, hty => by
    have hparams : AllWithin K params := fun p hp o ho =>
      hty o (List.mem_append_left _ (mem_objectsOf.mpr ⟨p, hp, ho⟩))
    have hreturns : returns.Within K := hty.returns
    rw [textWith, textWith, textsWith_congr h params hparams, textWith_congr h returns hreturns]
  | .object o, hty => h o hty.of_object
  | .any, _ | .nil, _ | .boolean, _ | .integer, _ | .decimal, _ | .string, _ | .comparable, _
  | .equatable, _ | .iterable, _ => rfl

theorem textsWith_congr {object object' : FrameId → String}
    (h : ∀ o ∈ K, object' o = object o) :
    ∀ tys : List Ty, AllWithin K tys → textsWith object' tys = textsWith object tys
  | [], _ => rfl
  | ty :: rest, htys => by
    obtain ⟨hty, hrest⟩ := List.forall_mem_cons.mp htys
    rw [textsWith, textsWith, textWith_congr h ty hty, textsWith_congr h rest hrest]

end

mutual

/-- So does its JSON depend on that of the object types. -/
theorem jsonWith_congr {object object' : FrameId → Json}
    (h : ∀ o ∈ K, object' o = object o) :
    ∀ ty : Ty, ty.Within K → ty.jsonWith object' = ty.jsonWith object
  | .function params returns, hty => by
    have hparams : AllWithin K params := fun p hp o ho =>
      hty o (List.mem_append_left _ (mem_objectsOf.mpr ⟨p, hp, ho⟩))
    have hreturns : returns.Within K := hty.returns
    rw [jsonWith, jsonWith, jsonsWith_congr h params hparams, jsonWith_congr h returns hreturns]
  | .object o, hty => h o hty.of_object
  | .any, _ | .nil, _ | .boolean, _ | .integer, _ | .decimal, _ | .string, _ | .comparable, _
  | .equatable, _ | .iterable, _ => rfl

theorem jsonsWith_congr {object object' : FrameId → Json}
    (h : ∀ o ∈ K, object' o = object o) :
    ∀ tys : List Ty, AllWithin K tys → jsonsWith object' tys = jsonsWith object tys
  | [], _ => rfl
  | ty :: rest, htys => by
    obtain ⟨hty, hrest⟩ := List.forall_mem_cons.mp htys
    rw [jsonsWith, jsonsWith, jsonWith_congr h ty hty, jsonsWith_congr h rest hrest]

end

end Ty

/-- A message shows the types in the rejection. -/
theorem CheckError.message_congr {s t : Store Ty} {e : CheckError}
    (h : ∀ ty ∈ e.types, ty.text t = ty.text s) : e.message t = e.message s := by
  unfold message
  cases e with
  | typeMismatch expected found =>
    have hexpected : expected.text t = expected.text s := h expected List.mem_cons_self
    have hfound : found.text t = found.text s :=
      h found (List.mem_cons_of_mem _ List.mem_cons_self)
    dsimp only
    rw [hexpected, hfound]
  | invalidOperands op left right =>
    have hleft : left.text t = left.text s := h left List.mem_cons_self
    have hright : right.text t = right.text s :=
      h right (List.mem_cons_of_mem _ List.mem_cons_self)
    dsimp only
    rw [hleft, hright]
  | notCallable _ found | notAnObject found =>
    have hfound : found.text t = found.text s := h found List.mem_cons_self
    dsimp only
    rw [hfound]
  | _ => rfl

namespace Store.Surplus

variable {g : FrameId} {n : String} {a : Ty} {s t : Store Ty} {K : Set FrameId}
  (h : Surplus g n a s t) (hs : s.Sealed K) (hg : g ∉ K)
include h hs hg

theorem objectText_eq (depth : Nat) :
    ∀ o ∈ K, Ty.objectText t depth o = Ty.objectText s depth o := by
  induction depth with
  | zero =>
    intro o ho
    have hframe : o ≠ g := fun heq => hg (heq ▸ ho)
    unfold Ty.objectText
    dsimp only
    rw [h.others o hframe]
    cases s.bindings o <;> rfl
  | succ depth ih =>
    intro o ho
    have hframe : o ≠ g := fun heq => hg (heq ▸ ho)
    have htexts : ∀ b ∈ s.bindings o, b.2.textWith (Ty.objectText t depth) =
        b.2.textWith (Ty.objectText s depth) :=
      fun b hb => Ty.textWith_congr ih b.2 (hs.within o ho b hb)
    by_cases hempty : s.bindings o = []
    · rw [Ty.objectText_of_empty hempty, Ty.objectText_of_empty ((h.others o hframe).trans hempty)]
    · rw [Ty.objectText_succ hempty, Ty.objectText_succ (h.others o hframe ▸ hempty),
        h.others o hframe]
      rw [List.map_congr_left fun b hb => by rw [htexts b hb]]

theorem objectJson_eq (depth : Nat) :
    ∀ o ∈ K, Ty.objectJson t depth o = Ty.objectJson s depth o := by
  induction depth with
  | zero => exact fun _ _ => rfl
  | succ depth ih =>
    intro o ho
    have hframe : o ≠ g := fun heq => hg (heq ▸ ho)
    have hjson : ∀ b ∈ s.bindings o, b.2.jsonWith (Ty.objectJson t depth) =
        b.2.jsonWith (Ty.objectJson s depth) :=
      fun b hb => Ty.jsonWith_congr ih b.2 (hs.within o ho b hb)
    rw [Ty.objectJson, Ty.objectJson, h.others o hframe]
    rw [List.map_congr_left fun b hb => by rw [hjson b hb]]

/-- Types that are not about the frame are shown and written as before. -/
theorem text_eq {ty : Ty} (hty : ty.Within K) :
    ty.text t = ty.text s ∧ ty.toJson t = ty.toJson s := by
  rw [Ty.text, Ty.text, Ty.toJson, Ty.toJson, h.size_eq]
  exact ⟨Ty.textWith_congr (h.objectText_eq hs hg _) ty hty,
    Ty.jsonWith_congr (h.objectJson_eq hs hg _) ty hty⟩

end Store.Surplus

namespace Check

/-! ## Runs -/

/-- The run does not depend on whether the frame `g` also binds `n` to `ty`, and leaves it at that.
-/
def Blind (g : FrameId) (n : String) (ty : Ty) {α : Type} (x : CheckM α) : Prop :=
  ∀ s t : Store Ty, Surplus g n ty s t → (x s).Alike (Surplus g n ty) (x t)

namespace Blind

variable {α β : Type} {g : FrameId} {n : String} {ty : Ty}

theorem storeless : Storeless (@Blind g n ty) where
  pure _ := fun _ _ h => .ok h
  throw _ := fun _ _ h => .error h
  bind hx hk := fun s t h => bind_run_alike (hx s t h) fun a s' t' _ h' => hk a s' t' h'

theorem pure (a : α) : Blind g n ty (pure a) := storeless.pure a

theorem throw (e : CheckError) : Blind g n ty (throw e : CheckM α) := fun _ _ h => .error h

theorem bind {x : CheckM α} {k : α → CheckM β} (hx : Blind g n ty x)
    (hk : ∀ a, Blind g n ty (k a)) : Blind g n ty (x >>= k) := storeless.bind hx hk

/-- What the first part gives is known when the second part runs. -/
theorem bind_run {x : CheckM α} {k : α → CheckM β} (hx : Blind g n ty x)
    (hk : ∀ a s s', x s = .ok a s' → Blind g n ty (k a)) : Blind g n ty (x >>= k) :=
  fun s t h => bind_run_alike (hx s t h) fun a s' t' hrun h' => hk a s s' hrun s' t' h'

theorem newFrame (p : Option FrameId) : Blind g n ty (newFrame p) := by
  intro s t h
  rw [newFrame_run, newFrame_run, h.size_eq]
  exact .ok (h.newFrame p)

/-! ## Other names -/

section

variable {name : String} (hname : name ≠ n)
include hname

theorem lookup? (f : FrameId) : Blind g n ty (lookup? f name) := by
  intro s t h
  rw [lookup?_run, lookup?_run, h.lookup_eq hname]
  exact .ok h

theorem lookup (f : FrameId) : Blind g n ty (lookup f name) := by
  refine bind (lookup? hname f) fun found => ?_
  cases found with
  | some found => exact pure found
  | none => exact throw _

theorem memberTy (members : FrameId) : Blind g n ty (memberTy members name) := by
  intro s t h
  unfold Check.memberTy
  rw [get_bind_run, get_bind_run, h.own?_eq hname]
  cases s.own? members name with
  | some found => exact .ok h
  | none => exact .error h

theorem requireFree (f : FrameId) : Blind g n ty (requireFree f name) := by
  intro s t h
  unfold Check.requireFree
  rw [get_bind_run, get_bind_run, h.defines_eq hname]
  cases s.defines f name with
  | true => exact .error h
  | false => exact .ok h

theorem define (f : FrameId) (found : Ty) : Blind g n ty (define f name found) :=
  bind (requireFree hname f) fun _ _ _ h => .ok (h.append f hname found)

end

theorem defineAll (f : FrameId) {bindings : List (String × Ty)}
    (h : ∀ b ∈ bindings, b.1 ≠ n) : Blind g n ty (defineAll f bindings) := by
  induction bindings with
  | nil => exact pure ()
  | cons b rest ih =>
    obtain ⟨hb, hrest⟩ := List.forall_mem_cons.mp h
    exact bind (define hb f b.2) fun _ => ih hrest

/-- The frame of a body gets the names of the function's parameters and two names of its own. -/
theorem defineBody (hthis : thisName ≠ n) (hreturns : returnsName ≠ n) (frame : FrameId)
    (this : Option Ty) {signature : Signature} (h : ∀ p ∈ signature.parameters, p.name ≠ n) :
    Blind g n ty (Check.defineAll frame (bodyBindings this signature)) := by
  refine defineAll frame fun b hb => ?_
  rw [bodyBindings, List.mem_append, List.mem_append, List.mem_singleton] at hb
  rcases hb with (hb | hb) | rfl
  · obtain ⟨_, -, rfl⟩ := List.mem_map.mp hb
    exact hthis
  · obtain ⟨p, hp, rfl⟩ := List.mem_map.mp hb
    exact h p hp
  · exact hreturns

theorem registerMethods (members : FrameId) {methods : List Definition}
    (h : WrittenInMethods (.without n) methods) :
    Blind g n ty (registerMethods members methods) := by
  induction methods with
  | nil => exact pure []
  | cons d rest ih =>
    obtain ⟨hd, hrest⟩ := h
    have hname : d.name ≠ n := (Definition.writtenIn_iff.mp hd).1
    refine bind (requireFree hname members) fun _ => bind (storeless.signature d) fun s => ?_
    exact bind (define hname members s.ty) fun _ => bind (ih hrest) fun _ => pure _

theorem parameters_of_signature {d : Definition} (hd : d.WrittenIn (.without n)) {s t : Store Ty}
    {signature : Signature} (h : Check.signature d s = .ok signature t) :
    ∀ p ∈ signature.parameters, p.name ≠ n := by
  intro p hp
  have hmem : p.name ∈ d.parameters.map (·.name) := signature_names h ▸ List.mem_map_of_mem hp
  obtain ⟨q, hq, hname⟩ := List.mem_map.mp hmem
  exact hname ▸ (Definition.writtenIn_iff.mp hd).2.1 q hq

theorem parameters_of_registerMethods {methods : List Definition}
    (hmethods : WrittenInMethods (.without n) methods) {members : FrameId} {s t : Store Ty}
    {signatures : List Signature} (h : Check.registerMethods members methods s = .ok signatures t) :
    ∀ signature ∈ signatures, ∀ p ∈ signature.parameters, p.name ≠ n := by
  intro signature hsignature p hp
  have hnames : signature.parameters.map (·.name) ∈
      methods.map (·.parameters.map (·.name)) :=
    registerMethods_parameters h ▸ List.mem_map_of_mem hsignature
  obtain ⟨d, hd, heq⟩ := List.mem_map.mp hnames
  have hmem : p.name ∈ d.parameters.map (·.name) := heq ▸ List.mem_map_of_mem hp
  obtain ⟨q, hq, hname⟩ := List.mem_map.mp hmem
  exact hname ▸ (Definition.writtenIn_iff.mp (writtenInMethods_iff.mp hmethods d hd)).2.1 q hq

/-! ## Trees -/

section Trees

set_option linter.unusedSectionVars false

variable (hthis : thisName ≠ n) (hreturns : returnsName ≠ n)
include hthis hreturns

mutual

theorem expr (f : FrameId) : ∀ e : Expr, e.WrittenIn (.without n) → Blind g n ty (expr f e)
  | .literal value, _ => by
    rw [Check.expr]
    exact pure _
  | .group inner, he => by
    rw [Check.expr]
    exact bind (expr f inner he) fun _ => pure _
  | .binary op left right, ⟨hleft, hright⟩ => by
    rw [Check.expr]
    refine bind (expr f left hleft) fun l => bind (expr f right hright) fun r => ?_
    exact bind (storeless.operator _ _ _) fun _ => pure _
  | .variable name, hname => by
    rw [Check.expr]
    exact bind (lookup hname f) fun _ => pure _
  | .property receiver name, ⟨hreceiver, hname⟩ => by
    rw [Check.expr]
    refine bind (expr f receiver hreceiver) fun r => ?_
    refine bind (storeless.membersOf r.ty) fun members => ?_
    exact bind (memberTy hname members) fun _ => pure _
  | .call name arguments, ⟨hname, harguments⟩ => by
    rw [Check.expr]
    refine bind (lookup hname f) fun target => bind (storeless.callable name _ target) ?_
    rintro ⟨params, returns⟩
    exact bind (exprs f arguments params harguments) fun _ => pure _
  | .method receiver name arguments, ⟨hreceiver, hname, harguments⟩ => by
    rw [Check.expr]
    refine bind (expr f receiver hreceiver) fun r => ?_
    refine bind (storeless.membersOf r.ty) fun members => ?_
    refine bind (memberTy hname members) fun target => ?_
    refine bind (storeless.callable name _ target) ?_
    rintro ⟨params, returns⟩
    exact bind (exprs f arguments params harguments) fun _ => pure _
  | .object name fields methods, ⟨hfields, hmethods⟩ => by
    rw [Check.expr]
    refine bind (storeless.requireUnreserved name) fun _ => bind (newFrame none) fun members => ?_
    refine bind (objectFields f members fields hfields) fun _ => ?_
    refine bind_run (registerMethods members hmethods) fun signatures _ _ hrun => ?_
    have hparameters := parameters_of_registerMethods hmethods hrun
    refine bind (objectMethods f (.object members) methods signatures hmethods hparameters) ?_
    exact fun _ => pure _

theorem exprs (f : FrameId) : ∀ (es : List Expr) (params : List Ty),
    WrittenInExprs (.without n) es → Blind g n ty (exprs f es params)
  | e :: rest, param :: params, ⟨he, hrest⟩ => by
    rw [Check.exprs]
    refine bind (expr f e he) fun e => bind (storeless.requireSubtype e.ty param) fun _ => ?_
    exact bind (exprs f rest params hrest) fun _ => pure _
  | [], _, _ => by
    rw [Check.exprs.eq_def]
    exact pure []
  | _ :: _, [], _ => by
    rw [Check.exprs.eq_def]
    exact pure []

theorem optionalExpr (f : FrameId) : ∀ e : Option Expr, WrittenInOption (.without n) e →
    Blind g n ty (optionalExpr f e)
  | none, _ => by
    rw [Check.optionalExpr]
    exact pure none
  | some e, he => by
    rw [Check.optionalExpr]
    exact bind (expr f e he) fun _ => pure _

theorem declaration (f : FrameId) : ∀ d : Declaration, d.WrittenIn (.without n) →
    Blind g n ty (declaration f d)
  | ⟨name, typeName, value⟩, ⟨_, hvalue⟩ => by
    rw [Check.declaration]
    refine bind (storeless.declaredTy? typeName) fun declared => ?_
    refine bind (optionalExpr f value hvalue) fun v => ?_
    exact bind (storeless.bindingTy declared v) fun _ => pure _

theorem objectFields (f members : FrameId) : ∀ fields : List Declaration,
    WrittenInFields (.without n) fields → Blind g n ty (objectFields f members fields)
  | [], _ => by
    rw [Check.objectFields]
    exact pure []
  | d :: rest, ⟨hd, hrest⟩ => by
    rw [Check.objectFields]
    have hname : d.name ≠ n := (Declaration.writtenIn_iff.mp hd).1
    refine bind (requireFree hname members) fun _ => ?_
    refine bind_run (declaration f d hd) fun t _ _ hrun => ?_
    rw [← declaration_name hrun] at hname
    refine bind (define hname members t.ty) fun _ => ?_
    exact bind (objectFields f members rest hrest) fun _ => pure _

theorem objectMethods (f : FrameId) (this : Ty) :
    ∀ (methods : List Definition) (signatures : List Signature),
    WrittenInMethods (.without n) methods →
    (∀ signature ∈ signatures, ∀ p ∈ signature.parameters, p.name ≠ n) →
    Blind g n ty (objectMethods f this methods signatures)
  | d :: rest, s :: signatures, ⟨hd, hrest⟩, h => by
    rw [Check.objectMethods]
    obtain ⟨hs, hsignatures⟩ := List.forall_mem_cons.mp h
    refine bind (definition f (some this) d s hd hs) fun _ => ?_
    exact bind (objectMethods f this rest signatures hrest hsignatures) fun _ => pure _
  | [], _, _, _ => by
    rw [Check.objectMethods.eq_def]
    exact pure []
  | _ :: _, [], _, _ => by
    rw [Check.objectMethods.eq_def]
    exact pure []

theorem definition (f : FrameId) (this : Option Ty) : ∀ (d : Definition) (s : Signature),
    d.WrittenIn (.without n) → (∀ p ∈ s.parameters, p.name ≠ n) →
    Blind g n ty (definition f this d s)
  | ⟨name, parameters, returnType, body⟩, s, ⟨_, _, hbody⟩, h => by
    rw [Check.definition]
    refine bind (newFrame (some f)) fun frame => ?_
    refine bind (defineBody hthis hreturns frame this h) fun _ => ?_
    exact bind (stmts frame body hbody) fun _ => pure _

theorem stmt (f : FrameId) : ∀ s : Stmt, s.WrittenIn (.without n) → Blind g n ty (stmt f s)
  | .declare d, hd => by
    rw [Check.stmt]
    have hname : d.name ≠ n := (Declaration.writtenIn_iff.mp hd).1
    refine bind (requireFree hname f) fun _ => ?_
    refine bind_run (declaration f d hd) fun t _ _ hrun => ?_
    rw [← declaration_name hrun] at hname
    exact bind (define hname f t.ty) fun _ => pure _
  | .define d, hd => by
    rw [Check.stmt]
    have hname : d.name ≠ n := (Definition.writtenIn_iff.mp hd).1
    refine bind (requireFree hname f) fun _ => ?_
    refine bind_run (storeless.signature d) fun s _ _ hrun => ?_
    have hparameters := parameters_of_signature hd hrun
    refine bind (define hname f s.ty) fun _ => ?_
    exact bind (definition f none d s hd hparameters) fun _ => pure _
  | .branch condition thenBody elseBody, ⟨hcondition, hthen, helse⟩ => by
    rw [Check.stmt]
    refine bind (expr f condition hcondition) fun t => ?_
    refine bind (storeless.requireSubtype t.ty _) fun _ => ?_
    refine bind (newFrame (some f)) fun thenFrame => ?_
    refine bind (stmts thenFrame thenBody hthen) fun _ => ?_
    refine bind (newFrame (some f)) fun elseFrame => ?_
    exact bind (stmts elseFrame elseBody helse) fun _ => pure _
  | .forEach name items body, ⟨hname, hitems, hbody⟩ => by
    rw [Check.stmt]
    refine bind (expr f items hitems) fun t => bind (storeless.requireSubtype t.ty _) fun _ => ?_
    refine bind (newFrame (some f)) fun frame => bind (define hname frame .integer) fun _ => ?_
    exact bind (stmts frame body hbody) fun _ => pure _
  | .ret value, hvalue => by
    rw [Check.stmt]
    refine bind (lookup? hreturns f) fun returns => ?_
    cases returns with
    | none => exact throw _
    | some returns =>
      refine bind (optionalExpr f value hvalue) fun v => ?_
      exact bind (storeless.requireSubtype _ returns) fun _ => pure _
  | .expression value, hvalue => by
    rw [Check.stmt]
    exact bind (expr f value hvalue) fun _ => pure _
  | .assign (.variable name) value, ⟨_, hname, hvalue⟩ => by
    rw [Check.stmt]
    refine bind (lookup hname f) fun found => bind (expr f value hvalue) fun t => ?_
    exact bind (storeless.requireSubtype t.ty found) fun _ => pure _
  | .assign (.property receiver name) value, ⟨_, ⟨hreceiver, hname⟩, hvalue⟩ => by
    rw [Check.stmt]
    refine bind (expr f receiver hreceiver) fun r => ?_
    refine bind (storeless.membersOf r.ty) fun members => ?_
    refine bind (memberTy hname members) fun found => bind (expr f value hvalue) fun t => ?_
    exact bind (storeless.requireSubtype t.ty found) fun _ => pure _
  | .assign (.literal _) _, _ | .assign (.group _) _, _ | .assign (.binary _ _ _) _, _
  | .assign (.call _ _) _, _ | .assign (.method _ _ _) _, _ | .assign (.object _ _ _) _, _ => by
    rw [Check.stmt.eq_def]
    exact throw _

theorem stmts (f : FrameId) : ∀ body : List Stmt, WrittenInStmts (.without n) body →
    Blind g n ty (stmts f body)
  | [], _ => by
    rw [Check.stmts]
    exact pure []
  | s :: rest, ⟨hs, hrest⟩ => by
    rw [Check.stmts]
    exact bind (stmt f s hs) fun _ => bind (stmts f rest hrest) fun _ => pure _

end

/-- The checker is blind to a name that a program does not mention. -/
theorem program (f : FrameId) {p : Program} (hp : p.WrittenIn (.without n)) :
    Blind g n ty (program f p) :=
  bind (stmts hthis hreturns f p.statements hp) fun _ => pure _

end Trees

end Blind

/-! ## What people read -/

/-- The types that an accepted program or a rejection hands out. -/
def typesOfResult : EStateM.Result CheckError (Store Ty) TypedProgram → List Ty
  | .ok typed _ => typed.types
  | .error e _ => e.types

/-- The conclusion `r'` reads like `r`: its types have the same texts and the same JSON, and a
rejection has the same message. -/
structure ReadsAlike (r r' : EStateM.Result CheckError (Store Ty) TypedProgram) : Prop where
  types : ∀ ty ∈ typesOfResult r,
    ty.text r'.state = ty.text r.state ∧ ty.toJson r'.state = ty.toJson r.state
  message : ∀ e s, r = .error e s → e.message r'.state = e.message r.state

variable {f g : FrameId} {n : String} {ty : Ty} {s t : Store Ty}

/-- If the frame with the binding is not that of an object type that can be reached, then what the
checker says reads the same. -/
theorem readsAlike_program {p : Program}
    (halike : (program f p s).Alike (Surplus g n ty) (program f p t)) (hf : s.Host f)
    (hlt : g < s.size) (hg : g ∉ s.reach f) : ReadsAlike (program f p s) (program f p t) := by
  obtain ⟨hsealed, hhome⟩ := hf.sealed_reach
  have hseals := Seals.program p hsealed hhome
  rw [Seals] at hseals
  generalize program f p s = r at hseals halike
  generalize program f p t = r' at halike
  cases halike with
  | ok h' =>
    obtain ⟨K, hlater, hsealed', htyped⟩ := hseals
    have hg' := hlater.notMem hlt hg
    exact ⟨fun ty hty => h'.text_eq hsealed' hg' (htyped ty hty), fun _ _ heq => by cases heq⟩
  | error h' =>
    obtain ⟨K, hlater, hsealed', he⟩ := hseals
    have hg' := hlater.notMem hlt hg
    refine ⟨fun ty hty => h'.text_eq hsealed' hg' (he ty hty), ?_⟩
    rintro e _ ⟨⟩
    exact CheckError.message_congr fun ty hty => (h'.text_eq hsealed' hg' (he ty hty)).1

end Check

end ObjectLang
