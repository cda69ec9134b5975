import ObjectLang.Proofs.Outcome
import ObjectLang.Proofs.TypeSystem.Acyclic
import ObjectLang.Proofs.TypeSystem.Introduction
import ObjectLang.Proofs.Typed.Types

/-!
# Sealing frames of members

The frame of an object literal is opened before the fields are checked, gets the fields one by one
and then the methods, and is complete before any body is checked. From then on it is sealed. The
object types that a step of the checker meets are sealed ones: until a literal is complete nothing
refers to its frame, and the literals inside of its fields are complete before it is, and those
inside of its methods afterwards.

Here are the rules for the single steps. Most steps only read the store; `Check.Reads` is for them,
and `Check.Seals` for those that open frames and bind names. Both also speak of rejections, for the
types in them are handed out as well.
-/

namespace ObjectLang

/-- The object types that occur in the types are among those in `K`. -/
def Ty.AllWithin (K : Set FrameId) (tys : List Ty) : Prop := ∀ ty ∈ tys, ty.Within K

namespace Ty.AllWithin

variable {K K' : Set FrameId} {tys tys' : List Ty} {ty : Ty}

theorem mono (h : AllWithin K tys) (hK : K ⊆ K') : AllWithin K' tys :=
  fun ty hty => (h ty hty).mono hK

theorem nil (K : Set FrameId) : AllWithin K [] := fun ty hty => by cases hty

theorem cons (hty : ty.Within K) (h : AllWithin K tys) : AllWithin K (ty :: tys) :=
  List.forall_mem_cons.mpr ⟨hty, h⟩

theorem append (h : AllWithin K tys) (h' : AllWithin K tys') : AllWithin K (tys ++ tys') :=
  List.forall_mem_append.mpr ⟨h, h'⟩

theorem singleton (hty : ty.Within K) : AllWithin K [ty] := cons hty (nil K)

theorem pair {ty' : Ty} (hty : ty.Within K) (hty' : ty'.Within K) : AllWithin K [ty, ty'] :=
  cons hty (singleton hty')

end Ty.AllWithin

/-! ## Later states -/

namespace Store

/-- `t` is a later state of the store than `s`, in which the frames in `K'` are sealed, where those
in `K` were before: frames that are sealed meanwhile have been opened meanwhile, and the types that
have been bound meanwhile are about sealed frames. -/
structure Later (s : Store Ty) (K : Set FrameId) (t : Store Ty) (K' : Set FrameId) : Prop where
  subset : K ⊆ K'
  fresh : ∀ o ∈ K', o ∈ K ∨ s.size ≤ o
  size_le : s.size ≤ t.size
  parent_eq : ∀ f < s.size, t.parent? f = s.parent? f
  kept : ∀ o ∈ K, t.bindings o = s.bindings o
  added : ∀ f, ∀ b ∈ t.bindings f, b ∈ s.bindings f ∨ b.2.Within K'

variable {s t u : Store Ty} {K K' K'' : Set FrameId} {f : FrameId}

namespace Later

theorem refl (s : Store Ty) (K : Set FrameId) : s.Later K s K :=
  ⟨subset_rfl, fun _ ho => .inl ho, le_rfl, fun _ _ => rfl, fun _ _ => rfl, fun _ _ hb => .inl hb⟩

theorem trans (h : s.Later K t K') (h' : t.Later K' u K'') : s.Later K u K'' := by
  refine ⟨h.subset.trans h'.subset, fun o ho => ?_, h.size_le.trans h'.size_le, fun f hf => ?_,
    fun o ho => ?_, fun f b hb => ?_⟩
  · rcases h'.fresh o ho with ho | ho
    · exact h.fresh o ho
    · exact .inr (h.size_le.trans ho)
  · rw [h'.parent_eq f (hf.trans_le h.size_le), h.parent_eq f hf]
  · rw [h'.kept o (h.subset ho), h.kept o ho]
  · rcases h'.added f b hb with hb | hb
    · rcases h.added f b hb with hb | hb
      · exact .inl hb
      · exact .inr (hb.mono h'.subset)
    · exact .inr hb

/-- A frame that exists and is not sealed stays unsealed. -/
theorem notMem (h : s.Later K t K') (hf : f < s.size) (hfK : f ∉ K) : f ∉ K' := by
  intro hmem
  rcases h.fresh f hmem with ho | ho
  · exact hfK ho
  · exact absurd hf (Nat.not_lt.mpr ho)

theorem newFrame (s : Store Ty) (K : Set FrameId) (p : Option FrameId) :
    s.Later K (s.newFrame p).2 K := by
  refine ⟨subset_rfl, fun _ ho => .inl ho, by simp, fun f hf => ?_, fun o _ => ?_,
    fun f b hb => ?_⟩
  · rw [parent?_newFrame, if_neg (Nat.ne_of_lt hf)]
  · exact bindings_newFrame s p o
  · rw [bindings_newFrame] at hb
    exact .inl hb

theorem append (hf : f ∉ K) (name : String) {ty : Ty} (hty : ty.Within K) :
    s.Later K (s.append f name ty) K := by
  refine ⟨subset_rfl, fun _ ho => .inl ho, by simp, fun f' _ => by simp, fun o ho => ?_,
    fun f' b hb => ?_⟩
  · have hne : ¬ (f = o ∧ f < s.size) := fun h => hf (h.1 ▸ ho)
    rw [bindings_append, if_neg hne]
  · rw [bindings_append] at hb
    split at hb
    · rcases List.mem_append.mp hb with hb | hb
      · exact .inl hb
      · rw [List.mem_singleton] at hb
        exact .inr (hb ▸ hty)
    · exact .inl hb

/-- A frame that was opened meanwhile may be sealed. -/
theorem complete (h : s.Later K t K') {m : FrameId} (hm : s.size ≤ m) :
    s.Later K t (insert m K') := by
  have hsub : K' ⊆ insert m K' := Set.subset_insert m K'
  refine ⟨h.subset.trans hsub, fun o ho => ?_, h.size_le, h.parent_eq, h.kept, fun f b hb => ?_⟩
  · rcases ho with rfl | ho
    · exact .inr hm
    · exact h.fresh o ho
  · rcases h.added f b hb with hb | hb
    · exact .inl hb
    · exact .inr (hb.mono hsub)

end Later

/-- Names may be bound in a frame for as long as it is not sealed. -/
theorem Home.later (hf : s.Home K f) (h : s.Later K t K') : t.Home K' f := by
  refine ⟨hf.lt_size.trans_le h.size_le, h.notMem hf.lt_size hf.notMem, fun g hg b hb => ?_⟩
  rw [chain_eq_of_parent?_eq h.parent_eq hf.lt_size] at hg
  rcases h.added g b hb with hb | hb
  · exact (hf.within g hg b hb).mono h.subset
  · exact hb

/-- Names may be bound in the new frame of a block. -/
theorem Home.child (hf : s.Home K f) (hs : s.Sealed K) : (s.newFrame (some f)).2.Home K s.size := by
  have hparents : ∀ f' < s.size, (s.newFrame (some f)).2.parent? f' = s.parent? f' :=
    (Later.newFrame s K (some f)).parent_eq
  refine ⟨by simp, fun hmem => Nat.lt_irrefl _ (hs.lt_size _ hmem), fun g hg b hb => ?_⟩
  rw [bindings_newFrame] at hb
  rw [chain_eq, s.parent?_newFrame_size hf.lt_size, List.mem_cons] at hg
  rcases hg with rfl | hg
  · rw [s.bindings_of_size_le le_rfl] at hb
    cases hb
  · rw [Option.elim_some, chain_eq_of_parent?_eq hparents hf.lt_size] at hg
    exact hf.within g hg b hb

/-- What a name means in such a frame is about sealed frames. -/
theorem Home.lookup (hf : s.Home K f) {name : String} {ty : Ty}
    (hlookup : s.lookup f name = some ty) : ty.Within K := by
  obtain ⟨g, hg, hown⟩ := List.exists_of_findSome?_eq_some hlookup
  exact Closed.within_of_lookup (hf.within g hg) hown

end Store

/-! ## Operators -/

namespace Operator

variable {op : Operator} {left right : Ty} {e : CheckError} {K : Set FrameId}

theorem allWithin_of_requireSubtype {found expected : Ty} (hfound : found.Within K)
    (hexpected : expected.Within K) (h : found.requireSubtype expected = .error e) :
    Ty.AllWithin K e.types := by
  obtain ⟨rfl, -⟩ := Ty.requireSubtype_eq_error h
  exact .pair hexpected hfound

/-- Operands are rejected for their own types or predefined ones. -/
theorem allWithin_of_resultTy (hleft : left.Within K) (hright : right.Within K)
    (h : op.resultTy left right = .error e) : Ty.AllWithin K e.types := by
  cases rejects_of_resultTy h with
  | operands => exact .pair hleft hright
  | different _ => exact .pair hleft hright
  | unfit hfound hexpected _ =>
    simp only [List.mem_cons, List.not_mem_nil, or_false] at hfound hexpected
    refine .pair ?_ ?_
    · rcases hexpected with rfl | rfl | rfl <;> exact .of_objects rfl K
    · rcases hfound with rfl | rfl
      · exact hleft
      · exact hright

end Operator

namespace Check

variable {α β : Type} {s : Store Ty} {K : Set FrameId} {f : FrameId} {name : String} {ty : Ty}

/-! ## Steps that read -/

/-- The step leaves the store as it is. If it succeeds, `Q` holds of what it gives, and a rejection
is about object types in `K`. -/
def Reads (x : CheckM α) (s : Store Ty) (K : Set FrameId) (Q : α → Prop) : Prop :=
  match x s with
  | .ok a t => t = s ∧ Q a
  | .error e t => t = s ∧ Ty.AllWithin K e.types

namespace Reads

variable {x : CheckM α} {k : α → CheckM β} {P : α → Prop} {Q : β → Prop}

theorem pure {a : α} (h : P a) : Reads (pure a) s K P := ⟨rfl, h⟩

theorem throw {e : CheckError} (h : Ty.AllWithin K e.types) :
    Reads (throw e : CheckM α) s K P := ⟨rfl, h⟩

theorem bind (hx : Reads x s K P) (hk : ∀ a, P a → Reads (k a) s K Q) :
    Reads (x >>= k) s K Q := by
  rw [Reads] at hx ⊢
  rw [bind_run]
  cases h : x s with
  | ok a t =>
    rw [h] at hx
    obtain ⟨rfl, ha⟩ := hx
    exact hk a ha
  | error e t =>
    rw [h] at hx
    exact hx

theorem result {r : Except CheckError α} (hok : ∀ a, r = .ok a → P a)
    (herror : ∀ e, r = .error e → Ty.AllWithin K e.types) : Reads (result r) s K P := by
  cases r with
  | ok a => exact pure (hok a rfl)
  | error e => exact throw (herror e rfl)

theorem requireFree (f : FrameId) (name : String) :
    Reads (requireFree f name) s K fun _ => True := by
  unfold Check.requireFree
  rw [Reads, get_bind_run]
  by_cases h : s.defines f name = true
  · rw [if_pos h]
    exact ⟨rfl, .nil K⟩
  · rw [if_neg h]
    exact ⟨rfl, trivial⟩

theorem lookup? (hf : s.Home K f) (name : String) :
    Reads (lookup? f name) s K fun ty => ∀ t ∈ ty, t.Within K :=
  ⟨rfl, fun _ ht => hf.lookup ht⟩

theorem lookup (hf : s.Home K f) (name : String) : Reads (lookup f name) s K (·.Within K) := by
  refine bind (lookup? hf name) fun ty hty => ?_
  cases ty with
  | some ty => exact pure (hty ty rfl)
  | none => exact throw (.nil K)

theorem requireSubtype {found expected : Ty} (hfound : found.Within K)
    (hexpected : expected.Within K) : Reads (requireSubtype found expected) s K fun _ => True :=
  result (fun _ _ => trivial) fun _ h =>
    Operator.allWithin_of_requireSubtype hfound hexpected h

theorem resolveName (name : String) : Reads (resolveName name) s K (·.Within K) := by
  unfold Check.resolveName
  split
  · next ty hty => exact pure (.of_name? (Ty.ofName?_eq_some_iff.mp hty) K)
  · exact throw (.nil K)

theorem declaredTy? (typeName : Option String) :
    Reads (declaredTy? typeName) s K fun ty => ∀ t ∈ ty, t.Within K := by
  cases typeName with
  | none => exact pure fun t ht => by cases ht
  | some name =>
    refine bind (resolveName name) fun ty hty => pure fun t ht => ?_
    cases ht
    exact hty

theorem declaredTy (typeName : Option String) : Reads (declaredTy typeName) s K (·.Within K) := by
  refine bind (declaredTy? typeName) fun ty hty => pure ?_
  cases ty with
  | some ty => exact hty ty rfl
  | none => exact .of_objects rfl K

theorem bindingTy {declared : Option Ty} {value : Option TypedExpr}
    (hdeclared : ∀ t ∈ declared, t.Within K) (hvalue : Ty.AllWithin K (typesOfOption value)) :
    Reads (bindingTy declared value) s K (·.Within K) := by
  cases declared with
  | none =>
    cases value with
    | none => exact pure (.of_objects rfl K)
    | some value => exact pure (hvalue _ value.ty_mem_types)
  | some ty =>
    cases value with
    | none => exact pure (hdeclared ty rfl)
    | some value =>
      have hty := hvalue _ value.ty_mem_types
      exact bind (requireSubtype hty (hdeclared ty rfl)) fun _ _ => pure (hdeclared ty rfl)

theorem requireUnreserved (name : Option String) :
    Reads (requireUnreserved name) s K fun _ => True := by
  cases name with
  | none => exact pure trivial
  | some name =>
    unfold Check.requireUnreserved
    dsimp only
    split
    · exact throw (.nil K)
    · exact pure trivial

theorem membersOf (hty : ty.Within K) : Reads (membersOf ty) s K (· ∈ K) := by
  cases ty with
  | object members => exact pure hty.of_object
  | _ => exact throw (.singleton hty)

theorem memberTy (hs : s.Sealed K) {members : FrameId} (hmembers : members ∈ K) (name : String) :
    Reads (memberTy members name) s K (·.Within K) := by
  unfold Check.memberTy
  rw [Reads, get_bind_run]
  cases hown : s.own? members name with
  | some ty =>
    exact ⟨rfl, Store.Closed.within_of_lookup (hs.within members hmembers) hown⟩
  | none => exact ⟨rfl, .nil K⟩

theorem callable (name : String) (count : Nat) (hty : ty.Within K) :
    Reads (callable name count ty) s K fun r => Ty.AllWithin K r.1 ∧ r.2.Within K := by
  cases ty with
  | function params returns =>
    unfold Check.callable
    dsimp only
    split
    · refine pure ⟨fun p hp o ho => ?_, hty.returns⟩
      exact hty o (List.mem_append_left _ (Ty.mem_objectsOf.mpr ⟨p, hp, ho⟩))
    · exact throw (.nil K)
  | _ => exact throw (.singleton hty)

theorem requireNew (seen : List String) (name : String) :
    Reads (requireNew seen name) s K fun _ => True := by
  unfold Check.requireNew
  split
  · exact throw (.nil K)
  · exact pure trivial

theorem parameters (seen : List String) (ps : List Parameter) :
    Reads (parameters seen ps) s K fun ps => ∀ p ∈ ps, p.ty.Within K := by
  induction ps generalizing seen with
  | nil => exact pure fun p hp => by cases hp
  | cons p rest ih =>
    refine bind (requireNew seen p.name) fun _ _ => bind (declaredTy p.typeName) fun ty hty => ?_
    exact bind (ih (p.name :: seen)) fun ps hps => pure (List.forall_mem_cons.mpr ⟨hty, hps⟩)

end Reads

theorem Signature.Within.mono {K' : Set FrameId} {signature : Signature}
    (h : signature.Within K) (hK : K ⊆ K') : signature.Within K' :=
  ⟨fun p hp => (h.parameters p hp).mono hK, h.returns.mono hK⟩

theorem Reads.signature (d : Definition) : Reads (signature d) s K (·.Within K) := by
  refine Reads.bind (Reads.parameters [] d.parameters) fun ps hps => ?_
  exact Reads.bind (Reads.declaredTy d.returnType) fun ty hty => Reads.pure ⟨hps, hty⟩

/-! ## Steps that bind names -/

/-- What a run from `s` came to. The frames in `K` were sealed before; more of them are sealed in
the state that it left. If the run succeeded, `Q` holds of what it gave and of the sealed frames,
and a rejection is about sealed object types. -/
def Sealing (r : EStateM.Result CheckError (Store Ty) α) (s : Store Ty) (K : Set FrameId)
    (Q : α → Set FrameId → Prop) : Prop :=
  match r with
  | .ok a t => ∃ K', s.Later K t K' ∧ t.Sealed K' ∧ Q a K'
  | .error e t => ∃ K', s.Later K t K' ∧ t.Sealed K' ∧ Ty.AllWithin K' e.types

/-- What a run came to from a later state, it came to from the state before. -/
theorem Sealing.of_later {r : EStateM.Result CheckError (Store Ty) α} {t : Store Ty}
    {K' : Set FrameId} {Q : α → Set FrameId → Prop} (hlater : s.Later K t K')
    (h : Sealing r t K' Q) : Sealing r s K Q := by
  cases r with
  | ok a u =>
    obtain ⟨K'', hlater', hsealed, ha⟩ := h
    exact ⟨K'', hlater.trans hlater', hsealed, ha⟩
  | error e u =>
    obtain ⟨K'', hlater', hsealed, he⟩ := h
    exact ⟨K'', hlater.trans hlater', hsealed, he⟩

/-- However the run ends, the object types in what it hands out are sealed. -/
def Seals (x : CheckM α) (s : Store Ty) (K : Set FrameId) (Q : α → Set FrameId → Prop) : Prop :=
  Sealing (x s) s K Q

namespace Seals

variable {x : CheckM α} {k : α → CheckM β} {P : α → Set FrameId → Prop}
  {Q : β → Set FrameId → Prop}

theorem pure (hs : s.Sealed K) {a : α} (h : P a K) : Seals (pure a) s K P :=
  ⟨K, .refl s K, hs, h⟩

theorem throw (hs : s.Sealed K) {e : CheckError} (h : Ty.AllWithin K e.types) :
    Seals (throw e : CheckM α) s K P := ⟨K, .refl s K, hs, h⟩

theorem bind (hx : Seals x s K P)
    (hk : ∀ a t K', s.Later K t K' → t.Sealed K' → P a K' → Seals (k a) t K' Q) :
    Seals (x >>= k) s K Q := by
  rw [Seals] at hx ⊢
  rw [bind_run]
  cases h : x s with
  | ok a t =>
    rw [h] at hx
    obtain ⟨K', hlater, hsealed, ha⟩ := hx
    exact (hk a t K' hlater hsealed ha).of_later hlater
  | error e t =>
    rw [h] at hx
    exact hx

/-- A step that reads leaves everything to the rest. -/
theorem read {R : α → Prop} (hs : s.Sealed K) (hx : Reads x s K R)
    (hk : ∀ a, R a → Seals (k a) s K Q) : Seals (x >>= k) s K Q := by
  rw [Reads] at hx
  rw [Seals, bind_run]
  cases h : x s with
  | ok a t =>
    rw [h] at hx
    obtain ⟨rfl, ha⟩ := hx
    exact hk a ha
  | error e t =>
    rw [h] at hx
    obtain ⟨rfl, he⟩ := hx
    exact ⟨K, .refl t K, hs, he⟩

/-- A block is checked in a new frame. -/
theorem child {k : FrameId → CheckM β} (hs : s.Sealed K) (hf : s.Home K f)
    (hk : ∀ t, s.Later K t K → t.Sealed K → t.Home K s.size → Seals (k s.size) t K Q) :
    Seals (newFrame (some f) >>= k) s K Q := by
  have hlater := Store.Later.newFrame s K (some f)
  have hsealed := hs.congr hlater.size_le hlater.kept
  rw [Seals, bind_run_ok (newFrame_run (some f) s)]
  exact (hk _ hlater hsealed (hf.child hs)).of_later hlater

/-- A literal opens the frame of its members and fills it. Nothing else refers to the frame until it
is filled, and then it may be sealed. -/
theorem literal {x : FrameId → CheckM α} {k : FrameId → α → CheckM β} (hs : s.Sealed K)
    (hx : ∀ t, s.Later K t K → t.Sealed K → s.size < t.size → s.size ∉ K →
      Seals (x s.size) t K P)
    (hk : ∀ a t K', s.Later K t (insert s.size K') → t.Sealed (insert s.size K') → P a K' →
      Seals (k s.size a) t (insert s.size K') Q) :
    Seals (newFrame none >>= fun members => x members >>= k members) s K Q := by
  have hopened := Store.Later.newFrame s K none
  have hsealed := hs.congr hopened.size_le hopened.kept
  have hnew : s.size < (s.newFrame none).2.size := by simp
  have hfree : s.size ∉ K := fun hmem => Nat.lt_irrefl _ (hs.lt_size _ hmem)
  have hfilled := hx _ hopened hsealed hnew hfree
  rw [Seals, bind_run_ok (newFrame_run none s), bind_run]
  rw [Seals] at hfilled
  cases h : x s.size (s.newFrame none).2 with
  | ok a t =>
    rw [h] at hfilled
    obtain ⟨K', hlater, hsealed', ha⟩ := hfilled
    have hwhole := hopened.trans hlater
    have hwithin : ∀ b ∈ t.bindings s.size, b.2.Within K' := by
      intro b hb
      rcases hwhole.added s.size b hb with hb | hb
      · rw [s.bindings_of_size_le le_rfl] at hb
        cases hb
      · exact hb
    have hcomplete := hwhole.complete le_rfl
    have hinsert := hsealed'.insert (hnew.trans_le hlater.size_le) hwithin
    exact (hk a t K' hcomplete hinsert ha).of_later hcomplete
  | error e t =>
    rw [h] at hfilled
    exact hfilled.of_later hopened

theorem define (hs : s.Sealed K) (hf : f ∉ K) (name : String) (hty : ty.Within K) :
    Seals (define f name ty) s K fun _ _ => True := by
  refine read hs (Reads.requireFree f name) fun _ _ => ?_
  have hlater := Store.Later.append (s := s) hf name hty
  exact ⟨K, hlater, hs.congr hlater.size_le hlater.kept, trivial⟩

theorem defineAll {bindings : List (String × Ty)} (hs : s.Sealed K) (hf : f < s.size)
    (hfK : f ∉ K) (hbindings : ∀ b ∈ bindings, b.2.Within K) :
    Seals (defineAll f bindings) s K fun _ _ => True := by
  induction bindings generalizing s K with
  | nil => exact pure hs trivial
  | cons b rest ih =>
    obtain ⟨hb, hrest⟩ := List.forall_mem_cons.mp hbindings
    refine bind (define hs hfK b.1 hb) fun _ t K' hlater hsealed _ => ?_
    exact ih hsealed (hf.trans_le hlater.size_le) (hlater.notMem hf hfK)
      fun b hb => (hrest b hb).mono hlater.subset

/-- The types of methods are bound in a frame of members before it is sealed. -/
theorem registerMethods {members : FrameId} (hs : s.Sealed K) (hm : members < s.size)
    (hmK : members ∉ K) (methods : List Definition) :
    Seals (registerMethods members methods) s K fun signatures K' =>
      ∀ signature ∈ signatures, Signature.Within K' signature := by
  induction methods generalizing s K with
  | nil => exact pure hs fun signature h => by cases h
  | cons d rest ih =>
    refine read hs (Reads.requireFree members d.name) fun _ _ => ?_
    refine read hs (Reads.signature d) fun signature hsignature => ?_
    refine bind (define hs hmK d.name hsignature.ty) fun _ t K' hlater hsealed _ => ?_
    have hm' := hm.trans_le hlater.size_le
    refine bind (ih hsealed hm' (hlater.notMem hm hmK)) ?_
    intro signatures u K'' hlater' hsealed' h
    have hfirst := hsignature.mono (hlater.trans hlater').subset
    exact pure hsealed' (List.forall_mem_cons.mpr ⟨hfirst, h⟩)

end Seals

end Check

end ObjectLang
