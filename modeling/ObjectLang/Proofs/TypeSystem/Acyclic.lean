import Mathlib.Data.Set.Insert
import Mathlib.Logic.Relation
import ObjectLang.Proofs.Scope.Growth
import ObjectLang.Proofs.TypeSystem.Identities

/-!
# Acyclic types

The parts of a function type are its parameters and its result, those of an object type are the
types of its members. Members are kept in a frame, which is open to changes, so nothing in the form
of a type keeps it from being a part of itself. A type is acyclic if every way from it to a part,
and on to a part of the part, comes to an end.

The object types that may be handed out are those whose frames are *sealed*: no name is bound in
them any more, and their members are about sealed frames in turn.
-/

namespace ObjectLang

open Relation

/-- Nothing from which all ways end leads back to itself. -/
theorem not_self_of_acc {α : Type} {r : α → α → Prop} {a : α} (h : Acc r a) : ¬ r a a := by
  induction h with
  | intro a _ ih => exact fun hself => ih a hself hself

namespace Ty

variable {s t : Store Ty} {K : Set FrameId}

/-- The first type is a part of the second one. -/
inductive Part (s : Store Ty) : Ty → Ty → Prop where
  | parameter {params : List Ty} {returns p : Ty} (hp : p ∈ params) :
    Part s p (.function params returns)
  | result (params : List Ty) (returns : Ty) : Part s returns (.function params returns)
  | member {o : FrameId} {b : String × Ty} (hb : b ∈ s.bindings o) : Part s b.2 (.object o)

theorem Part.mono (h : ∀ o, s.bindings o ⊆ t.bindings o) {part ty : Ty} (hpart : Part s part ty) :
    Part t part ty := by
  cases hpart with
  | parameter hp => exact .parameter hp
  | result => exact .result _ _
  | member hb => exact .member (h _ hb)

/-- Every way from the type to parts of parts ends. -/
def Acyclic (s : Store Ty) (ty : Ty) : Prop := Acc (Part s) ty

theorem Acyclic.part {ty part : Ty} (h : ty.Acyclic s) (hpart : Part s part ty) :
    part.Acyclic s := h.inv hpart

theorem Acyclic.parts {ty part : Ty} (h : ty.Acyclic s)
    (hpart : ReflTransGen (Part s) part ty) : part.Acyclic s := by
  induction hpart using ReflTransGen.head_induction_on with
  | refl => exact h
  | head hstep _ ih => exact ih.part hstep

/-- No part of an acyclic type has the type as a part. -/
theorem Acyclic.not_part {ty : Ty} (h : ty.Acyclic s) : ¬ TransGen (Part s) ty ty :=
  not_self_of_acc h.transGen

theorem Acyclic.of_forall {ty : Ty} (h : ∀ part, Part s part ty → part.Acyclic s) :
    ty.Acyclic s := Acc.intro ty h

/-- What has no parts is acyclic. -/
theorem Acyclic.of_name? {ty : Ty} {name : String} (h : ty.name? = some name) (s : Store Ty) :
    ty.Acyclic s := by
  refine .of_forall fun part hpart => ?_
  cases hpart with
  | parameter => cases h
  | result => cases h
  | member => cases h

theorem Acyclic.function {params : List Ty} {returns : Ty} (hparams : ∀ p ∈ params, p.Acyclic s)
    (hreturns : returns.Acyclic s) : (Ty.function params returns).Acyclic s := by
  refine .of_forall fun part hpart => ?_
  cases hpart with
  | parameter hp => exact hparams part hp
  | result => exact hreturns

theorem Acyclic.object {o : FrameId} (h : ∀ b ∈ s.bindings o, b.2.Acyclic s) :
    (Ty.object o).Acyclic s := by
  refine .of_forall fun part hpart => ?_
  cases hpart with
  | member hb => exact h _ hb

mutual

/-- A type is acyclic if the object types in it are. -/
theorem acyclic_of_objects : ∀ ty : Ty, (∀ o ∈ ty.objects, (object o).Acyclic s) → ty.Acyclic s
  | .function params returns, h => by
    rw [objects] at h
    have hparams := acyclic_of_objectsOf params fun o ho => h o (List.mem_append_left _ ho)
    have hreturns := acyclic_of_objects returns fun o ho => h o (List.mem_append_right _ ho)
    exact .function hparams hreturns
  | .object o, h => h o List.mem_cons_self
  | .any, _ | .nil, _ | .boolean, _ | .integer, _ | .decimal, _ | .string, _ | .comparable, _
  | .equatable, _ | .iterable, _ => .of_name? rfl s

theorem acyclic_of_objectsOf : ∀ tys : List Ty, (∀ o ∈ objectsOf tys, (object o).Acyclic s) →
    ∀ ty ∈ tys, ty.Acyclic s
  | [], _ => by simp
  | first :: rest, h => by
    rw [objectsOf] at h
    have hfirst := acyclic_of_objects first fun o ho => h o (List.mem_append_left _ ho)
    have hrest := acyclic_of_objectsOf rest fun o ho => h o (List.mem_append_right _ ho)
    exact List.forall_mem_cons.mpr ⟨hfirst, hrest⟩

end

mutual

/-- The object types that occur in a type are parts of its parts. -/
theorem part_of_mem_objects {o : FrameId} : ∀ ty : Ty, o ∈ ty.objects →
    ReflTransGen (Part s) (object o) ty
  | .function params returns, h => by
    rcases List.mem_append.mp h with h | h
    · obtain ⟨p, hp, hpart⟩ := part_of_mem_objectsOf params h
      exact hpart.tail (.parameter hp)
    · exact (part_of_mem_objects returns h).tail (.result params returns)
  | .object o', h => by
    rw [objects, List.mem_singleton] at h
    rw [h]

theorem part_of_mem_objectsOf {o : FrameId} : ∀ tys : List Ty, o ∈ objectsOf tys →
    ∃ ty ∈ tys, ReflTransGen (Part s) (object o) ty
  | first :: rest, h => by
    rcases List.mem_append.mp h with h | h
    · exact ⟨first, List.mem_cons_self, part_of_mem_objects first h⟩
    · obtain ⟨ty, hty, hpart⟩ := part_of_mem_objectsOf rest h
      exact ⟨ty, List.mem_cons_of_mem first hty, hpart⟩

end

/-- Induction on the object types in the members of an acyclic object type. -/
theorem Acyclic.members_induction {P : FrameId → Prop} {o : FrameId} (h : (Ty.object o).Acyclic s)
    (step : ∀ o, (∀ b ∈ s.bindings o, ∀ p ∈ b.2.objects, P p) → P o) : P o := by
  have hacc : Acc (InvImage (TransGen (Part s)) Ty.object) o :=
    InvImage.accessible Ty.object h.transGen
  clear h
  induction hacc with
  | intro o _ ih =>
    exact step o fun b hb p hp => ih p (.tail' (part_of_mem_objects b.2 hp) (.member hb))

/-- Parts are about the same frames if members of those frames are. -/
theorem Within.part {ty part : Ty} (h : ty.Within K)
    (hK : ∀ o ∈ K, ∀ b ∈ s.bindings o, b.2.Within K) (hpart : Part s part ty) :
    part.Within K := by
  cases hpart with
  | parameter hp =>
    intro o ho
    exact h o (List.mem_append_left _ (mem_objectsOf.mpr ⟨part, hp, ho⟩))
  | result => exact h.returns
  | member hb => exact hK _ h.of_object _ hb

theorem Within.parts {ty part : Ty} (h : ty.Within K)
    (hK : ∀ o ∈ K, ∀ b ∈ s.bindings o, b.2.Within K) (hpart : ReflTransGen (Part s) part ty) :
    part.Within K := by
  induction hpart using ReflTransGen.head_induction_on with
  | refl => exact h
  | head hstep _ ih => exact ih.part hK hstep

/-- Types stay acyclic while the frames that they are about keep their members. -/
theorem Acyclic.congr {ty : Ty} (h : ty.Acyclic s) (hwithin : ty.Within K)
    (hK : ∀ o ∈ K, ∀ b ∈ s.bindings o, b.2.Within K)
    (hsame : ∀ o ∈ K, t.bindings o = s.bindings o) : ty.Acyclic t := by
  induction h with
  | intro ty _ ih =>
    refine .of_forall fun part hpart => ?_
    have hpart' : Part s part ty := by
      cases hpart with
      | parameter hp => exact .parameter hp
      | result => exact .result _ _
      | member hb =>
        rw [hsame _ hwithin.of_object] at hb
        exact .member hb
    exact ih part hpart' (hwithin.part hK hpart')

/-- Types stay acyclic while frames get bindings with acyclic types only. -/
theorem Acyclic.extend {ty : Ty} (h : ty.Acyclic s)
    (hnew : ∀ o, ∀ b ∈ t.bindings o, b ∈ s.bindings o ∨ b.2.Acyclic t) : ty.Acyclic t := by
  induction h with
  | intro ty _ ih =>
    refine .of_forall fun part hpart => ?_
    cases hpart with
    | parameter hp => exact ih part (.parameter hp)
    | result => exact ih part (.result _ _)
    | member hb =>
      rcases hnew _ _ hb with hold | hacyclic
      · exact ih _ (.member hold)
      · exact hacyclic

end Ty

namespace Store

variable {s t : Store Ty} {K : Set FrameId}

/-! ## Sealed frames -/

/-- The frames in `K` are members of object types that are complete. -/
structure Sealed (s : Store Ty) (K : Set FrameId) : Prop where
  lt_size : ∀ o ∈ K, o < s.size
  within : ∀ o ∈ K, ∀ b ∈ s.bindings o, b.2.Within K
  acyclic : ∀ o ∈ K, (Ty.object o).Acyclic s

namespace Sealed

/-- A type about sealed frames is acyclic. -/
theorem ty (h : s.Sealed K) {ty : Ty} (hty : ty.Within K) : ty.Acyclic s :=
  Ty.acyclic_of_objects ty fun o ho => h.acyclic o (hty o ho)

/-- What is done to other frames leaves sealed frames sealed. -/
theorem congr (h : s.Sealed K) (hsize : s.size ≤ t.size)
    (hsame : ∀ o ∈ K, t.bindings o = s.bindings o) : t.Sealed K := by
  refine ⟨fun o ho => (h.lt_size o ho).trans_le hsize, fun o ho b hb => ?_, fun o ho => ?_⟩
  · rw [hsame o ho] at hb
    exact h.within o ho b hb
  · exact (h.acyclic o ho).congr (.object ho) h.within hsame

/-- A frame whose members are about sealed frames may be sealed. -/
theorem insert (h : s.Sealed K) {m : FrameId} (hm : m < s.size)
    (hwithin : ∀ b ∈ s.bindings m, b.2.Within K) : s.Sealed (insert m K) := by
  refine ⟨fun o ho => ?_, fun o ho b hb => ?_, fun o ho => ?_⟩
  · rcases ho with rfl | ho
    · exact hm
    · exact h.lt_size o ho
  · rcases ho with rfl | ho
    · exact (hwithin b hb).mono (Set.subset_insert o K)
    · exact (h.within o ho b hb).mono (Set.subset_insert m K)
  · rcases ho with rfl | ho
    · exact .object fun b hb => h.ty (hwithin b hb)
    · exact h.acyclic o ho

end Sealed

/-! ## Frames that get names -/

/-- A frame in which names may be bound: it is not sealed, and the types that it sees are about
sealed frames. -/
structure Home (s : Store Ty) (K : Set FrameId) (f : FrameId) : Prop where
  lt_size : f < s.size
  notMem : f ∉ K
  within : ∀ g ∈ s.chain f, ∀ b ∈ s.bindings g, b.2.Within K

/-! ## Scopes -/

/-- A step on a way from the scope `f` through its types: from the frame `g` to the frame `o` with
the members of an object type that occurs in a type bound in `g`. The scope itself also sees the
types that are bound in the frames around it. -/
def Leads (s : Store Ty) (f o g : FrameId) : Prop :=
  ∃ g', (g' = g ∨ g = f ∧ g' ∈ s.chain f) ∧ ∃ b ∈ s.bindings g', o ∈ b.2.objects

/-- The types of a scope are acyclic: every way from the scope to the members of the types that it
sees, and on to the members of the types of members, comes to an end. A way that comes back to the
scope has none, for it can go on as it began. -/
def Acyclic (s : Store Ty) (f : FrameId) : Prop := Acc (s.Leads f) f

/-- The frames of the object types that can be reached from a frame. -/
def reach (s : Store Ty) (f : FrameId) : Set FrameId :=
  {o | ∃ g ∈ s.chain f, ∃ b ∈ s.bindings g, ReflTransGen (Ty.Part s) (.object o) b.2}

variable {f g o p : FrameId} {b : String × Ty}

/-- From the scope itself, a step starts with a type that is visible in it. -/
theorem leads_self_iff :
    s.Leads f o f ↔ ∃ g ∈ s.chain f, ∃ b ∈ s.bindings g, o ∈ b.2.objects := by
  constructor
  · rintro ⟨g, rfl | ⟨-, hg⟩, hb⟩
    · exact ⟨g, s.mem_chain_self g, hb⟩
    · exact ⟨g, hg, hb⟩
  · rintro ⟨g, hg, hb⟩
    exact ⟨g, .inr ⟨rfl, hg⟩, hb⟩

theorem mem_reach_of_visible (hg : g ∈ s.chain f) (hb : b ∈ s.bindings g)
    (ho : o ∈ b.2.objects) : o ∈ s.reach f :=
  ⟨g, hg, b, hb, Ty.part_of_mem_objects b.2 ho⟩

theorem mem_reach_of_member (ho : o ∈ s.reach f) (hb : b ∈ s.bindings o)
    (hp : p ∈ b.2.objects) : p ∈ s.reach f := by
  obtain ⟨g, hg, b', hb', hpart⟩ := ho
  have hstep : ReflTransGen (Ty.Part s) b.2 (.object o) := .single (.member hb)
  exact ⟨g, hg, b', hb', ((Ty.part_of_mem_objects b.2 hp).trans hstep).trans hpart⟩

/-- If the types that a scope sees are about frames in `K`, and the members of these are as well,
then `K` has all that can be reached. -/
theorem reach_subset (h : ∀ g ∈ s.chain f, ∀ b ∈ s.bindings g, b.2.Within K)
    (hK : ∀ o ∈ K, ∀ b ∈ s.bindings o, b.2.Within K) : s.reach f ⊆ K := by
  rintro o ⟨g, hg, b, hb, hpart⟩
  exact ((h g hg b hb).parts hK hpart).of_object

namespace Acyclic

/-- Where no object type is visible, no way is of any length. -/
theorem of_within_empty (h : ∀ g ∈ s.chain f, ∀ b ∈ s.bindings g, b.2.Within ∅) :
    s.Acyclic f := by
  refine Acc.intro f fun o ho => ?_
  obtain ⟨g, hg, b, hb, ho⟩ := leads_self_iff.mp ho
  exact (h g hg b hb o ho).elim

/-- Where all ways end, so do those through the members alone. -/
theorem object (h : Acc (s.Leads f) o) : (Ty.object o).Acyclic s := by
  induction h with
  | intro _ _ ih =>
    refine .object fun b hb => Ty.acyclic_of_objects b.2 fun p hp => ?_
    exact ih p ⟨_, .inl rfl, b, hb, hp⟩

/-- The types that an acyclic scope sees are acyclic. -/
theorem visible (h : s.Acyclic f) (hg : g ∈ s.chain f) (hb : b ∈ s.bindings g) :
    b.2.Acyclic s :=
  Ty.acyclic_of_objects b.2 fun _ ho => object (h.inv (leads_self_iff.mpr ⟨g, hg, b, hb, ho⟩))

/-- No type that an acyclic scope sees leads back to the scope. -/
theorem notMem_reach (h : s.Acyclic f) : f ∉ s.reach f := by
  have hreach : s.reach f ⊆ {o | TransGen (s.Leads f) o f} := by
    refine reach_subset (fun g hg b hb o ho => ?_) fun o ho b hb p hp => ?_
    · exact .single (leads_self_iff.mpr ⟨g, hg, b, hb, ho⟩)
    · exact .head ⟨o, .inl rfl, b, hb, hp⟩ ho
  exact fun hf => not_self_of_acc h.transGen (hreach hf)

end Acyclic

/-- A scope is acyclic if and only if the types that it sees are and none leads back to it. -/
theorem acyclic_iff :
    s.Acyclic f ↔ (∀ g ∈ s.chain f, ∀ b ∈ s.bindings g, b.2.Acyclic s) ∧ f ∉ s.reach f := by
  refine ⟨fun h => ⟨fun g hg b hb => h.visible hg hb, h.notMem_reach⟩, fun ⟨h, hf⟩ => ?_⟩
  refine Acc.intro f fun o ho => ?_
  obtain ⟨g, hg, b, hb, ho⟩ := leads_self_iff.mp ho
  have hobject : (Ty.object o).Acyclic s := (h g hg b hb).parts (Ty.part_of_mem_objects b.2 ho)
  refine hobject.members_induction (P := fun o => o ∈ s.reach f → Acc (s.Leads f) o) ?_
    (mem_reach_of_visible hg hb ho)
  intro o ih hreach
  refine Acc.intro o ?_
  rintro p ⟨g, rfl | ⟨rfl, -⟩, b, hb, hp⟩
  · exact ih b hb p hp (mem_reach_of_member hreach hb hp)
  · exact absurd hreach hf

/-- Where members are in frames without a parent, as those of object literals are, a scope is
acyclic if the types are that it sees. -/
theorem acyclic_of_members (hmembers : ∀ o ∈ s.reach f, s.parent? o = none)
    (h : ∀ g ∈ s.chain f, ∀ b ∈ s.bindings g, b.2.Acyclic s) : s.Acyclic f := by
  refine acyclic_iff.mpr ⟨h, fun hf => ?_⟩
  have hparent : s.parent? f = none := hmembers f hf
  obtain ⟨g, hg, b, hb, hpart⟩ := hf
  have hacyclic : b.2.Acyclic s := h g hg b hb
  rw [chain_eq, hparent, Option.elim_none, List.mem_singleton] at hg
  subst hg
  -- The scope has no frames around it, so it binds the type that leads back to it.
  exact hacyclic.not_part (.head' (.member hb) hpart)

/-! ## Object types in reach -/

/-- The frame can take names of any programs: the types that it sees are acyclic, and their members
are in frames that exist, of which it is none itself, for whatever name it binds would become a
member. -/
structure Host (s : Store Ty) (f : FrameId) : Prop where
  lt_size : f < s.size
  acyclic : ∀ g ∈ s.chain f, ∀ b ∈ s.bindings g, b.2.Acyclic s
  exist : ∀ o ∈ s.reach f, o < s.size
  notMem : f ∉ s.reach f

/-- The object types that can be reached from a frame that sees acyclic types are complete. -/
theorem Host.sealed_reach {f : FrameId} (h : s.Host f) :
    s.Sealed (s.reach f) ∧ s.Home (s.reach f) f := by
  refine ⟨⟨h.exist, ?_, ?_⟩, h.lt_size, h.notMem, ?_⟩
  · exact fun o ho b hb p hp => mem_reach_of_member ho hb hp
  · rintro o ⟨g, hg, b, hb, hpart⟩
    exact (h.acyclic g hg b hb).parts hpart
  · exact fun g hg b hb o ho => mem_reach_of_visible hg hb ho

/-- A frame can take names if and only if the types that it sees are about frames that can be
sealed. -/
theorem host_iff {f : FrameId} : s.Host f ↔ ∃ K, s.Sealed K ∧ s.Home K f := by
  constructor
  · exact fun h => ⟨s.reach f, h.sealed_reach⟩
  · rintro ⟨K, hsealed, hhome⟩
    have hreach : s.reach f ⊆ K := reach_subset hhome.within hsealed.within
    exact ⟨hhome.lt_size, fun g hg b hb => hsealed.ty (hhome.within g hg b hb),
      fun o ho => hsealed.lt_size o (hreach ho), fun hf => hhome.notMem (hreach hf)⟩

/-- An acyclic scope can take names if its types are about frames that exist. -/
theorem Acyclic.host (h : s.Acyclic f) (hf : f < s.size)
    (hs : ∀ g, ∀ b ∈ s.bindings g, b.2.Within {o | o < s.size}) : s.Host f :=
  ⟨hf, fun _ hg _ hb => h.visible hg hb, reach_subset (fun g _ => hs g) fun o _ => hs o,
    h.notMem_reach⟩

/-- Where no object type is visible, names of any programs may be bound. -/
theorem Host.of_within_empty {f : FrameId} (hf : f < s.size)
    (h : ∀ g ∈ s.chain f, ∀ b ∈ s.bindings g, b.2.Within ∅) : s.Host f := by
  have hnone : ∀ o ∈ (∅ : Set FrameId), False := Set.notMem_empty
  refine host_iff.mpr ⟨∅, ⟨?_, ?_, ?_⟩, hf, hnone f, h⟩
  · exact fun o ho => (hnone o ho).elim
  · exact fun o ho => (hnone o ho).elim
  · exact fun o ho => (hnone o ho).elim

end Store

end ObjectLang
