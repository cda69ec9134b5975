import ObjectLang.Proofs.Check.Sealed
import ObjectLang.Proofs.TypeSystem
import ObjectLang.Proofs.TypeSystem.Written

/-!
# The checker builds no cyclic types

Programs may be checked one after another in one frame, each of them on top of what the ones before
it have bound, and a rejected program leaves behind what it bound until then. Whatever the programs
are, all types that can be met afterwards are acyclic: in frames, in typed programs and in
rejections. So they can be shown and written.

The scope that the programs are checked in has to be acyclic in the beginning. Members are scopes,
so this scope too may be met again on a way through its types, and then the way does not end: no
type that an acyclic scope sees leads back to the scope (`Store.acyclic_iff`). The members of
literals have no frames around them. Where all members are like that, a scope is acyclic once the
types that it sees are (`Store.acyclic_of_members`).
-/

namespace ObjectLang

open Relation

namespace Check

/-- Checks programs one after another in a frame. -/
def session (f : FrameId) :
    List Program → Store Ty → List (Except CheckError TypedProgram) × Store Ty
  | [], s => ([], s)
  | p :: rest, s =>
    match program f p s with
    | .ok typed t =>
      let (outcomes, u) := session f rest t
      (.ok typed :: outcomes, u)
    | .error e t =>
      let (outcomes, u) := session f rest t
      (.error e :: outcomes, u)

/-- The types that an accepted program or a rejection hands out. -/
def typesOfOutcome : Except CheckError TypedProgram → List Ty
  | .ok typed => typed.types
  | .error e => e.types

variable {s t : Store Ty} {K K' : Set FrameId} {f : FrameId}

theorem Seals.program (p : Program) (hs : s.Sealed K) (hf : s.Home K f) :
    Seals (program f p) s K fun typed K' => Ty.AllWithin K' typed.types := by
  rw [Check.program]
  exact bind (stmts p.statements hs hf) fun _ _ _ _ hs' hbody => pure hs' hbody

/-- Frames that are sealed in the course of a session stay sealed, and all that is handed out is
about them. -/
theorem session_seals (units : List Program) (hs : s.Sealed K) (hf : s.Home K f) :
    ∃ K', s.Later K (session f units s).2 K' ∧ (session f units s).2.Sealed K' ∧
      ∀ outcome ∈ (session f units s).1, Ty.AllWithin K' (typesOfOutcome outcome) := by
  induction units generalizing s K with
  | nil => exact ⟨K, .refl s K, hs, fun outcome h => by cases h⟩
  | cons p rest ih =>
    have hp := Seals.program p hs hf
    rw [Seals] at hp
    rw [session]
    cases h : program f p s with
    | ok typed t =>
      rw [h] at hp
      obtain ⟨K₁, hlater, hs₁, htyped⟩ := hp
      obtain ⟨K₂, hlater', hs₂, hrest⟩ := ih hs₁ (hf.later hlater)
      refine ⟨K₂, hlater.trans hlater', hs₂, List.forall_mem_cons.mpr ⟨?_, hrest⟩⟩
      exact htyped.mono hlater'.subset
    | error e t =>
      rw [h] at hp
      obtain ⟨K₁, hlater, hs₁, he⟩ := hp
      obtain ⟨K₂, hlater', hs₂, hrest⟩ := ih hs₁ (hf.later hlater)
      refine ⟨K₂, hlater.trans hlater', hs₂, List.forall_mem_cons.mpr ⟨?_, hrest⟩⟩
      exact he.mono hlater'.subset

/-- An object in a field of an object with a method, the method keeps its receiver in one more
object, and an object is an argument. Then a type about all of them is rejected. -/
def nesting : List Program :=
  [⟨[.declare ⟨"outer", none, some (.object none
      [⟨"inner", none, some (.object none [⟨"depth", none, some (.literal (.integer 2))⟩] [])⟩]
      [⟨"keep", [], none,
        [.declare ⟨"kept", none, some (.object none [⟨"self", none, some (.variable "this")⟩] [])⟩,
          .ret (some (.variable "kept"))]⟩])⟩,
    .expression (.call "print" [.object none [⟨"item", none, some (.variable "outer")⟩] []])]⟩,
   ⟨[.declare ⟨"wrong", some "Integer", some (.object none
      [⟨"again", none, some (.variable "outer")⟩] [])⟩]⟩]

/-- A declaration may bind what a name that is in scope is bound to. -/
theorem program_declare_run {old new : String} {ty : Ty} (hold : s.lookup f old = some ty)
    (hnew : new ∉ s.names f) :
    program f ⟨[.declare ⟨new, none, some (.variable old)⟩]⟩ s =
      .ok ⟨[.declare ⟨new, ty, some (.variable old ty)⟩]⟩ (s.append f new ty) := by
  have hfree : requireFree f new s = .ok () s := requireFree_run_iff.mpr ⟨hnew, rfl⟩
  have hlookup : lookup f old s = .ok ty s := lookup_run_iff.mpr ⟨hold, rfl⟩
  have hvalue : optionalExpr f (some (.variable old)) s = .ok (some (.variable old ty)) s := by
    simp only [optionalExpr, expr, bind_run_eq_ok_iff, pure_run_eq_ok_iff]
    exact ⟨_, s, ⟨ty, s, hlookup, rfl, rfl⟩, rfl, rfl⟩
  have hdeclaration : declaration f ⟨new, none, some (.variable old)⟩ s =
      .ok ⟨new, ty, some (.variable old ty)⟩ s := by
    rw [declaration, declaredTy?, pure_bind, bind_run_ok hvalue]
    rfl
  have hdefine : define f new ty s = .ok () (s.append f new ty) := define_run_iff.mpr ⟨hnew, rfl⟩
  simp only [program, stmts, stmt, bind_run_eq_ok_iff, pure_run_eq_ok_iff]
  exact ⟨_, _, ⟨_, _, ⟨_, s, hfree, _, s, hdeclaration, _, _, hdefine, rfl, rfl⟩, _, _, ⟨rfl, rfl⟩,
    rfl, rfl⟩, rfl, rfl⟩

/-- There is no way around the condition on the scope. If the type of a name leads back to the scope
that the name is looked up in, then a program may bind a new name to the same, and the type becomes
a part of itself. -/
theorem program_cyclic {old new : String} {ty : Ty} (hf : f < s.size)
    (hold : s.lookup f old = some ty) (hback : ReflTransGen (Ty.Part s) (.object f) ty)
    (hnew : new ∉ s.names f) :
    ∃ typed t, program f ⟨[.declare ⟨new, none, some (.variable old)⟩]⟩ s = .ok typed t ∧
      ¬ ty.Acyclic t := by
  have hbound : (new, ty) ∈ (s.append f new ty).bindings f := by
    rw [Store.bindings_append, if_pos ⟨rfl, hf⟩]
    exact List.mem_append_right _ (List.mem_singleton_self _)
  have hgrowth (o : FrameId) : s.bindings o ⊆ (s.append f new ty).bindings o := by
    rw [Store.bindings_append]
    split
    · exact List.subset_append_left _ _
    · exact List.Subset.refl _
  have hback' : ReflTransGen (Ty.Part (s.append f new ty)) (.object f) ty :=
    ReflTransGen.mono (fun _ _ => Ty.Part.mono hgrowth) _ _ hback
  exact ⟨_, _, program_declare_run hold hnew, fun h => h.not_part (.head' (.member hbound) hback')⟩

/-- Frames as no program makes them: the members of the object type `o` are in a frame inside of the
one that binds `o`. -/
def fallingBack : Store Ty :=
  ((Store.empty.newFrame none).2.append 0 "o" (.object 1)).newFrame (some 0) |>.2

/-- It does not suffice that each type is acyclic. In the frame of the members the type `o` is
visible, so a way leads from there back to the frame. -/
theorem session_cyclic_fallingBack :
    fallingBack.WellFormed ∧ (∀ g, ∀ b ∈ fallingBack.bindings g, b.2.Acyclic fallingBack) ∧
    ¬ fallingBack.Acyclic 1 ∧
    let result := session 1 [⟨[.declare ⟨"x", none, some (.variable "o")⟩]⟩] fallingBack
    result.1.map Except.isOk = [true] ∧ ¬ (Ty.object 1).Acyclic result.2 := by
  have hbindings : ∀ g, ∀ b ∈ fallingBack.bindings g, g = 0 ∧ b = ("o", Ty.object 1) := by
    intro g b hb
    match g with
    | 0 => exact ⟨rfl, List.mem_singleton.mp hb⟩
    | 1 => cases hb
    | g + 2 =>
      rw [fallingBack.bindings_of_size_le (Nat.le_add_left 2 g)] at hb
      cases hb
  have hacyclic : (Ty.object 1).Acyclic fallingBack :=
    .object fun b hb => absurd (hbindings 1 b hb).1 (by decide)
  have hreach : 1 ∈ fallingBack.reach 1 :=
    ⟨0, by decide +kernel, ("o", .object 1), List.mem_singleton_self _, .refl⟩
  have hold : fallingBack.lookup 1 "o" = some (.object 1) := by decide +kernel
  have hnew : "x" ∉ fallingBack.names 1 := by decide +kernel
  obtain ⟨typed, t, hrun, hcyclic⟩ := program_cyclic (by decide) hold .refl hnew
  refine ⟨fun g b hb => ?_, fun g b hb => ?_, fun h => h.notMem_reach hreach, ?_⟩
  · obtain ⟨-, rfl⟩ := hbindings g b hb
    exact .object (by decide)
  · obtain ⟨-, rfl⟩ := hbindings g b hb
    exact hacyclic
  · simp only [session, hrun]
    exact ⟨rfl, hcyclic⟩

end Check

end ObjectLang
