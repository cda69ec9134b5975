import Mathlib.Logic.Equiv.Basic
import ObjectLang.Proofs.TypeSystem.Renaming

/-!
# Frames that realize a scope

A derivation chooses the identities of object types as it likes; the checker takes the numbers of
its frames. A permutation gives the identities that are known so far the numbers that the checker
has given to them. When an object literal comes up whose identity is not known, the permutation is
changed for this identity, and for that of the number it gets, and stays as it is for all known
ones.
-/

namespace ObjectLang.Check

/-- The frames around `f` show the scope `Γ`, and the object types in `D` have their members, when
every identity `o` stands for the frame `σ o`. -/
structure Realizes (n : Nat) (Δ : FrameId → List (String × Ty)) (D : Set FrameId)
    (σ : Equiv.Perm FrameId) (Γ : Scope) (s : Store Ty) (f : FrameId) : Prop where
  old : ∀ o < n, o ∈ D ∧ σ o = o
  sees : Sees n (σ '' D) s f
  scope_eq : s.scope n f = Γ.rename σ
  settled : Settled (fun o => renameBindings σ (Δ (σ.symm o))) (σ '' D) s f

namespace Realizes

variable {n : Nat} {Δ : FrameId → List (String × Ty)} {D : Set FrameId} {σ τ : Equiv.Perm FrameId}
  {υ : FrameId → FrameId} {Γ : Scope} {s t : Store Ty} {f : FrameId} {name : String} {ty : Ty}

/-! ## What is seen -/

theorem lookup_eq (h : Realizes n Δ D σ Γ s f) (hty : Γ.lookup name = some ty) :
    s.lookup f name = some (ty.rename σ) := by
  rw [← s.scope_lookup n f name, h.scope_eq, Γ.lookup_rename, hty]
  rfl

theorem within_lookup (h : Realizes n Δ D σ Γ s f) (hty : Γ.lookup name = some ty) :
    ty.Within D :=
  (h.sees.closed.lookup (h.lookup_eq hty)).of_rename σ.injective

/-- The type of a name does not depend on how unknown identities are numbered. -/
theorem lookup (h : Realizes n Δ D σ Γ s f) (hυ : Set.EqOn σ υ D)
    (hty : Γ.lookup name = some ty) : s.lookup f name = some (ty.rename υ) := by
  rw [h.lookup_eq hty, (h.within_lookup hty).rename_eq hυ]

theorem names_eq (h : Realizes n Δ D σ Γ s f) : s.names f = Γ.ownNames := by
  rw [← s.scope_ownNames n f, h.scope_eq, Γ.ownNames_rename]

theorem members_eq (h : Realizes n Δ D σ Γ s f) {o : FrameId} (ho : o ∈ D) :
    s.bindings (σ o) = renameBindings σ (Γ.members Δ o) := by
  rw [← Scope.members_rename, ← h.scope_eq]
  exact (h.sees.members_eq h.settled (Set.mem_image_of_mem σ ho)).symm

theorem within_members (h : Realizes n Δ D σ Γ s f) {o : FrameId} (ho : o ∈ D) :
    ∀ b ∈ Γ.members Δ o, b.2.Within D := by
  refine within_of_renameBindings σ.injective fun b hb => ?_
  rw [← h.members_eq ho] at hb
  exact h.sees.closed (σ o) b hb

/-- The type of a member does not depend on how unknown identities are numbered. -/
theorem member (h : Realizes n Δ D σ Γ s f) (hυ : Set.EqOn σ υ D) {o : FrameId} (ho : o ∈ D)
    (hty : (Γ.members Δ o).lookup name = some ty) :
    (s.bindings (υ o)).lookup name = some (ty.rename υ) := by
  rw [← hυ ho, h.members_eq ho, renameBindings_congr (h.within_members ho) hυ,
    lookup_renameBindings, hty]
  rfl

/-- What the table says of a known object type that is not around the frame. -/
theorem bindings_eq (h : Realizes n Δ D σ Γ s f) {o : FrameId} (ho : o ∈ D)
    (hchain : σ o ∉ s.chain f) : renameBindings σ (Δ o) = s.bindings (σ o) := by
  have hsettled := h.settled (σ o) (Set.mem_image_of_mem σ ho) hchain
  dsimp only at hsettled
  rwa [Equiv.symm_apply_apply] at hsettled

theorem within_table (h : Realizes n Δ D σ Γ s f) {o : FrameId} (ho : o ∈ D)
    (hchain : σ o ∉ s.chain f) : ∀ b ∈ Δ o, b.2.Within D := by
  refine within_of_renameBindings σ.injective fun b hb => ?_
  rw [h.bindings_eq ho hchain] at hb
  exact h.sees.closed (σ o) b hb

/-! ## Other numbers for unknown identities -/

/-- A level is about known object types only. -/
theorem level_rename (h : Realizes n Δ D σ Γ s f) (hτ : Set.EqOn σ τ D) {level : Level}
    (hlevel : level ∈ Γ) : level.rename σ = level.rename τ := by
  have hmem : level.rename σ ∈ s.scope n f := by
    rw [h.scope_eq]
    exact List.mem_map_of_mem hlevel
  obtain ⟨g, -, hg⟩ := List.mem_map.mp hmem
  have hbindings : s.bindings g = renameBindings σ level.bindings := congrArg Level.bindings hg
  have hframe : (if g < n then some g else none) = level.frame.map σ := congrArg Level.frame hg
  have hwithin : ∀ b ∈ level.bindings, b.2.Within D := by
    refine within_of_renameBindings σ.injective fun b hb => ?_
    rw [← hbindings] at hb
    exact h.sees.closed g b hb
  rw [Level.rename, Level.rename, renameBindings_congr hwithin hτ]
  congr 1
  cases hlevelFrame : level.frame with
  | none => rfl
  | some o =>
    rw [hlevelFrame] at hframe
    split at hframe
    · next hlt =>
      -- a frame of the chain keeps its number
      obtain ⟨-, hold⟩ := h.old g hlt
      have ho : σ o = g := (Option.some.inj hframe).symm
      have heq : o = g := σ.injective (ho.trans hold.symm)
      rw [Option.map_some, Option.map_some, hτ (heq ▸ (h.old g hlt).1)]
    · cases hframe

theorem congr (h : Realizes n Δ D σ Γ s f) (hτ : Set.EqOn σ τ D) : Realizes n Δ D τ Γ s f := by
  have himage : τ '' D = σ '' D := hτ.image_eq.symm
  refine ⟨?_, himage ▸ h.sees, ?_, ?_⟩
  · intro o ho
    obtain ⟨hmem, hold⟩ := h.old o ho
    exact ⟨hmem, (hτ hmem) ▸ hold⟩
  · rw [h.scope_eq]
    exact List.map_congr_left fun level hlevel => h.level_rename hτ hlevel
  · rintro _ ⟨o, ho, rfl⟩ hchain
    rw [← hτ ho] at hchain
    dsimp only
    rw [Equiv.symm_apply_apply, ← hτ ho, ← h.bindings_eq ho hchain,
      renameBindings_congr (h.within_table ho hchain) hτ]

/-! ## Changes of the store -/

/-- Nothing changes for the frame if other frames change that do not belong to known object types.
-/
theorem grows {g : Option FrameId} (h : Realizes n Δ D σ Γ s f) (hg : Store.Grows id g s t)
    (hclosed : t.Closed (σ '' D)) (hgD : ∀ m ∈ g, m ∉ σ '' D ∧ m ∉ s.chain f) :
    Realizes n Δ D σ Γ t f := by
  refine ⟨h.old, h.sees.grows hg hclosed, ?_, ?_⟩
  · rw [Store.scope_of_grows hg h.sees.lt_size fun m hm => (hgD m hm).2, h.scope_eq]
  · intro o ho hchain
    rw [hg.chain_eq h.sees.lt_size] at hchain
    have hview := hg.view_eq o (h.sees.known_lt o ho) fun heq => (hgD o heq).1 ho
    rw [Store.view_id, Store.view_id] at hview
    rw [h.settled o ho hchain, hview]

/-- A new block is a new level. -/
theorem child (h : Realizes n Δ D σ Γ s f) :
    Realizes n Δ D σ (.block [] :: Γ) (s.newFrame (some f)).2 s.size := by
  refine ⟨h.old, h.sees.child, ?_, ?_⟩
  · rw [Store.scope_child h.sees.lt_size h.sees.old_le, h.scope_eq]
    rfl
  · intro o ho hchain
    rw [Store.chain_eq, s.parent?_newFrame_size h.sees.lt_size, List.mem_cons, not_or,
      Option.elim_some, (Store.Grows.newFrame id s (some f)).chain_eq h.sees.lt_size] at hchain
    rw [h.settled o ho hchain.2, Store.bindings_newFrame]

/-- When a block has ended, its level is left. -/
theorem parent {k : FrameId} {level : Level} (h : Realizes n Δ D σ (level :: Γ) s k)
    (hp : s.parent? k = some f) (hk : n ≤ k) : Realizes n Δ D σ Γ s f := by
  have hchain : s.chain k = k :: s.chain f := by
    rw [Store.chain_eq, hp]
    rfl
  have hlt : f < k := s.parent?_lt hp
  refine ⟨h.old, ⟨h.sees.old_le, hlt.trans h.sees.lt_size, h.sees.known_lt, ?_, h.sees.closed⟩,
    ?_, ?_⟩
  · intro o ho hmem
    exact h.sees.outer o ho (hchain ▸ List.mem_cons_of_mem k hmem)
  · have hscope := h.scope_eq
    rw [Store.scope, hchain, List.map_cons, Scope.rename, List.map_cons] at hscope
    exact (List.cons.inj hscope).2
  · intro o ho hmem
    refine h.settled o ho ?_
    rw [hchain, List.mem_cons, not_or]
    refine ⟨fun heq => ?_, hmem⟩
    -- the frame of the block is that of no known object type
    have hlt := h.sees.outer k (heq ▸ ho) (hchain ▸ List.mem_cons_self)
    exact absurd hk (Nat.not_le_of_lt hlt)

/-- New names are bound in the innermost level. -/
theorem appendAll (h : Realizes n Δ D σ Γ s f) {bindings : List (String × Ty)}
    (hb : ∀ b ∈ bindings, b.2.Within D) :
    Realizes n Δ D σ (Γ.bind bindings) (s.appendAll f (renameBindings σ bindings)) f := by
  refine ⟨h.old, h.sees.appendAll (within_renameBindings hb σ), ?_, ?_⟩
  · rw [Store.scope_appendAll h.sees.lt_size, h.scope_eq, Γ.bind_rename]
  · intro o ho hchain
    rw [Store.chain_appendAll] at hchain
    have hne : ¬ (f = o ∧ f < s.size) := fun heq => hchain (heq.1 ▸ s.mem_chain_self f)
    rw [Store.bindings_appendAll, if_neg hne, h.settled o ho hchain]

theorem append (h : Realizes n Δ D σ Γ s f) (name : String) (hty : ty.Within D) :
    Realizes n Δ D σ (Γ.bind [(name, ty)]) (s.append f name (ty.rename σ)) f := by
  have hb : ∀ b ∈ [(name, ty)], b.2.Within D := by
    intro b hb
    rw [List.mem_singleton.mp hb]
    exact hty
  exact h.appendAll hb

/-- An identity that is not known yet gets a frame that belongs to no known object type. -/
theorem extend (h : Realizes n Δ D σ Γ s f) {o k : FrameId} (ho : o ∉ D) (hk : k < s.size)
    (hkD : k ∉ σ '' D) (hchain : k ∉ s.chain f) (hwithin : ∀ b ∈ Δ o, b.2.Within D)
    (hbindings : s.bindings k = renameBindings σ (Δ o)) :
    ∃ τ : Equiv.Perm FrameId, Set.EqOn σ τ D ∧ τ o = k ∧ Realizes n Δ (known D [o]) τ Γ s f := by
  obtain ⟨τ, hτ⟩ : ∃ τ, τ = σ.trans (Equiv.swap (σ o) k) := ⟨_, rfl⟩
  have hk' : τ o = k := by
    rw [hτ, Equiv.trans_apply, Equiv.swap_apply_left]
  have heq : Set.EqOn σ τ D := by
    intro o' ho'
    have hne : σ o' ≠ σ o := fun heq => ho (σ.injective heq ▸ ho')
    have hne' : σ o' ≠ k := fun heq => hkD (heq ▸ Set.mem_image_of_mem σ ho')
    rw [hτ, Equiv.trans_apply, Equiv.swap_apply_of_ne_of_ne hne hne']
  have hτs := h.congr heq
  have himage {o' : FrameId} (ho' : o' ∈ τ '' known D [o]) : o' ∈ τ '' D ∨ o' = k := by
    obtain ⟨o', hmem | hmem, rfl⟩ := ho'
    · exact .inl (Set.mem_image_of_mem τ hmem)
    · rw [List.mem_singleton.mp hmem]
      exact .inr hk'
  have hsubset : τ '' D ⊆ τ '' known D [o] := Set.image_mono (subset_known D [o])
  refine ⟨τ, heq, hk', ⟨?_,
    ⟨hτs.sees.old_le, hτs.sees.lt_size, ?_, ?_, hτs.sees.closed.mono hsubset⟩,
    hτs.scope_eq, ?_⟩⟩
  · intro o' ho'
    obtain ⟨hmem, hold⟩ := hτs.old o' ho'
    exact ⟨subset_known D [o] hmem, hold⟩
  · intro o' ho'
    rcases himage ho' with ho' | rfl
    · exact hτs.sees.known_lt o' ho'
    · exact hk
  · intro o' ho' hmem
    rcases himage ho' with ho' | rfl
    · exact hτs.sees.outer o' ho' hmem
    · exact absurd hmem hchain
  · intro o' ho' hmem
    rcases himage ho' with ho' | rfl
    · exact hτs.settled o' ho' hmem
    · dsimp only
      rw [← hk', Equiv.symm_apply_apply, hk', hbindings, renameBindings_congr hwithin heq]

end Realizes

end ObjectLang.Check
