import ObjectLang.Proofs.TypeSystem.Introduction

/-!
# Frames as scopes

What the typing rules call a scope is a chain of frames in the checker's store. The levels of the
scope are the frames of the chain, and whatever the checker does to the store shows in the scope as
the rules say: an expression changes nothing, a new frame is a new level, and a new name is bound in
the innermost level.

An object type is known when it may occur in types. The frames of known object types are not those
of blocks, so their members are complete, apart from frames in which the program itself stands.
-/

namespace ObjectLang

/-! ## Scopes of frames -/

namespace Store

variable {n : Nat} {s t : Store Ty} {f : FrameId}

/-- What is in scope in a frame. Frames from number `n` on are those of blocks. -/
def scope (n : Nat) (s : Store Ty) (f : FrameId) : Scope :=
  (s.chain f).map fun g => ⟨if g < n then some g else none, s.bindings g⟩

theorem scope_lookup (n : Nat) (s : Store Ty) (f : FrameId) (name : String) :
    (s.scope n f).lookup name = s.lookup f name := by
  rw [Scope.lookup, scope, List.findSome?_map]
  rfl

theorem scope_ownNames (n : Nat) (s : Store Ty) (f : FrameId) :
    (s.scope n f).ownNames = s.names f := by
  rw [scope, s.chain_eq f]
  rfl

/-- Frames that have got no new names look as before. -/
theorem scope_of_grows {g : Option FrameId} (h : Grows id g s t) (hf : f < s.size)
    (hg : ∀ m ∈ g, m ∉ s.chain f) : t.scope n f = s.scope n f := by
  rw [scope, scope, h.chain_eq hf]
  refine List.map_congr_left fun g' hg' => ?_
  have hlt : g' < s.size := (s.le_of_mem_chain hg').trans_lt hf
  have hview := h.view_eq g' hlt fun heq => hg g' heq hg'
  rw [view_id, view_id] at hview
  rw [hview]

/-- A new frame is a new level. -/
theorem scope_child (hf : f < s.size) (hn : n ≤ s.size) :
    (s.newFrame (some f)).2.scope n s.size = .block [] :: s.scope n f := by
  have hchain : (s.newFrame (some f)).2.chain s.size = s.size :: s.chain f := by
    rw [chain_eq, s.parent?_newFrame_size hf]
    exact congrArg (s.size :: ·) ((Grows.newFrame id s (some f)).chain_eq hf)
  rw [scope, hchain, List.map_cons, if_neg (Nat.not_lt_of_le hn), bindings_newFrame,
    s.bindings_of_size_le le_rfl]
  simp only [bindings_newFrame, scope, Level.block]

theorem chain_appendAll (s : Store Ty) (f f' : FrameId) (bindings : List (String × Ty)) :
    (s.appendAll f bindings).chain f' = s.chain f' :=
  chain_congr (fun g => parent?_appendAll s f g bindings) f'

/-- A frame occurs in its chain once. -/
theorem not_mem_chain_parent {p : FrameId} (h : s.parent? f = some p) : f ∉ s.chain p := by
  intro hmem
  exact absurd (s.le_of_mem_chain hmem) (Nat.not_le_of_lt (s.parent?_lt h))

/-- New names are bound in the innermost level. -/
theorem scope_appendAll (hf : f < s.size) (bindings : List (String × Ty)) :
    (s.appendAll f bindings).scope n f = (s.scope n f).bind bindings := by
  have hhead : (s.appendAll f bindings).bindings f = s.bindings f ++ bindings := by
    rw [bindings_appendAll, if_pos ⟨rfl, hf⟩]
  rw [scope, chain_appendAll, scope, s.chain_eq f, List.map_cons, List.map_cons, Scope.bind, hhead,
    List.cons.injEq]
  refine ⟨rfl, ?_⟩
  cases hp : s.parent? f with
  | none => rfl
  | some p =>
    refine List.map_congr_left fun g hg => ?_
    have hne : ¬ (f = g ∧ f < s.size) := fun h => not_mem_chain_parent hp (h.1 ▸ hg)
    rw [bindings_appendAll, if_neg hne]

theorem scope_append (hf : f < s.size) (name : String) (ty : Ty) :
    (s.append f name ty).scope n f = (s.scope n f).bind [(name, ty)] :=
  scope_appendAll hf [(name, ty)]

/-- The level of a block that has got its first names. -/
theorem scope_child_appendAll (hf : f < s.size) (hn : n ≤ s.size)
    (bindings : List (String × Ty)) :
    ((s.newFrame (some f)).2.appendAll s.size bindings).scope n s.size =
      .block bindings :: s.scope n f := by
  rw [scope_appendAll (by simp), scope_child hf hn]
  rfl

end Store

namespace Check

/-! ## Known object types -/

/-- The frame `f` exists, types in frames are about the object types in `K`, and none of these is
the level of a block around `f`. -/
structure Sees (n : Nat) (K : Set FrameId) (s : Store Ty) (f : FrameId) : Prop where
  old_le : n ≤ s.size
  lt_size : f < s.size
  known_lt : ∀ o ∈ K, o < s.size
  outer : ∀ o ∈ K, o ∈ s.chain f → o < n
  closed : s.Closed K

/-- The table gives the members of the object types in `K`, apart from those around `f`. -/
def Settled (Δ : FrameId → List (String × Ty)) (K : Set FrameId) (s : Store Ty) (f : FrameId) :
    Prop :=
  ∀ o ∈ K, o ∉ s.chain f → Δ o = s.bindings o

section

variable {n : Nat} {K K' : Set FrameId} {s t : Store Ty} {f : FrameId} {g : Option FrameId}
  {Δ : FrameId → List (String × Ty)}

namespace Sees

/-- A new frame is not around an old one. -/
theorem size_not_mem_chain (h : Sees n K s f) : s.size ∉ s.chain f := fun hmem =>
  absurd (s.le_of_mem_chain hmem) (Nat.not_le_of_lt h.lt_size)

/-- What is seen after a run that has introduced object types. -/
theorem introduces {ids : List FrameId} (h : Sees n K s f) (hg : Store.Grows id g s t)
    (hi : Introduces K ids s t) : Sees n (known K ids) t f := by
  refine ⟨h.old_le.trans hi.size_le, h.lt_size.trans_le hi.size_le, ?_, ?_, hi.closed⟩
  · intro o ho
    rcases ho with ho | ho
    · exact (h.known_lt o ho).trans_le hi.size_le
    · exact (hi.fresh o ho).2
  · intro o ho hchain
    rw [hg.chain_eq h.lt_size] at hchain
    rcases ho with ho | ho
    · exact h.outer o ho hchain
    · have hlt := (s.le_of_mem_chain hchain).trans_lt h.lt_size
      exact absurd (hi.fresh o ho).1 (Nat.not_le_of_lt hlt)

theorem grows (h : Sees n K s f) (hg : Store.Grows id g s t) (hclosed : t.Closed K) :
    Sees n K t f := by
  have ht := h.introduces hg (.of_closed hg.size_le hclosed)
  rwa [known_nil] at ht

theorem appendAll (h : Sees n K s f) {bindings : List (String × Ty)}
    (hb : ∀ b ∈ bindings, b.2.Within K) : Sees n K (s.appendAll f bindings) f := by
  refine ⟨by simpa using h.old_le, by simpa using h.lt_size, by simpa using h.known_lt, ?_,
    h.closed.appendAll f hb⟩
  rw [Store.chain_appendAll]
  exact h.outer

theorem append (h : Sees n K s f) (name : String) {ty : Ty} (hty : ty.Within K) :
    Sees n K (s.append f name ty) f :=
  h.grows (.append id s f name ty) (h.closed.append f name hty)

/-- What is seen in a new block. -/
theorem child (h : Sees n K s f) : Sees n K (s.newFrame (some f)).2 s.size := by
  refine ⟨h.old_le.trans (by simp), by simp, ?_, ?_, h.closed.newFrame _⟩
  · intro o ho
    rw [Store.size_newFrame]
    exact (h.known_lt o ho).trans (Nat.lt_succ_self _)
  · intro o ho hchain
    rw [Store.chain_eq, s.parent?_newFrame_size h.lt_size, List.mem_cons] at hchain
    rcases hchain with rfl | hchain
    · exact absurd (h.known_lt _ ho) (Nat.lt_irrefl _)
    · rw [Option.elim_some, (Store.Grows.newFrame id s (some f)).chain_eq h.lt_size] at hchain
      exact h.outer o ho hchain

/-- The members of a known object type are the bindings of its frame. -/
theorem members_eq (h : Sees n K s f) (hΔ : Settled Δ K s f) {o : FrameId} (ho : o ∈ K) :
    (s.scope n f).members Δ o = s.bindings o := by
  rw [Scope.members]
  cases hfind : (s.scope n f).find? (·.frame == some o) with
  | some level =>
    obtain ⟨g, -, rfl⟩ := List.mem_map.mp (List.mem_of_find?_eq_some hfind)
    have hframe := List.find?_some hfind
    simp only [beq_iff_eq] at hframe
    split at hframe
    · cases hframe
      rfl
    · cases hframe
  | none =>
    refine hΔ o ho fun hchain => ?_
    have hlevel := List.find?_eq_none.mp hfind _ (List.mem_map_of_mem hchain)
    simp [h.outer o ho hchain] at hlevel

end Sees

/-- What is settled after a run was settled before it, unless the run was about the frame. -/
theorem Settled.of_grows (hΔ : Settled Δ K' t f) (h : Sees n K s f) (hg : Store.Grows id g s t)
    (hK : K ⊆ K') (hgK : ∀ m ∈ g, m ∈ K → m ∈ s.chain f) : Settled Δ K s f := by
  intro o ho hchain
  rw [← hg.chain_eq h.lt_size] at hchain
  have hview := hg.view_eq o (h.known_lt o ho) fun heq => by
    rw [hg.chain_eq h.lt_size] at hchain
    exact hchain (hgK o heq ho)
  rw [Store.view_id, Store.view_id] at hview
  rw [hΔ o (hK ho) hchain, hview]

/-- What is settled around a frame is settled around the frames below it. -/
theorem Settled.child {k : FrameId} (hΔ : Settled Δ K s f) (hp : s.parent? k = some f) :
    Settled Δ K s k := by
  intro o ho hchain
  rw [s.chain_eq k, hp, List.mem_cons, not_or] at hchain
  exact hΔ o ho hchain.2

end

end Check

end ObjectLang
