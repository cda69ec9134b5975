import ObjectLang.Proofs.Program.Isolated
import ObjectLang.Proofs.TypeSystem.Completeness

/-!
# The checker decides the type system

A program is accepted exactly if it is well-typed, and the checker makes of it the typed program
that the rules allow. There is only one, apart from the numbers that stand for its object types.
-/

namespace ObjectLang

/-- By the rules, the program, which stands in the frame `f`, is well-typed, and `t` is the program
with its types. The object types that exist in the frames `s` keep their members; every object in
the program has a type of its own. -/
def Program.Types (p : Program) (s : Store Ty) (f : FrameId) (t : TypedProgram) : Prop :=
  ∃ Δ : FrameId → List (String × Ty), (∀ o < s.size, Δ o = s.bindings o) ∧
    TypesStmts Δ (s.scope s.size f) p.statements t.statements ∧
    t.identities.Nodup ∧ ∀ o ∈ t.identities, s.size ≤ o

/-- The types in frames are about object types that exist. -/
def Store.WellFormed (s : Store Ty) : Prop := s.Closed {o | o < s.size}

namespace Check

variable {p : Program} {s t : Store Ty} {f : FrameId} {typed typed' : TypedProgram}

theorem program_run_iff :
    program f p s = .ok typed t ↔ stmts f p.statements s = .ok typed.statements t := by
  simp only [program, bind_run_eq_ok_iff, pure_run_eq_ok_iff]
  constructor
  · rintro ⟨tbody, _, hbody, rfl, rfl⟩
    exact hbody
  · intro h
    exact ⟨typed.statements, t, h, rfl, rfl⟩

/-- What is seen at the start. -/
theorem sees_of_wellFormed (hf : f < s.size) (hs : s.WellFormed) :
    Sees s.size {o | o < s.size} s f :=
  ⟨le_rfl, hf, fun _ ho => ho, fun _ ho _ => ho, hs⟩

/-- A table that knows the members of the old object types and, from the end of a run, those of the
new ones. The run puts names into no old frame but `f`. -/
theorem exists_table {g : Option FrameId} (hg : Store.Grows id g s t) (hf : ∀ m ∈ g, m = f)
    (ids : List FrameId) : ∃ Δ : FrameId → List (String × Ty),
      (∀ o < s.size, Δ o = s.bindings o) ∧ Settled Δ (known {o | o < s.size} ids) t f := by
  refine ⟨fun o => if o < s.size then s.bindings o else t.bindings o, fun o ho => if_pos ho, ?_⟩
  intro o _ hchain
  by_cases ho : o < s.size
  · have hview := hg.view_eq o ho fun heq => hchain (hf o heq ▸ t.mem_chain_self f)
    rw [Store.view_id, Store.view_id] at hview
    rw [hview]
    exact if_pos ho
  · exact if_neg ho

/-- A table that knows the members of the old object types suits the start of a run. -/
theorem realizes_start {Δ : FrameId → List (String × Ty)} (hf : f < s.size) (hs : s.WellFormed)
    (hΔ : ∀ o < s.size, Δ o = s.bindings o) :
    Realizes s.size Δ {o | o < s.size} (Equiv.refl FrameId) (s.scope s.size f) s f := by
  have hid : ⇑(Equiv.refl FrameId) = id := rfl
  refine ⟨fun o ho => ⟨ho, rfl⟩, ?_, ?_, ?_⟩
  · rw [hid, Set.image_id]
    exact sees_of_wellFormed hf hs
  · rw [hid, Scope.rename_id]
  · intro o ho _
    rw [hid, Set.image_id] at ho
    dsimp only
    rw [hid, renameBindings_id]
    exact hΔ o ho

/-- An accepted program is well-typed. -/
theorem types_of_accepted (hf : f < s.size) (hs : s.WellFormed)
    (h : program f p s = .ok typed t) : p.Types s f typed := by
  rw [program_run_iff] at h
  have hintro := introduces_stmts p.statements hs h
  obtain ⟨Δ, hold, hsettled⟩ := exists_table ((confined.stmts f p.statements).grows h)
    (fun m hm => (Option.some.inj hm).symm) typed.identities
  exact ⟨Δ, hold, sound_stmts p.statements (sees_of_wellFormed hf hs) hsettled h, hintro.nodup,
    fun o ho => (hintro.fresh o ho).1⟩

/-- A well-typed program is accepted, with other numbers for its object types. -/
theorem accepted_of_types (hf : f < s.size) (hs : s.WellFormed) (h : p.Types s f typed) :
    ∃ (ρ : Equiv.Perm FrameId) (t : Store Ty), (∀ o < s.size, ρ o = o) ∧
      program f p s = .ok (typed.rename ρ) t := by
  obtain ⟨Δ, hold, htypes, hnodup, hnew⟩ := h
  have hfresh : Fresh {o | o < s.size} (identitiesOfStmts typed.statements) :=
    ⟨hnodup, fun o ho hlt => absurd (hnew o ho) (Nat.not_le_of_lt hlt)⟩
  obtain ⟨bindings, ρ, t, -, ht, hrun⟩ :=
    complete_stmts p.statements htypes (realizes_start hf hs hold) hfresh
  exact ⟨ρ, t, fun o ho => (ht.old o ho).2,
    program_run_iff.mpr (hrun ρ (Set.eqOn_refl _ _))⟩

end Check

/-- The checker accepts exactly the well-typed programs. What it makes of one is the program with
its types by the rules, and this is unique up to the numbers of new object types. -/
theorem Program.accepted_iff_types {p : Program} {s : Store Ty} {f : FrameId} (hf : f < s.size)
    (hs : s.WellFormed) :
    ((Check.program f p s).isOk = true ↔ ∃ typed, p.Types s f typed) ∧
      ∀ typed t, Check.program f p s = .ok typed t → p.Types s f typed ∧
        ∀ typed', p.Types s f typed' →
          ∃ ρ : Equiv.Perm FrameId, (∀ o < s.size, ρ o = o) ∧ typed'.rename ρ = typed := by
  refine ⟨⟨fun h => ?_, ?_⟩, fun typed t h => ⟨Check.types_of_accepted hf hs h, ?_⟩⟩
  · obtain ⟨typed, t, h⟩ := EStateM.Result.isOk_iff.mp h
    exact ⟨typed, Check.types_of_accepted hf hs h⟩
  · rintro ⟨typed, h⟩
    obtain ⟨ρ, t, -, hrun⟩ := Check.accepted_of_types hf hs h
    exact EStateM.Result.isOk_iff.mpr ⟨typed.rename ρ, t, hrun⟩
  · intro typed' h'
    obtain ⟨ρ, t', hρ, hrun⟩ := Check.accepted_of_types hf hs h'
    exact ⟨ρ, hρ, Check.ok_inj hrun h⟩

/-- The frames in which a program on its own is checked hold no object types. -/
theorem closed_isolatedTypes (K : Set FrameId) : isolatedTypes.Closed K := by
  intro f b hb o ho
  have hbindings : isolatedTypes.bindings f = if f = 0 then Ty.rootBindings else [] := by
    match f with
    | 0 => rfl
    | 1 => rfl
    | f + 2 => exact isolatedTypes.bindings_of_size_le (Nat.le_add_left 2 f)
  rw [hbindings] at hb
  split at hb
  · simp only [Ty.rootBindings, List.mem_cons, List.not_mem_nil, or_false] at hb
    rcases hb with rfl | rfl | rfl <;> cases ho
  · cases hb

theorem wellFormed_isolatedTypes : isolatedTypes.WellFormed := closed_isolatedTypes _

/-- Two objects of one shape, one of whose methods call each other, and a function that uses
both. -/
def Program.comparing : Program :=
  ⟨[.declare ⟨"low", none, some (.object none
      [⟨"limit", some "Integer", some (.literal (.integer 3))⟩]
      [⟨"covers", [⟨"n", some "Integer"⟩], some "Boolean",
         [.ret (some (.method (.variable "this") "within" [.variable "n"]))]⟩,
       ⟨"within", [⟨"n", some "Integer"⟩], some "Boolean",
         [.ret (some (.binary .lessEq (.variable "n") (.property (.variable "this") "limit")))]⟩])⟩,
    .declare ⟨"high", none, some (.object none
      [⟨"limit", none, some (.property (.variable "low") "limit")⟩] [])⟩,
    .define ⟨"raise", [⟨"by", some "Integer"⟩], none,
      [.branch (.method (.variable "low") "covers" [.variable "by"])
        [.assign (.property (.variable "high") "limit")
          (.binary .add (.property (.variable "high") "limit") (.variable "by"))]
        [.ret none]]⟩,
    .expression (.call "raise" [.literal (.integer 2)])]⟩

theorem Program.accepted_iff_types_comparing : 1 < isolatedTypes.size ∧ isolatedTypes.WellFormed ∧
    (∃ typed, comparing.Types isolatedTypes 1 typed) ∧
    ¬ ∃ typed, Program.Types
      ⟨comparing.statements ++ [.assign (.variable "low") (.variable "high")]⟩
      isolatedTypes 1 typed := by
  have hf : 1 < isolatedTypes.size := by decide
  have hs := wellFormed_isolatedTypes
  refine ⟨hf, hs, (accepted_iff_types hf hs).1.mp (by decide +kernel), fun h => ?_⟩
  have hok := (accepted_iff_types hf hs).1.mpr h
  exact absurd hok (by decide +kernel)

end ObjectLang
