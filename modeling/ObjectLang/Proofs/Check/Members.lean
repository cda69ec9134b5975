import ObjectLang.Proofs.TypeSystem.Lookup
import ObjectLang.Proofs.TypeSystem.Soundness

/-!
# Members of checked objects

The type of an accepted object is a frame without parent, which binds the fields and then the
methods, each once and in their order, to the types that the typed tree shows.
-/

namespace ObjectLang.Check

variable {f members : FrameId} {this : Ty} {s t : Store Ty}

theorem objectFields_names {fields : List Declaration} {tfields : List TypedDeclaration}
    (h : objectFields f members fields s = .ok tfields t) :
    tfields.map (·.name) = fields.map (·.name) := by
  induction fields generalizing s tfields with
  | nil =>
    rw [objectFields] at h
    cases h
    rfl
  | cons d rest ih =>
    simp only [objectFields, bind_run_eq_ok_iff, pure_run_eq_ok_iff] at h
    obtain ⟨_, _, -, td, _, hd, _, _, -, trest, _, hrest, rfl, rfl⟩ := h
    rw [List.map_cons, List.map_cons, declaration_name hd, ih hrest]

theorem objectMethods_names : ∀ {s t : Store Ty} {methods : List Definition}
    {signatures : List Signature} {tmethods : List TypedDefinition},
    methods.length = signatures.length →
    objectMethods f this methods signatures s = .ok tmethods t →
    tmethods.map (·.name) = methods.map (·.name)
  | s, t, [], signatures, tmethods, _, h => by
    rw [objectMethods.eq_def] at h
    cases h
    rfl
  | s, t, _ :: _, [], tmethods, hlength, _ => by cases hlength
  | s, t, d :: rest, signature :: signatures, tmethods, hlength, h => by
    simp only [objectMethods, bind_run_eq_ok_iff, pure_run_eq_ok_iff] at h
    obtain ⟨td, _, hd, trest, _, hrest, rfl, rfl⟩ := h
    rw [List.map_cons, List.map_cons, (definition_heading hd).1,
      objectMethods_names (Nat.succ.inj hlength) hrest]

/-- What the checker makes of an object, and what the frame of its type is then. -/
structure Members (f : FrameId) (fields : List Declaration) (methods : List Definition)
    (s t : Store Ty) (tfields : List TypedDeclaration) (tmethods : List TypedDefinition) :
    Prop where
  filled : ∃ u, objectFields f s.size fields (s.newFrame none).2 = .ok tfields u
  lt_size : s.size < t.size
  parent_eq : t.parent? s.size = none
  bindings_eq : t.bindings s.size = memberBindings tfields tmethods
  fields_eq : tfields.map (·.name) = fields.map (·.name)
  methods_eq : tmethods.map (·.name) = methods.map (·.name)
  nodup : (fields.map (·.name) ++ methods.map (·.name)).Nodup

/-- The frame of the type of an accepted object is settled when the object is. -/
theorem object_eq_ok {name : Option String} {fields : List Declaration}
    {methods : List Definition} {te : TypedExpr}
    (h : expr f (.object name fields methods) s = .ok te t) :
    ∃ tfields tmethods, te = .object name tfields tmethods (.object s.size) ∧
      Members f fields methods s t tfields tmethods := by
  simp only [expr, bind_run_eq_ok_iff, pure_run_eq_ok_iff, requireUnreserved_run_iff,
    newFrame_run_iff] at h
  obtain ⟨_, _, ⟨-, rfl⟩, _, _, ⟨rfl, rfl⟩, tfields, s₂, hfields, signatures, s₃, hsignatures,
    tmethods, s₄, hmethods, rfl, rfl⟩ := h
  have hm : s.size < (s.newFrame none).2.size := by simp
  have hempty : (s.newFrame none).2.bindings s.size = [] := by
    rw [Store.bindings_newFrame, s.bindings_of_size_le le_rfl]
  have hgrows := (((confined.objectFields f s.size fields).grows hfields).trans
    ((confined.registerMethods s.size methods).grows hsignatures)).trans
    (((confined.objectMethods f (.object s.size) methods signatures).grows hmethods).weaken _)
  obtain ⟨hbindings, hnodup⟩ := members_settled hm hempty hfields hsignatures hmethods
  have hm₂ := hm.trans_le ((confined.objectFields f s.size fields).grows hfields).size_le
  obtain ⟨htypes, -, -, -⟩ := (registerMethods_run_iff hm₂).mp hsignatures
  have hfieldNames := objectFields_names hfields
  have hmethodNames := objectMethods_names htypes.length_eq hmethods
  have hnames : s₄.names s.size = fields.map (·.name) ++ methods.map (·.name) := by
    rw [Store.names, hbindings, memberBindings_names, hfieldNames, hmethodNames]
  exact ⟨tfields, tmethods, rfl, ⟨s₂, hfields⟩, hm.trans_le hgrows.size_le,
    (hgrows.parent_eq s.size hm).trans (by rw [Store.parent?_newFrame, if_pos rfl]; rfl),
    hbindings, hfieldNames, hmethodNames, hnames ▸ hnodup⟩

end ObjectLang.Check
