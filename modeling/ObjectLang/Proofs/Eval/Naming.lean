import ObjectLang.Proofs.Eval.Ledger
import ObjectLang.Proofs.Value.Sameness

/-!
# The names of functions and objects

An object is given its name when it is built, and every value that refers to the object carries the
name along. A `Naming` is a note of the names that were given. It fits a run at every moment, and
two values that carry their names by one naming are equal only if they are the same value. -/

namespace ObjectLang

/-- Which name each function and each object has been given. An object may have been given none. -/
structure Naming where
  functions : FunctionId → Option String
  objects : FrameId → Option (Option String)

/-- A later naming gives the same names to what already had one. -/
instance : Preorder Naming where
  le N N' := (∀ id name, N.functions id = some name → N'.functions id = some name) ∧
    ∀ members name, N.objects members = some name → N'.objects members = some name
  le_refl _ := ⟨fun _ _ h => h, fun _ _ h => h⟩
  le_trans _ _ _ h h' :=
    ⟨fun id name heq => h'.1 id name (h.1 id name heq),
      fun members name heq => h'.2 members name (h.2 members name heq)⟩

/-! ## Values -/

mutual

/-- The value refers to functions and objects that have a name, and carries the names of the
objects. -/
def Value.NamedBy (N : Naming) : Value → Prop
  | .list items => Value.AllNamedBy N items
  | .function id => (N.functions id).isSome
  | .object name members => N.objects members = some name
  | .nil | .boolean _ | .integer _ | .decimal _ | .string _ => True

/-- So do all values of the list. -/
def Value.AllNamedBy (N : Naming) : List Value → Prop
  | [] => True
  | v :: rest => v.NamedBy N ∧ Value.AllNamedBy N rest

end

namespace Value

variable {N N' : Naming}

theorem allNamedBy_iff {vs : List Value} : AllNamedBy N vs ↔ ∀ v ∈ vs, v.NamedBy N := by
  induction vs with
  | nil => simp [AllNamedBy]
  | cons v rest ih => simp [AllNamedBy, ih]

mutual

theorem NamedBy.mono (h : N ≤ N') : ∀ {v : Value}, v.NamedBy N → v.NamedBy N'
  | .list _, hv => AllNamedBy.mono h hv
  | .function id, hv => by
    obtain ⟨name, hname⟩ := Option.isSome_iff_exists.mp hv
    exact Option.isSome_iff_exists.mpr ⟨name, h.1 id name hname⟩
  | .object name members, hv => h.2 members name hv
  | .nil, _ | .boolean _, _ | .integer _, _ | .decimal _, _ | .string _, _ => trivial

theorem AllNamedBy.mono (h : N ≤ N') : ∀ {vs : List Value}, AllNamedBy N vs → AllNamedBy N' vs
  | [], _ => trivial
  | _ :: _, ⟨hv, hrest⟩ => ⟨hv.mono h, AllNamedBy.mono h hrest⟩

end

mutual

/-- A value without references is named. -/
theorem namedBy_of_within : ∀ {v : Value}, (∀ S, v.Within S) → v.NamedBy N
  | .list _, hv => allNamedBy_of_within hv
  | .function _, hv => (hv ⟨∅, ∅, ∅, subset_rfl⟩).elim
  | .object _ _, hv => (hv ⟨∅, ∅, ∅, subset_rfl⟩).elim
  | .nil, _ | .boolean _, _ | .integer _, _ | .decimal _, _ | .string _, _ => trivial

theorem allNamedBy_of_within : ∀ {vs : List Value}, (∀ S, AllWithin S vs) → AllNamedBy N vs
  | [], _ => trivial
  | _ :: _, hvs => ⟨namedBy_of_within fun S => (hvs S).1, allNamedBy_of_within fun S => (hvs S).2⟩

end

mutual

/-- Values that carry their names by one naming are equal only if they are the same. -/
theorem eq_of_same : ∀ {a b : Value}, a.NamedBy N → b.NamedBy N → a.same b = true → a = b
  | .list as, b, ha, hb, h => by
    cases b with
    | list bs => exact congrArg Value.list (eq_of_sameList ha hb h)
    | _ => simp [same] at h
  | .function id, b, _, _, h => (same_function_iff.mp h).symm
  | .object name members, b, ha, hb, h => by
    obtain ⟨name', rfl⟩ := same_object_iff.mp h
    rw [Option.some.inj (ha.symm.trans hb)]
  | .nil, b, _, _, h | .boolean _, b, _, _, h | .integer _, b, _, _, h | .decimal _, b, _, _, h
  | .string _, b, _, _, h => by cases b <;> simp_all [same]

theorem eq_of_sameList : ∀ {as bs : List Value}, AllNamedBy N as → AllNamedBy N bs →
    sameList as bs = true → as = bs
  | [], bs, _, _, h => by
    cases bs with
    | nil => rfl
    | cons b bs => simp [sameList] at h
  | a :: as, bs, ha, hb, h => by
    cases bs with
    | nil => simp [sameList] at h
    | cons b bs =>
      rw [sameList, Bool.and_eq_true] at h
      rw [eq_of_same ha.1 hb.1 h.1, eq_of_sameList ha.2 hb.2 h.2]

end

end Value

/-! ## Worlds -/

/-- The naming says which functions and objects there are, and what the world holds is named. -/
structure World.NamedBy (N : Naming) (w : World) : Prop where
  functions_eq : ∀ id, N.functions id = w.functions[id]?.map (·.name)
  objects_lt : ∀ members name, N.objects members = some name → members < w.store.size
  bound : ∀ f, ∀ b ∈ w.store.bindings f, b.2.NamedBy N
  logged : ∀ v ∈ w.logged, v.NamedBy N

namespace World.NamedBy

variable {N : Naming} {w : World}

/-- A function with a name is in the table, under this name. -/
theorem functionName_eq (h : w.NamedBy N) {id : FunctionId} {name : String}
    (hname : N.functions id = some name) :
    id < w.functions.size ∧ w.functionName id = name := by
  rw [h.functions_eq] at hname
  obtain ⟨function, hfunction, rfl⟩ := Option.map_eq_some_iff.mp hname
  obtain ⟨hlt, rfl⟩ := Array.getElem?_eq_some_iff.mp hfunction
  exact ⟨hlt, congrArg Function.name (function_of_lt hlt)⟩

/-- A frame is opened, which may hold the members of an object of this name. -/
theorem opened (h : w.NamedBy N) (p : FrameId) (name : Option String) : ∃ N' : Naming, N ≤ N' ∧
    (w.opened p).NamedBy N' ∧ N'.objects w.store.size = some name := by
  let N' : Naming := { N with objects := Function.update N.objects w.store.size (some name) }
  have hle : N ≤ N' := by
    refine ⟨fun _ _ heq => heq, fun members name' heq => ?_⟩
    have hne : members ≠ w.store.size := (h.objects_lt members name' heq).ne
    exact (Function.update_of_ne hne _ _).trans heq
  refine ⟨N', hle, ⟨h.functions_eq, fun members name' heq => ?_, fun f b hb => ?_,
    fun v hv => (h.logged v hv).mono hle⟩, Function.update_self ..⟩
  · by_cases hmembers : members = w.store.size
    · exact hmembers ▸ w.lt_size_opened p
    · have hold := (Function.update_of_ne hmembers _ _).symm.trans heq
      exact (h.objects_lt members name' hold).trans (w.lt_size_opened p)
  · rw [World.opened, Store.bindings_newFrame] at hb
    exact (h.bound f b hb).mono hle

theorem withFunction (h : w.NamedBy N) (function : Function) : ∃ N' : Naming, N ≤ N' ∧
    (w.withFunction function).NamedBy N' ∧
      N'.functions w.functions.size = some function.name := by
  let N' : Naming := { N with
    functions := Function.update N.functions w.functions.size (some function.name) }
  have hnone : N.functions w.functions.size = none := by
    rw [h.functions_eq, Array.getElem?_eq_none le_rfl, Option.map_none]
  have hle : N ≤ N' := by
    refine ⟨fun id name heq => ?_, fun _ _ heq => heq⟩
    have hne : id ≠ w.functions.size := fun hid => by rw [hid, hnone] at heq; cases heq
    exact (Function.update_of_ne hne _ _).trans heq
  refine ⟨N', hle, ⟨fun id => ?_, h.objects_lt, fun f b hb => (h.bound f b hb).mono hle,
    fun v hv => (h.logged v hv).mono hle⟩, Function.update_self ..⟩
  rw [World.withFunction, Array.getElem?_push]
  by_cases hid : id = w.functions.size
  · rw [if_pos hid, hid]
    exact Function.update_self ..
  · rw [if_neg hid, ← h.functions_eq]
    exact Function.update_of_ne hid _ _

theorem modify (h : w.NamedBy N) {f : FrameId} {name : String} {v : Value} (hv : v.NamedBy N)
    {g : List (String × Value) → List (String × Value)}
    (hg : ∀ l, ∀ b ∈ g l, b = (name, v) ∨ b ∈ l) :
    ({ w with store := w.store.modify f g } : World).NamedBy N := by
  refine ⟨h.functions_eq, fun members name' heq => ?_, fun f' b hb => ?_, h.logged⟩
  · rw [Store.size_modify]
    exact h.objects_lt members name' heq
  · rw [Store.bindings_modify] at hb
    split at hb
    · rcases hg _ b hb with rfl | hold
      · exact hv
      · exact h.bound f' b hold
    · exact h.bound f' b hb

end World.NamedBy

/-- Names as the notes on a run that starts with the names `N₀`. Trees may be evaluated anywhere. -/
def Ledger.naming (N₀ : Naming) : Ledger Naming where
  Fits N w := N₀ ≤ N ∧ w.NamedBy N
  Site _ _ := True
  Base _ _ := True
  Known N v := v.NamedBy N
  site_mono _ _ := trivial
  known_mono h hv := hv.mono h
  base_of_site _ := trivial
  base_mono _ _ := trivial
  known_plain := Value.namedBy_of_within
  known_list := Value.allNamedBy_iff
  known_bound h hb := h.2.bound _ _ hb
  base_captured _ _ _ := trivial
  fits_congr h hstore hfunctions hlogged :=
    ⟨h.1, hfunctions ▸ h.2.functions_eq, hstore ▸ h.2.objects_lt, hstore ▸ h.2.bound,
      hlogged ▸ h.2.logged⟩
  opened {N w p} name h _ := by
    obtain ⟨N', hle, hnamed, hobject⟩ := h.2.opened p name
    exact ⟨N', hle, ⟨h.1.trans hle, hnamed⟩, trivial, hobject⟩
  modify h hv hg := ⟨h.1, h.2.modify hv hg⟩
  function {N w captured} d m isMethod h _ := by
    obtain ⟨N', hle, hnamed, hfunction⟩ := h.2.withFunction (d.function captured m isMethod)
    exact ⟨N', hle, ⟨h.1.trans hle, hnamed⟩, Option.isSome_iff_exists.mpr ⟨_, hfunction⟩⟩
  log h hv := by
    refine ⟨h.1, h.2.functions_eq, h.2.objects_lt, h.2.bound, fun v' hv' => ?_⟩
    rcases Array.mem_push.mp hv' with hold | rfl
    · exact h.2.logged v' hold
    · exact hv

end ObjectLang
