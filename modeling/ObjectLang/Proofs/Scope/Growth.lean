import Mathlib.Data.Nat.Basic
import Mathlib.Order.Basic
import ObjectLang.Scope.Store

/-!
# Growth of a store

A store only ever grows: frames are added at the end, a frame keeps its parent, and the entries of a
frame are extended at the end. `Store.Grows π g s t` says that `t` is a later state of `s`. What
counts as an entry is a parameter: `π = id` shows names with their meanings, `π = Prod.fst` shows
names alone, for stores in which a name may get a new meaning. Among the frames of `s` none but `g`
has got new entries, so `g = none` says that all of them show what they showed before.
-/

namespace ObjectLang.Store

variable {α β : Type}

/-- What the bindings of a frame show through `π`. -/
def view (π : String × α → β) (s : Store α) (f : FrameId) : List β := (s.bindings f).map π

theorem view_fst (s : Store α) (f : FrameId) : s.view Prod.fst f = s.names f := rfl

theorem view_id (s : Store α) (f : FrameId) : s.view id f = s.bindings f := List.map_id _

/-- `t` is a later state of `s`, in which only the frame `g` of `s` shows more than before. -/
structure Grows (π : String × α → β) (g : Option FrameId) (s t : Store α) : Prop where
  size_le : s.size ≤ t.size
  parent_eq : ∀ f < s.size, t.parent? f = s.parent? f
  view_isPrefix : ∀ f < s.size, s.view π f <+: t.view π f
  view_eq : ∀ f < s.size, g ≠ some f → t.view π f = s.view π f

namespace Grows

variable {π : String × α → β} {g : Option FrameId} {s t u : Store α}

theorem refl (π : String × α → β) (g : Option FrameId) (s : Store α) : Grows π g s s :=
  ⟨le_rfl, fun _ _ => rfl, fun _ _ => List.prefix_rfl, fun _ _ _ => rfl⟩

theorem trans (h : Grows π g s t) (h' : Grows π g t u) : Grows π g s u := by
  refine ⟨h.size_le.trans h'.size_le, ?_, ?_, ?_⟩
  · intro f hf
    rw [h'.parent_eq f (hf.trans_le h.size_le), h.parent_eq f hf]
  · intro f hf
    exact (h.view_isPrefix f hf).trans (h'.view_isPrefix f (hf.trans_le h.size_le))
  · intro f hf hg
    rw [h'.view_eq f (hf.trans_le h.size_le) hg, h.view_eq f hf hg]

/-- What changes no frame changes none but `g`. -/
theorem weaken (h : Grows π none s t) (g : Option FrameId) : Grows π g s t :=
  ⟨h.size_le, h.parent_eq, h.view_isPrefix, fun f hf _ => h.view_eq f hf (by simp)⟩

/-- Entries with meanings determine the names. -/
theorem names (h : Grows id g s t) : Grows Prod.fst g s t := by
  refine ⟨h.size_le, h.parent_eq, ?_, ?_⟩
  · intro f hf
    have hp := h.view_isPrefix f hf
    rw [view_id, view_id] at hp
    exact hp.map _
  · intro f hf hg
    have he := h.view_eq f hf hg
    rw [view_id, view_id] at he
    rw [view, view, he]

/-! ## Steps -/

theorem newFrame (π : String × α → β) (s : Store α) (p : Option FrameId) :
    Grows π none s (s.newFrame p).2 := by
  refine ⟨by simp, ?_, ?_, ?_⟩
  · intro f hf
    rw [parent?_newFrame, if_neg (Nat.ne_of_lt hf)]
  · intro f _
    simp [view]
  · intro f _ _
    simp [view]

theorem append (π : String × α → β) (s : Store α) (f : FrameId) (name : String) (v : α) :
    Grows π (some f) s (s.append f name v) := by
  refine ⟨by simp, fun f' _ => by simp, ?_, ?_⟩
  · intro f' _
    rw [view, view, bindings_append]
    split
    · simp
    · exact List.prefix_rfl
  · intro f' _ hf
    have hne : ¬ (f = f' ∧ f < s.size) := fun h => hf (by rw [h.1])
    rw [view, view, bindings_append, if_neg hne]

/-- A new meaning for a name does not show in the names. -/
theorem replace (s : Store α) (f : FrameId) (name : String) (v : α) :
    Grows Prod.fst none s (s.replace f name v) := by
  have hnames (f' : FrameId) : (s.replace f name v).view Prod.fst f' = s.view Prod.fst f' := by
    rw [view_fst, view_fst, names_replace]
  refine ⟨by simp, fun f' _ => by simp, fun f' _ => ?_, fun f' _ _ => hnames f'⟩
  exact (hnames f').symm ▸ List.prefix_rfl

/-- What is done to a frame that was opened meanwhile does not show in the older frames. -/
theorem enclosed {f : FrameId} (h : Grows π none s t) (hf : s.size ≤ f)
    (h' : Grows π (some f) t u) : Grows π none s u := by
  have h := h.weaken (some f)
  have hu := h.trans h'
  refine ⟨hu.size_le, hu.parent_eq, hu.view_isPrefix, fun f' hf' _ => hu.view_eq f' hf' ?_⟩
  rw [ne_eq, Option.some.injEq]
  exact (hf'.trans_le hf).ne'

/-- Names that are bound stay bound. -/
theorem names_subset {g : Option FrameId} {s t : Store α} (h : Grows Prod.fst g s t) {f : FrameId}
    (hf : f < s.size) : s.names f ⊆ t.names f :=
  (h.view_isPrefix f hf).subset

end Grows

/-! ## What a frame sees -/

theorem own?_isSome_iff (s : Store α) (f : FrameId) (name : String) :
    (s.own? f name).isSome ↔ name ∈ s.names f := by
  rw [own?, names]
  induction s.bindings f with
  | nil => simp
  | cons b rest ih =>
    rw [List.lookup_cons]
    by_cases hb : name = b.1
    · simp [hb]
    · have hb' : (name == b.1) = false := by simpa using hb
      simp [hb, hb', ih]

theorem defines_iff (s : Store α) (f : FrameId) (name : String) :
    s.defines f name = true ↔ name ∈ s.names f := own?_isSome_iff s f name

theorem defines_eq_false_iff (s : Store α) (f : FrameId) (name : String) :
    s.defines f name = false ↔ name ∉ s.names f := by
  rw [← defines_iff, Bool.not_eq_true]

theorem lt_size_of_bindings {s : Store α} {f : FrameId} (h : s.bindings f ≠ []) : f < s.size := by
  by_contra hle
  exact h (s.bindings_of_size_le (Nat.le_of_not_lt hle))

theorem lt_size_of_mem_names {s : Store α} {f : FrameId} {name : String} (h : name ∈ s.names f) :
    f < s.size := by
  refine lt_size_of_bindings fun hempty => ?_
  rw [names, hempty] at h
  exact List.not_mem_nil h

theorem names_append (s : Store α) {f : FrameId} (hf : f < s.size) (name : String) (v : α) :
    (s.append f name v).names f = s.names f ++ [name] := by
  rw [names, names, bindings_append, if_pos ⟨rfl, hf⟩, List.map_append]
  rfl

/-- A new frame has no names. -/
theorem names_newFrame_size (s : Store α) (p : Option FrameId) :
    (s.newFrame p).2.names s.size = [] := by
  rw [names, bindings_newFrame, bindings_of_size_le s le_rfl]
  rfl

/-- The parent of a new frame is the given one, if that exists. -/
theorem parent?_newFrame_size (s : Store α) {p : FrameId} (hp : p < s.size) :
    (s.newFrame (some p)).2.parent? s.size = some p := by
  rw [parent?_newFrame, if_pos rfl]
  simp [Option.filter, hp]

/-- A name is visible if some frame of the chain defines it. -/
theorem lookup_isSome_iff (s : Store α) (f : FrameId) (name : String) :
    (s.lookup f name).isSome ↔ ∃ g ∈ s.chain f, name ∈ s.names g := by
  rw [lookup, List.findSome?_isSome_iff]
  simp only [own?_isSome_iff]

/-- A name is visible in a frame if the frame defines it or it is visible in the parent. -/
theorem lookup_isSome_step (s : Store α) (f : FrameId) (name : String) :
    (s.lookup f name).isSome ↔
      name ∈ s.names f ∨ ∃ p, s.parent? f = some p ∧ (s.lookup p name).isSome := by
  simp only [lookup_isSome_iff]
  rw [s.chain_eq f]
  cases s.parent? f <;> simp

theorem parent?_lt_size (s : Store α) {f p : FrameId} (h : s.parent? f = some p) :
    f < s.size := by
  obtain ⟨frame, hf, -⟩ := Option.bind_eq_some_iff.mp h
  exact (Array.getElem?_eq_some_iff.mp hf).1

theorem mem_chain_self (s : Store α) (f : FrameId) : f ∈ s.chain f := by
  rw [chain_eq]
  exact List.mem_cons_self

/-- The chain of a frame of a chain is its rest. -/
theorem mem_chain_trans (s : Store α) {f g h : FrameId} (hfg : f ∈ s.chain g)
    (hgh : g ∈ s.chain h) : f ∈ s.chain h := by
  induction h using Nat.strong_induction_on with
  | _ h ih =>
    rw [chain_eq, List.mem_cons] at hgh
    rcases hgh with rfl | hgh
    · exact hfg
    · rw [s.chain_eq h]
      cases hp : s.parent? h with
      | none => simp [hp] at hgh
      | some p =>
        rw [hp] at hgh
        exact List.mem_cons_of_mem _ (ih p (s.parent?_lt hp) hgh)

/-- Of two frames of a chain one is in the chain of the other. -/
theorem mem_chain_total (s : Store α) {f g h : FrameId} (hf : f ∈ s.chain h)
    (hg : g ∈ s.chain h) : f ∈ s.chain g ∨ g ∈ s.chain f := by
  induction h using Nat.strong_induction_on with
  | _ h ih =>
    rw [chain_eq] at hf hg
    rcases List.mem_cons.mp hf with rfl | hfrest
    · exact .inr (s.chain_eq f ▸ hg)
    · rcases List.mem_cons.mp hg with rfl | hgrest
      · exact .inl (s.chain_eq g ▸ hf)
      · cases hp : s.parent? h with
        | none => simp [hp] at hfrest
        | some p =>
          rw [hp] at hfrest hgrest
          exact ih p (s.parent?_lt hp) hfrest hgrest

/-- All frames of a chain are at most as young as the first one. -/
theorem le_of_mem_chain (s : Store α) {f g : FrameId} (h : g ∈ s.chain f) : g ≤ f := by
  induction f using Nat.strong_induction_on with
  | _ f ih =>
    rw [chain_eq, List.mem_cons] at h
    rcases h with rfl | h
    · exact le_rfl
    · cases hp : s.parent? f with
      | none => simp [hp] at h
      | some p =>
        rw [hp] at h
        have hlt := s.parent?_lt hp
        exact (ih p hlt h).trans hlt.le

/-- A chain depends on the parents of frames only. -/
theorem chain_congr {s : Store α} {t : Store β} (h : ∀ f, t.parent? f = s.parent? f)
    (f : FrameId) : t.chain f = s.chain f := by
  induction f using Nat.strong_induction_on with
  | _ f ih =>
    rw [t.chain_eq f, s.chain_eq f, h f]
    cases hp : s.parent? f with
    | none => rfl
    | some p => exact congrArg (f :: ·) (ih p (s.parent?_lt hp))

/-- The chains of existing frames depend on the parents of existing frames only. -/
theorem chain_eq_of_parent?_eq {s t : Store α} (h : ∀ f < s.size, t.parent? f = s.parent? f)
    {f : FrameId} (hf : f < s.size) : t.chain f = s.chain f := by
  induction f using Nat.strong_induction_on with
  | _ f ih =>
    rw [t.chain_eq f, s.chain_eq f, h f hf]
    cases hp : s.parent? f with
    | none => rfl
    | some p =>
      have hlt := s.parent?_lt hp
      exact congrArg (f :: ·) (ih p hlt (hlt.trans hf))

/-- Growth leaves the chains of existing frames as they are. -/
theorem Grows.chain_eq {π : String × α → β} {g : Option FrameId} {s t : Store α}
    (h : Grows π g s t) {f : FrameId} (hf : f < s.size) : t.chain f = s.chain f :=
  chain_eq_of_parent?_eq h.parent_eq hf

/-- A name that is visible in an existing frame stays visible. -/
theorem Grows.lookup_isSome {g : Option FrameId} {s t : Store α} (h : Grows Prod.fst g s t)
    {f : FrameId} (hf : f < s.size) {name : String} (hn : (s.lookup f name).isSome) :
    (t.lookup f name).isSome := by
  rw [lookup_isSome_iff] at hn ⊢
  rw [h.chain_eq hf]
  obtain ⟨f', hf', hname⟩ := hn
  exact ⟨f', hf', h.names_subset ((s.le_of_mem_chain hf').trans_lt hf) hname⟩

/-- What no frame of a chain has got new entries for still means the same there. -/
theorem Grows.lookup_eq {g : Option FrameId} {s t : Store α} (h : Grows id g s t) {f : FrameId}
    (hf : f < s.size) (hg : ∀ f' ∈ s.chain f, g ≠ some f') (name : String) :
    t.lookup f name = s.lookup f name := by
  rw [lookup, lookup, h.chain_eq hf]
  have hown : ∀ f' ∈ s.chain f, t.own? f' name = s.own? f' name := by
    intro f' hf'
    have hview := h.view_eq f' ((s.le_of_mem_chain hf').trans_lt hf) (hg f' hf')
    rw [view_id, view_id] at hview
    rw [own?, own?, hview]
  generalize s.chain f = l at hown
  induction l with
  | nil => rfl
  | cons f' rest ih =>
    rw [List.findSome?_cons, List.findSome?_cons, hown f' List.mem_cons_self,
      ih fun f'' hf'' => hown f'' (List.mem_cons_of_mem _ hf'')]

/-! ## Several bindings at once -/

/-- Adds bindings at the end of a frame, one after another. -/
def appendAll (s : Store α) (f : FrameId) (bindings : List (String × α)) : Store α :=
  bindings.foldl (fun s b => s.append f b.1 b.2) s

theorem appendAll_cons (s : Store α) (f : FrameId) (b : String × α)
    (bindings : List (String × α)) :
    s.appendAll f (b :: bindings) = (s.append f b.1 b.2).appendAll f bindings := rfl

@[simp] theorem size_appendAll (s : Store α) (f : FrameId) (bindings : List (String × α)) :
    (s.appendAll f bindings).size = s.size := by
  induction bindings generalizing s with
  | nil => rfl
  | cons b rest ih => rw [appendAll_cons, ih, size_append]

@[simp] theorem parent?_appendAll (s : Store α) (f f' : FrameId)
    (bindings : List (String × α)) : (s.appendAll f bindings).parent? f' = s.parent? f' := by
  induction bindings generalizing s with
  | nil => rfl
  | cons b rest ih => rw [appendAll_cons, ih, parent?_append]

theorem bindings_appendAll (s : Store α) (f f' : FrameId) (bindings : List (String × α)) :
    (s.appendAll f bindings).bindings f' =
      if f = f' ∧ f < s.size then s.bindings f' ++ bindings else s.bindings f' := by
  induction bindings generalizing s with
  | nil => simp [appendAll]
  | cons b rest ih =>
    rw [appendAll_cons, ih, size_append, bindings_append]
    by_cases h : f = f' ∧ f < s.size
    · rw [if_pos h, if_pos h, if_pos h, List.append_assoc]
      rfl
    · rw [if_neg h, if_neg h, if_neg h]

theorem Grows.appendAll (π : String × α → β) (s : Store α) (f : FrameId)
    (bindings : List (String × α)) : Grows π (some f) s (s.appendAll f bindings) := by
  induction bindings generalizing s with
  | nil => exact .refl π _ s
  | cons b rest ih => exact (Grows.append π s f b.1 b.2).trans (ih _)

/-! ## Visible names -/

/-- The frame exists, and the names are visible in it. -/
structure Shows (s : Store α) (f : FrameId) (visible : List String) : Prop where
  lt_size : f < s.size
  isSome : ∀ name ∈ visible, (s.lookup f name).isSome

namespace Shows

variable {s t : Store α} {f : FrameId} {visible : List String}

theorem grows {g : Option FrameId} (h : Shows s f visible) (hst : Grows Prod.fst g s t) :
    Shows t f visible :=
  ⟨h.lt_size.trans_le hst.size_le, fun name hn => hst.lookup_isSome h.lt_size (h.isSome name hn)⟩

/-- A frame also shows what it binds itself. -/
theorem own {names : List String} (h : Shows s f visible) (hn : ∀ name ∈ names, name ∈ s.names f) :
    Shows s f (names ++ visible) := by
  refine ⟨h.lt_size, ?_⟩
  intro name hname
  rcases List.mem_append.mp hname with hname | hname
  · exact (s.lookup_isSome_step f name).mpr (.inl (hn name hname))
  · exact h.isSome name hname

/-- A new frame shows what its parent shows. -/
theorem child (h : Shows s f visible) : Shows (s.newFrame (some f)).2 s.size visible := by
  refine ⟨by simp, ?_⟩
  intro name hn
  have hgrows := Grows.newFrame Prod.fst s (some f)
  refine (lookup_isSome_step _ _ name).mpr (.inr ⟨f, s.parent?_newFrame_size h.lt_size, ?_⟩)
  exact hgrows.lookup_isSome h.lt_size (h.isSome name hn)

end Shows

end ObjectLang.Store
