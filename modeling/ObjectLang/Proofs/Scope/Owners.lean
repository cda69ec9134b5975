import ObjectLang.Proofs.Agreement

/-!
# Owners of names

The owner of a name is the nearest frame that binds it. It stays the owner for as long as no nearer
frame binds the name as well. Which frames may own the name in the end, whatever is bound later, can
only become fewer.
-/

namespace ObjectLang

/-! ## Lists of bindings -/

section

variable {α : Type} {l : List (String × α)} {name : String}

theorem mem_of_lookup_eq_some {a : α} (h : l.lookup name = some a) : (name, a) ∈ l := by
  obtain ⟨before, after, rfl, -⟩ := List.lookup_eq_some_iff.mp h
  simp

theorem lookup_eq_none_of_not_mem (h : name ∉ l.map Prod.fst) : l.lookup name = none := by
  rw [List.lookup_eq_none_iff]
  intro b hb
  rw [bne_iff_ne]
  exact fun heq => h (heq ▸ List.mem_map_of_mem hb)

/-- Where no name is repeated, a name means what its binding says. -/
theorem lookup_eq_some_of_mem (h : (l.map Prod.fst).Nodup) {b : String × α} (hb : b ∈ l) :
    l.lookup b.1 = some b.2 := by
  obtain ⟨before, after, rfl⟩ := List.append_of_mem hb
  have hbefore : b.1 ∉ before.map Prod.fst := by
    rw [List.map_append] at h
    exact fun hmem => (List.nodup_append.mp h).2.2 b.1 hmem b.1 (by simp) rfl
  rw [List.lookup_append, lookup_eq_none_of_not_mem hbefore, Option.none_or]
  exact List.lookup_cons_self

end

namespace Store

variable {α β : Type}

/-! ## Owners of names -/

/-- The owner of a name depends on which frames of the chain bind it. -/
theorem owner?_congr {s : Store α} {t : Store β} {f : FrameId} {name : String}
    (hchain : t.chain f = s.chain f)
    (hnames : ∀ g ∈ s.chain f, name ∈ t.names g ↔ name ∈ s.names g) :
    t.owner? f name = s.owner? f name := by
  have hdefines : ∀ g ∈ s.chain f, t.defines g name = s.defines g name := by
    intro g hg
    rw [Bool.eq_iff_iff, defines_iff, defines_iff]
    exact hnames g hg
  rw [owner?, owner?, hchain]
  generalize s.chain f = l at hdefines
  induction l with
  | nil => rfl
  | cons g rest ih =>
    rw [List.find?_cons, List.find?_cons, hdefines g List.mem_cons_self,
      ih fun g' hg' => hdefines g' (List.mem_cons_of_mem _ hg')]

/-- Growth elsewhere leaves the owners of names as they are. -/
theorem Grows.owner?_eq {g : Option FrameId} {s t : Store α} (h : Grows Prod.fst g s t)
    {f : FrameId} (hf : f < s.size) {name : String}
    (hg : ∀ f' ∈ s.chain f, g = some f' → (name ∈ t.names f' → name ∈ s.names f')) :
    t.owner? f name = s.owner? f name := by
  refine owner?_congr (h.chain_eq hf) fun f' hf' => ?_
  have hlt : f' < s.size := (s.le_of_mem_chain hf').trans_lt hf
  have hsub := h.names_subset hlt
  refine ⟨fun hname => ?_, fun hname => hsub hname⟩
  by_cases hne : g = some f'
  · exact hg f' hf' hne hname
  · have hview := h.view_eq f' hlt hne
    rw [view_fst, view_fst] at hview
    rwa [hview] at hname

theorem mem_names_of_owner? {s : Store α} {f g : FrameId} {name : String}
    (h : s.owner? f name = some g) : name ∈ s.names g := by
  rw [owner?, List.find?_eq_some_iff_append] at h
  exact (s.defines_iff g name).mp h.1

/-! ## Frames that may become owners -/

/-- A search for the name from the first frame may end in the second one, now or after more names
are bound: no frame before it binds the name as yet. -/
inductive MayOwn (s : Store α) (name : String) : FrameId → FrameId → Prop where
  | here (f : FrameId) : MayOwn s name f f
  | outer {f p g : FrameId} : name ∉ s.names f → s.parent? f = some p → MayOwn s name p g →
      MayOwn s name f g

namespace MayOwn

variable {s t : Store α} {name : String} {f g : FrameId}

theorem of_owner? (h : s.owner? f name = some g) : s.MayOwn name f g := by
  induction f using Nat.strong_induction_on with
  | _ f ih =>
    rw [owner?_step] at h
    split at h
    · cases h
      exact .here _
    · next hown =>
      obtain ⟨p, hp, howner⟩ := Option.bind_eq_some_iff.mp h
      exact .outer (fun hname => hown ((s.own?_isSome_iff f name).mpr hname)) hp
        (ih p (s.parent?_lt hp) howner)

theorem le (h : s.MayOwn name f g) : g ≤ f := by
  induction h with
  | here f => exact le_rfl
  | outer _ hp _ ih => exact ih.trans (s.parent?_lt hp).le

/-- A frame that binds the name ends the search. -/
theorem eq_of_mem (h : s.MayOwn name f g) (hname : name ∈ s.names f) : g = f := by
  cases h with
  | here f => rfl
  | outer hfree _ _ => exact absurd hname hfree

/-- When more names are bound, a search ends nowhere else than it might have ended before. -/
theorem of_grows {g' : Option FrameId} (h : t.MayOwn name f g) (hst : Grows Prod.fst g' s t)
    (hf : f < s.size) : s.MayOwn name f g := by
  induction h with
  | here f => exact .here f
  | @outer f p g hfree hp _ ih =>
    have hparent : s.parent? f = some p := hst.parent_eq f hf ▸ hp
    exact .outer (fun hname => hfree (hst.names_subset hf hname)) hparent
      (ih ((s.parent?_lt hparent).trans hf))

/-- From a new frame a search goes on around it. -/
theorem of_newFrame (h : (s.newFrame (some f)).2.MayOwn name s.size g) (hf : f < s.size) :
    g = s.size ∨ s.MayOwn name f g := by
  cases h with
  | here => exact .inl rfl
  | outer _ hp hrest =>
    rw [s.parent?_newFrame_size hf] at hp
    cases hp
    exact .inr (hrest.of_grows (.newFrame Prod.fst s (some f)) hf)

end MayOwn

/-! ## Opening a frame with bindings -/

/-- The store with one more frame, which has the given bindings. -/
def openWith (s : Store α) (p : FrameId) (bindings : List (String × α)) : Store α :=
  (s.newFrame (some p)).2.appendAll s.size bindings

variable (s : Store α) (p : FrameId) (bindings : List (String × α))

@[simp] theorem size_openWith : (s.openWith p bindings).size = s.size + 1 := by
  simp [openWith]

theorem parent?_openWith (f : FrameId) :
    (s.openWith p bindings).parent? f = (s.newFrame (some p)).2.parent? f := by
  simp [openWith]

theorem bindings_openWith (f : FrameId) :
    (s.openWith p bindings).bindings f = if f = s.size then bindings else s.bindings f := by
  rw [openWith, bindings_appendAll, bindings_newFrame, size_newFrame]
  by_cases hf : f = s.size
  · subst hf
    rw [if_pos ⟨rfl, Nat.lt_succ_self _⟩, if_pos rfl, s.bindings_of_size_le le_rfl, List.nil_append]
  · rw [if_neg fun h => hf h.1.symm, if_neg hf]

theorem grows_openWith : Grows id none s (s.openWith p bindings) := by
  have hview {f : FrameId} (hf : f < s.size) :
      (s.openWith p bindings).view id f = s.view id f := by
    rw [view_id, view_id, bindings_openWith, if_neg (Nat.ne_of_lt hf)]
  refine ⟨by simp, ?_, ?_, ?_⟩
  · intro f hf
    rw [parent?_openWith, parent?_newFrame, if_neg (Nat.ne_of_lt hf)]
  · intro f hf
    exact hview hf ▸ List.prefix_rfl
  · intro f hf _
    exact hview hf

/-- Growth leaves what an older frame says as it is. -/
theorem Grows.own?_eq {s t : Store α} (h : Grows id none s t) {f : FrameId} (hf : f < s.size)
    (name : String) : t.own? f name = s.own? f name := by
  have hview := h.view_eq f hf (by simp)
  rw [view_id, view_id] at hview
  rw [own?, own?, hview]

theorem Grows.bindings_eq {s t : Store α} (h : Grows id none s t) {f : FrameId} (hf : f < s.size) :
    t.bindings f = s.bindings f := by
  have hview := h.view_eq f hf (by simp)
  rwa [view_id, view_id] at hview

theorem mem_names_of_own? {s : Store α} {f : FrameId} {name : String} {a : α}
    (h : s.own? f name = some a) : name ∈ s.names f :=
  (s.own?_isSome_iff f name).mp (by rw [h]; rfl)

end Store

end ObjectLang
