import ObjectLang.Proofs.Eval.Entry
import ObjectLang.Proofs.Scope.Growth
import ObjectLang.Proofs.Value.Typing

/-!
# Frames that agree with type frames

A frame agrees with a type frame if every name means a value there that fits its type. The two
chains are compared frame by frame: below the root both frames bind the same names, so a name is
found in the same place of both chains. The root may bind more names than its type frame.

Agreement says something about frames of the chains only, and these are older than what is opened
later. `Store.SameUpTo` compares two stores in this respect.
-/

namespace ObjectLang

namespace Store

variable {α : Type}

/-! ## Meanings in a frame -/

theorem own?_append (s : Store α) {f : FrameId} (hf : f < s.size) (name name' : String) (v : α) :
    (s.append f name v).own? f name' =
      (s.own? f name').or (if name' = name then some v else none) := by
  rw [own?, own?, bindings_append, if_pos ⟨rfl, hf⟩, List.lookup_append, List.lookup_cons]
  by_cases h : name' = name
  · simp [h]
  · have h' : (name' == name) = false := by simpa using h
    simp [h, h']

theorem lookup_rebind (l : List (String × α)) (name name' : String) (v : α) :
    (rebind name v l).lookup name' =
      if name' = name then (l.lookup name').map fun _ => v else l.lookup name' := by
  induction l with
  | nil => simp [rebind]
  | cons b rest ih =>
    have hcons : rebind name v (b :: rest) =
        (if b.1 = name then (name, v) else b) :: rebind name v rest := rfl
    rw [hcons, List.lookup_cons, List.lookup_cons, ih]
    by_cases hb : name' = b.1
    · subst hb
      by_cases hn : b.1 = name
      · simp [hn]
      · simp [hn]
    · by_cases hn : b.1 = name
      · have hne : (name' == name) = false := by simpa [← hn] using hb
        simp [hn, hne]
      · have hne : (name' == b.1) = false := by simpa using hb
        simp [hn, hne]

theorem own?_replace (s : Store α) (f : FrameId) (name name' : String) (v : α) :
    (s.replace f name v).own? f name' =
      if name' = name then (s.own? f name').map fun _ => v else s.own? f name' := by
  rw [own?, own?, bindings_replace]
  by_cases hf : f < s.size
  · rw [if_pos ⟨rfl, hf⟩, lookup_rebind]
  · rw [if_neg fun h => hf h.2, bindings_of_size_le s (Nat.le_of_not_lt hf)]
    simp

/-- No other name and no other frame gets a new meaning. -/
theorem own?_replace_of_ne (s : Store α) {f f' : FrameId} {name name' : String} (v : α)
    (hne : ¬ (f' = f ∧ name' = name)) : (s.replace f name v).own? f' name' = s.own? f' name' := by
  by_cases hframe : f' = f
  · subst hframe
    rw [own?_replace, if_neg fun hname => hne ⟨rfl, hname⟩]
  · rw [own?, own?, bindings_replace, if_neg fun h => hframe h.1.symm]

/-- What a name means is what the frame says, or what it means in the parent. -/
theorem lookup_step (s : Store α) (f : FrameId) (name : String) :
    s.lookup f name = (s.own? f name).or ((s.parent? f).bind (s.lookup · name)) := by
  rw [lookup, s.chain_eq f, List.findSome?_cons]
  cases s.own? f name with
  | some v => rfl
  | none =>
    cases s.parent? f with
    | none => rfl
    | some p => rfl

/-- The owner of a name is the frame itself if it defines the name, or the owner in the parent. -/
theorem owner?_step (s : Store α) (f : FrameId) (name : String) :
    s.owner? f name =
      if (s.own? f name).isSome then some f else (s.parent? f).bind (s.owner? · name) := by
  rw [owner?, s.chain_eq f, List.find?_cons, defines]
  cases s.own? f name with
  | some v => rfl
  | none =>
    cases s.parent? f with
    | none => rfl
    | some p => rfl

theorem owner?_le (s : Store α) {f g : FrameId} {name : String} (h : s.owner? f name = some g) :
    g ≤ f :=
  s.le_of_mem_chain (List.mem_of_find?_eq_some h)

/-! ## Stores that are alike up to a frame -/

/-- Up to the frame `f` the stores have the same frames. -/
def SameUpTo (s t : Store α) (f : FrameId) : Prop :=
  ∀ k ≤ f, t.parent? k = s.parent? k ∧ t.bindings k = s.bindings k

namespace SameUpTo

variable {s t : Store α} {f f' : FrameId}

theorem refl (s : Store α) (f : FrameId) : SameUpTo s s f := fun _ _ => ⟨rfl, rfl⟩

theorem symm (h : SameUpTo s t f) : SameUpTo t s f :=
  fun k hk => ⟨(h k hk).1.symm, (h k hk).2.symm⟩

theorem mono (h : SameUpTo s t f) (hf : f' ≤ f) : SameUpTo s t f' :=
  fun k hk => h k (hk.trans hf)

theorem parent?_eq (h : SameUpTo s t f) : t.parent? f = s.parent? f := (h f le_rfl).1

theorem own?_eq (h : SameUpTo s t f) (name : String) : t.own? f name = s.own? f name := by
  rw [own?, own?, (h f le_rfl).2]

/-- Growth changes nothing up to a frame that exists. -/
theorem of_grows (h : Grows id none s t) (hf : f < s.size) : SameUpTo s t f := by
  intro k hk
  have hview := h.view_eq k (hk.trans_lt hf) (by simp)
  rw [view_id, view_id] at hview
  exact ⟨h.parent_eq k (hk.trans_lt hf), hview⟩

/-- A change of the bindings of a frame changes nothing up to an older frame. -/
theorem modify (s : Store α) (g : List (String × α) → List (String × α)) (hf : f < f') :
    SameUpTo s (s.modify f' g) f := by
  intro k hk
  refine ⟨s.parent?_modify f' k g, ?_⟩
  rw [bindings_modify, if_neg]
  rintro ⟨rfl, -⟩
  exact absurd (hk.trans_lt hf) (Nat.lt_irrefl _)

end SameUpTo

end Store

/-! ## Agreement -/

/-- The frames and the functions of the world are as before. -/
structure World.Same (w w' : World) : Prop where
  store : w'.store = w.store
  functions : w'.functions = w.functions

theorem World.Same.refl (w : World) : w.Same w := ⟨rfl, rfl⟩

theorem World.Same.trans {w w' w'' : World} (h : w.Same w') (h' : w'.Same w'') : w.Same w'' :=
  ⟨h'.store.trans h.store, h'.functions.trans h.functions⟩

/-- The frame `g` binds every name of the type frame `f`, to a value that fits its type. -/
def BindsFitting (types : Store Ty) (w : World) (f g : FrameId) : Prop :=
  ∀ name ty, types.own? f name = some ty →
    ∃ v, w.store.own? g name = some v ∧ v.Fits w.functions ty

/-- The frame `g` and the frames around it agree with the type frame `f` and those around it. -/
inductive Agree (types : Store Ty) (w : World) : FrameId → FrameId → Prop where
  /-- The root frame. -/
  | root {f g : FrameId} : types.parent? f = none → BindsFitting types w f g → Agree types w f g
  /-- A frame below another one, in which no other names are bound. -/
  | child {f g p q : FrameId} : types.parent? f = some p → w.store.parent? g = some q →
      BindsFitting types w f g →
      (∀ name, types.own? f name = none → w.store.own? g name = none) →
      Agree types w p q → Agree types w f g

namespace Agree

variable {types types' : Store Ty} {w w' : World} {f g p q : FrameId}

/-- What lies below another frame in the types lies below a frame that agrees with that one. -/
theorem of_parent? (h : Agree types w f g) (hp : types.parent? f = some p) :
    ∃ q, w.store.parent? g = some q ∧ BindsFitting types w f g ∧
      (∀ name, types.own? f name = none → w.store.own? g name = none) ∧ Agree types w p q := by
  cases h with
  | root hroot _ =>
    rw [hroot] at hp
    cases hp
  | @child _ _ p' q hp' hq hbinds honly hparent =>
    rw [hp'] at hp
    cases hp
    exact ⟨q, hq, hbinds, honly, hparent⟩

/-- The frames around two frames that agree also agree. -/
theorem parent (h : Agree types w f g) (hp : types.parent? f = some p)
    (hq : w.store.parent? g = some q) : Agree types w p q := by
  obtain ⟨q', hq', -, -, hparent⟩ := h.of_parent? hp
  rw [hq] at hq'
  cases hq'
  exact hparent

theorem lt_size (h : Agree types w f g) (hp : types.parent? f = some p) :
    f < types.size ∧ g < w.store.size := by
  obtain ⟨q, hq, -⟩ := h.of_parent? hp
  exact ⟨types.parent?_lt_size hp, w.store.parent?_lt_size hq⟩

/-- Agreement is about the frames of the chains and the functions only. -/
theorem congr (h : Agree types w f g) (htypes : types.SameUpTo types' f)
    (hstore : w.store.SameUpTo w'.store g) (hfunctions : w'.functions = w.functions) :
    Agree types' w' f g := by
  have hfits {f g : FrameId} (h : BindsFitting types w f g) (htypes : types.SameUpTo types' f)
      (hstore : w.store.SameUpTo w'.store g) : BindsFitting types' w' f g := by
    intro name ty hty
    rw [htypes.own?_eq] at hty
    rw [hstore.own?_eq, hfunctions]
    exact h name ty hty
  induction h with
  | root hroot hbinds => exact .root (htypes.parent?_eq.trans hroot) (hfits hbinds htypes hstore)
  | @child f g p q hp hq hbinds honly _ ih =>
    refine .child (htypes.parent?_eq.trans hp) (hstore.parent?_eq.trans hq)
      (hfits hbinds htypes hstore) (fun name hname => ?_)
      (ih (htypes.mono (types.parent?_lt hp).le) (hstore.mono (w.store.parent?_lt hq).le))
    rw [htypes.own?_eq] at hname
    rw [hstore.own?_eq]
    exact honly name hname

theorem same (h : Agree types w f g) (hw : w.Same w') : Agree types w' f g := by
  refine h.congr (.refl types f) ?_ hw.functions
  rw [hw.store]
  exact .refl w.store g

/-- A name that has a type means a value that fits it. -/
theorem lookup (h : Agree types w f g) {name : String} {ty : Ty}
    (hty : types.lookup f name = some ty) :
    ∃ v, w.store.lookup g name = some v ∧ v.Fits w.functions ty := by
  induction h with
  | @root f g hroot hbinds =>
    rw [Store.lookup_step, hroot, Option.bind_none, Option.or_none] at hty
    obtain ⟨v, hv, hfits⟩ := hbinds name ty hty
    refine ⟨v, ?_, hfits⟩
    rw [Store.lookup_step, hv]
    rfl
  | @child f g p q hp hq hbinds honly _ ih =>
    rw [Store.lookup_step, hp] at hty
    rw [Store.lookup_step, hq]
    cases hown : types.own? f name with
    | some ty' =>
      rw [hown] at hty
      cases hty
      obtain ⟨v, hv, hfits⟩ := hbinds name ty hown
      refine ⟨v, ?_, hfits⟩
      rw [hv]
      rfl
    | none =>
      rw [hown] at hty
      rw [honly name hown]
      exact ih hty

/-- A frame that gets a value for a name, of the type of that name, still binds fitting values. -/
theorem bindsFitting_replace (h : BindsFitting types w f g) {name : String} {v : Value} {ty : Ty}
    (hty : types.own? f name = some ty) (hv : v.Fits w.functions ty) :
    BindsFitting types { w with store := w.store.replace g name v } f g := by
  intro name' ty' hty'
  obtain ⟨old, hold, hfits⟩ := h name' ty' hty'
  dsimp only
  rw [Store.own?_replace, hold]
  by_cases hname : name' = name
  · subst hname
    rw [hty] at hty'
    cases hty'
    rw [if_pos rfl]
    exact ⟨v, rfl, hv⟩
  · rw [if_neg hname]
    exact ⟨old, rfl, hfits⟩

/-- A name that has a type can be given another value of that type. -/
theorem set (h : Agree types w f g) {name : String} {ty : Ty} {v : Value}
    (hty : types.lookup f name = some ty) (hv : v.Fits w.functions ty) :
    ∃ owner, w.store.owner? g name = some owner ∧
      Agree types { w with store := w.store.replace owner name v } f g := by
  induction h with
  | @root f g hroot hbinds =>
    rw [Store.lookup_step, hroot, Option.bind_none, Option.or_none] at hty
    obtain ⟨old, hold, -⟩ := hbinds name ty hty
    refine ⟨g, ?_, .root hroot (bindsFitting_replace hbinds hty hv)⟩
    rw [Store.owner?_step, hold]
    rfl
  | @child f g p q hp hq hbinds honly hparent ih =>
    rw [Store.lookup_step, hp] at hty
    rw [Store.owner?_step, hq]
    cases hown : types.own? f name with
    | some ty' =>
      rw [hown] at hty
      cases hty
      obtain ⟨old, hold, -⟩ := hbinds name ty hown
      rw [hold]
      refine ⟨g, rfl, .child hp ((w.store.parent?_replace g g name v).trans hq)
        (bindsFitting_replace hbinds hown hv) (fun name' hname' => ?_) ?_⟩
      · dsimp only
        rw [Store.own?_replace, honly name' hname']
        simp
      · exact hparent.congr (.refl types p) (.modify w.store _ (w.store.parent?_lt hq)) rfl
    | none =>
      rw [hown] at hty
      rw [honly name hown]
      obtain ⟨owner, howner, hagree⟩ := ih hty
      have hlt : owner < g := (w.store.owner?_le howner).trans_lt (w.store.parent?_lt hq)
      -- the owner is older than the frame, which keeps its own bindings
      have hbindings : (w.store.replace owner name v).bindings g = w.store.bindings g := by
        rw [Store.bindings_replace, if_neg fun h => hlt.ne h.1]
      have hown' (name' : String) :
          (w.store.replace owner name v).own? g name' = w.store.own? g name' := by
        rw [Store.own?, Store.own?, hbindings]
      refine ⟨owner, howner, .child hp ((w.store.parent?_replace owner g name v).trans hq)
        (fun name' ty' hty' => ?_) (fun name' hname' => ?_) hagree⟩
      · dsimp only
        rw [hown']
        exact hbinds name' ty' hty'
      · dsimp only
        rw [hown']
        exact honly name' hname'

/-- A name that is free in the type frame is free in the frame, and both can bind it. -/
theorem define (h : Agree types w f g) (hp : types.parent? f = some p) {name : String} {ty : Ty}
    {v : Value} (hname : types.own? f name = none) (hv : v.Fits w.functions ty) :
    w.store.own? g name = none ∧
      Agree (types.append f name ty) { w with store := w.store.append g name v } f g := by
  obtain ⟨hf, hg⟩ := h.lt_size hp
  obtain ⟨q, hq, hbinds, honly, hparent⟩ := h.of_parent? hp
  refine ⟨honly name hname, .child ((types.parent?_append f f name ty).trans hp)
    ((w.store.parent?_append g g name v).trans hq) (fun name' ty' hty' => ?_)
    (fun name' hname' => ?_) ?_⟩
  · dsimp only
    rw [types.own?_append hf] at hty'
    rw [w.store.own?_append hg]
    cases hown : types.own? f name' with
    | some ty₁ =>
      rw [hown] at hty'
      cases hty'
      obtain ⟨old, hold, hfits⟩ := hbinds name' ty' hown
      rw [hold]
      exact ⟨old, rfl, hfits⟩
    | none =>
      rw [hown, Option.none_or] at hty'
      rw [honly name' hown, Option.none_or]
      split at hty'
      · next heq =>
        cases hty'
        rw [if_pos heq]
        exact ⟨v, rfl, hv⟩
      · cases hty'
  · dsimp only
    rw [types.own?_append hf] at hname'
    obtain ⟨hown, hne⟩ := Option.or_eq_none_iff.mp hname'
    rw [w.store.own?_append hg, honly name' hown, Option.none_or, if_neg]
    rintro heq
    rw [if_pos heq] at hne
    cases hne
  · exact hparent.congr (.modify types _ (types.parent?_lt hp))
      (.modify w.store _ (w.store.parent?_lt hq)) rfl

/-- New frames below frames that agree agree. -/
theorem opened (h : Agree types w f g) (hp : types.parent? f = some p) :
    Agree (types.newFrame (some f)).2 (w.opened g)
      types.size w.store.size := by
  obtain ⟨hf, hg⟩ := h.lt_size hp
  have hempty {α : Type} (s : Store α) (parent : Option FrameId) (name : String) :
      (s.newFrame parent).2.own? s.size name = none := by
    rw [Store.own?, Store.bindings_newFrame, s.bindings_of_size_le le_rfl]
    rfl
  refine .child (types.parent?_newFrame_size hf) (w.store.parent?_newFrame_size hg)
    (fun name ty hty => ?_) (fun name _ => hempty w.store _ name) ?_
  · rw [hempty] at hty
    cases hty
  · exact h.congr (.of_grows (.newFrame id types _) hf) (.of_grows (.newFrame id w.store _) hg) rfl

end Agree

end ObjectLang
