import Mathlib.Data.List.Nodup
import Mathlib.Order.OrderIsoNat
import ObjectLang.Proofs.CheckedWrites
import ObjectLang.Proofs.Scope.History

/-!
# Scopes are chains of ordered maps

Any sequence of operations, through any handles, leaves the scopes as its history tells. Every frame
is an ordered map: its names are distinct and stand in the order of their definitions, each with the
value that was last written. Reading goes through the map of the frame, or up to the nearest map of
the chain that has the name, and so does writing. Nothing else changes a map.

The invariant is `Scopes.Replays`, which compares the store with the history frame by frame. One
operation does what the history prescribes (`Replays.perform`), and this keeps the invariant
(`Replays.next`).
-/

namespace ObjectLang

/-! ## Changes of a store -/

namespace Store

variable {α : Type} {s t : Store α} {f : FrameId} {name : String} {v : α} {parent : Option FrameId}

/-- `t` is `s` with one more frame, which is empty and has the given parent. -/
structure Opens (parent : Option FrameId) (s t : Store α) : Prop where
  size_eq : t.size = s.size + 1
  parent_new : t.parent? s.size = parent
  bindings_new : t.bindings s.size = []
  parent?_eq : ∀ f, f ≠ s.size → t.parent? f = s.parent? f
  bindings_eq : ∀ f, f ≠ s.size → t.bindings f = s.bindings f

/-- `t` differs from `s` only in that the frame `f` has one more binding, after those it had. -/
structure Adds (f : FrameId) (name : String) (v : α) (s t : Store α) : Prop where
  size_eq : t.size = s.size
  parent?_eq : ∀ f', t.parent? f' = s.parent? f'
  bindings_added : t.bindings f = s.bindings f ++ [(name, v)]
  bindings_eq : ∀ f', f' ≠ f → t.bindings f' = s.bindings f'

/-- A parent that exists becomes the parent of the new frame. -/
theorem opens_newFrame (hparent : ∀ p ∈ parent, p < s.size) :
    Opens parent s (s.newFrame parent).2 where
  size_eq := size_newFrame s parent
  parent_new := by
    rw [parent?_newFrame, if_pos rfl]
    cases parent with
    | none => rfl
    | some p => simp [Option.filter, hparent p rfl]
  bindings_new := by rw [bindings_newFrame, s.bindings_of_size_le le_rfl]
  parent?_eq f hf := by rw [parent?_newFrame, if_neg hf]
  bindings_eq f _ := bindings_newFrame s parent f

theorem adds_append (hf : f < s.size) (name : String) (v : α) :
    Adds f name v s (s.append f name v) where
  size_eq := size_append s f name v
  parent?_eq f' := parent?_append s f f' name v
  bindings_added := by rw [bindings_append, if_pos ⟨rfl, hf⟩]
  bindings_eq f' hne := by rw [bindings_append, if_neg fun h => hne h.1.symm]

namespace Opens

variable (h : Opens parent s t)
include h

theorem bindings_same (f : FrameId) : t.bindings f = s.bindings f := by
  by_cases hf : f = s.size
  · rw [hf, h.bindings_new, s.bindings_of_size_le le_rfl]
  · exact h.bindings_eq f hf

theorem names_same (f : FrameId) : t.names f = s.names f := by
  rw [names, names, h.bindings_same]

theorem own?_same (f : FrameId) (name : String) : t.own? f name = s.own? f name := by
  rw [own?, own?, h.bindings_same]

end Opens

namespace Adds

variable (h : Adds f name v s t)
include h

theorem names_added : t.names f = s.names f ++ [name] := by
  rw [names, names, h.bindings_added, List.map_append]
  rfl

theorem names_eq {f' : FrameId} (hne : f' ≠ f) : t.names f' = s.names f' := by
  rw [names, names, h.bindings_eq f' hne]

/-- The name gets its value if it was free, and no other name of any frame changes. -/
theorem own?_eq (hfree : name ∉ s.names f) (f' : FrameId) (name' : String) :
    t.own? f' name' = if f' = f ∧ name' = name then some v else s.own? f' name' := by
  by_cases hf : f' = f
  · subst hf
    rw [own?, own?, h.bindings_added, List.lookup_append, List.lookup_cons]
    by_cases hname : name' = name
    · subst hname
      rw [lookup_eq_none_of_not_mem hfree, if_pos ⟨rfl, rfl⟩, beq_self_eq_true]
      rfl
    · rw [if_neg fun h => hname h.2, beq_false_of_ne hname]
      exact Option.or_none
  · rw [own?, own?, h.bindings_eq f' hf, if_neg fun h => hf h.1]

end Adds

/-- Parents are older, so no walk from parent to parent goes on for ever. -/
theorem walk_ends (s : Store α) (walk : ℕ → FrameId) :
    ∃ n, s.parent? (walk n) ≠ some (walk (n + 1)) := by
  by_contra hforever
  push Not at hforever
  exact not_strictAnti_of_wellFoundedLT walk
    (strictAnti_nat_of_succ_lt fun n => s.parent?_lt (hforever n))

end Store

namespace Scopes

variable {α : Type} {s t u : Scopes α} {past : History α} {op : Operation α}
  {ops : List (Operation α)} {e : Option (Effect α)} {f g : FrameId} {name : String} {v : α}

/-- What an effect makes of the scopes: nothing else changes. -/
inductive Becomes (s : Scopes α) : Option (Effect α) → Scopes α → Prop where
  | same : Becomes s none s
  | opened {parent : Option FrameId} {store : Store α} : Store.Opens parent s.store store →
      Becomes s (some (.opened s.store.size parent)) ⟨store, s.handles ++ [s.store.size]⟩
  | shared {f : FrameId} : Becomes s (some (.shared f)) { s with handles := s.handles ++ [f] }
  | defined {f : FrameId} {name : String} {v : α} {store : Store α} :
      Store.Adds f name v s.store store →
      Becomes s (some (.defined f name v)) { s with store := store }
  | changed {f : FrameId} {name : String} {v : α} {store : Store α} :
      Store.Writes f name v s.store store →
      Becomes s (some (.changed f name v)) { s with store := store }

/-! ## The invariant -/

/-- The scopes are as the history tells. -/
structure Replays (s : Scopes α) (past : History α) : Prop where
  handles_eq : s.handles = past.handles
  /-- Every handle leads to a frame that exists. -/
  handles_lt : ∀ f ∈ s.handles, f < s.store.size
  size_eq : s.store.size = past.frames
  parent?_eq : ∀ f, s.store.parent? f = past.parent? f
  names_eq : ∀ f, s.store.names f = past.names f
  names_nodup : ∀ f, (past.names f).Nodup
  own?_eq : ∀ f name, s.store.own? f name = past.value? f name

theorem replays_empty : (empty : Scopes α).Replays [] where
  handles_eq := rfl
  handles_lt := by simp [empty]
  size_eq := rfl
  parent?_eq _ := rfl
  names_eq _ := rfl
  names_nodup _ := List.nodup_nil
  own?_eq _ _ := rfl

namespace Replays

variable (h : s.Replays past)
include h

theorem frame?_eq (i : Handle) : s.frame? i = past.handles[i]? := by
  rw [frame?, h.handles_eq]

theorem lt_size_of_frame? {i : Handle} (hf : s.frame? i = some f) : f < s.store.size :=
  h.handles_lt f (List.mem_of_getElem? hf)

theorem mem_names_iff : name ∈ past.names f ↔ (past.value? f name).isSome := by
  rw [← h.names_eq, ← h.own?_eq, s.store.own?_isSome_iff]

/-! ### Reading -/

/-- The store finds the frame in which a name belongs by the walk that the history allows. -/
theorem owner?_eq_some_iff : s.store.owner? f name = some g ↔ past.Nearest name f g := by
  -- a step up leads to an older frame
  induction f using Nat.strong_induction_on with
  | _ f ih =>
    have hown : (s.store.own? f name).isSome ↔ name ∈ past.names f := by
      rw [s.store.own?_isSome_iff, h.names_eq]
    rw [s.store.owner?_step, h.parent?_eq]
    by_cases hname : name ∈ past.names f
    · rw [if_pos (hown.mpr hname), Option.some.injEq]
      constructor
      · rintro rfl
        exact .here hname
      · intro hnearest
        cases hnearest with
        | here => rfl
        | above hfree => exact absurd hname hfree
    · rw [if_neg fun hsome => hname (hown.mp hsome), Option.bind_eq_some_iff]
      constructor
      · rintro ⟨p, hp, howner⟩
        have hlt := s.store.parent?_lt ((h.parent?_eq f).trans hp)
        exact .above hname hp ((ih p hlt).mp howner)
      · intro hnearest
        cases hnearest with
        | here hmem => exact absurd hmem hname
        | above _ hp hrest =>
          have hlt := s.store.parent?_lt ((h.parent?_eq f).trans hp)
          exact ⟨_, hp, (ih _ hlt).mpr hrest⟩

theorem owner?_eq_none_iff :
    s.store.owner? f name = none ↔ ∀ g, ¬ past.Nearest name f g := by
  rw [Option.eq_none_iff_forall_ne_some]
  exact forall_congr' fun g => not_congr h.owner?_eq_some_iff

theorem lookup_eq_some_iff : s.store.lookup f name = some v ↔
    ∃ g, past.Nearest name f g ∧ past.value? g name = some v := by
  rw [s.store.lookup_eq, Option.bind_eq_some_iff]
  exact exists_congr fun g => and_congr h.owner?_eq_some_iff (by rw [h.own?_eq])

/-- The bindings of a frame are its names with the values that were last written. -/
theorem bindings_eq (f : FrameId) : s.store.bindings f = past.entries f := by
  have hnodup : (s.store.names f).Nodup := by
    rw [h.names_eq]
    exact h.names_nodup f
  have hbinding : ∀ b ∈ s.store.bindings f, (past.value? f b.1).map (b.1, ·) = some b := by
    intro b hb
    rw [← h.own?_eq, Store.own?, lookup_eq_some_of_mem hnodup hb]
    rfl
  rw [History.entries, ← h.names_eq, Store.names, List.filterMap_map]
  exact (List.filterMap_some.symm.trans (List.filterMap_congr hbinding).symm)

/-! ### One operation -/

/-- An operation does what the history prescribes, and tells whether it did anything. -/
theorem perform {ok : Bool} (hperform : s.perform op = some (ok, t)) :
    ∃ e, past.Prescribes op e ∧ ok = e.isSome ∧ s.Becomes e t := by
  cases op with
  | root =>
    cases hperform
    have hopens : Store.Opens none s.store (s.store.newFrame none).2 :=
      Store.opens_newFrame (by simp)
    exact ⟨_, h.size_eq ▸ .root, rfl, .opened hopens⟩
  | child i =>
    obtain ⟨f, hf, hresult⟩ := Option.map_eq_some_iff.mp hperform
    cases hresult
    have hopens : Store.Opens (some f) s.store (s.store.newFrame (some f)).2 :=
      Store.opens_newFrame (by simpa using h.lt_size_of_frame? hf)
    rw [h.frame?_eq] at hf
    exact ⟨_, h.size_eq ▸ .child hf, rfl, .opened hopens⟩
  | share i =>
    obtain ⟨f, hf, hresult⟩ := Option.map_eq_some_iff.mp hperform
    cases hresult
    rw [h.frame?_eq] at hf
    exact ⟨_, .share hf, rfl, .shared⟩
  | define i name v =>
    obtain ⟨f, hf, hresult⟩ := Option.map_eq_some_iff.mp hperform
    have hsize := h.lt_size_of_frame? hf
    rw [h.frame?_eq] at hf
    -- a name that is taken makes the attempt fail, and then the store is not touched
    cases hdefine : s.store.define f name v with
    | none =>
      rw [hdefine] at hresult
      cases hresult
      have hdefines : s.store.defines f name = true := by simpa [Store.define] using hdefine
      rw [s.store.defines_iff, h.names_eq] at hdefines
      exact ⟨none, .redefine hf hdefines, rfl, .same⟩
    | some store =>
      rw [hdefine] at hresult
      cases hresult
      obtain ⟨hfree, rfl⟩ := (s.store.define_eq_some_iff store f name v).mp hdefine
      rw [s.store.defines_eq_false_iff, h.names_eq] at hfree
      exact ⟨_, .define hf hfree, rfl, .defined (Store.adds_append hsize name v)⟩
  | set i name v =>
    obtain ⟨f, hf, hresult⟩ := Option.map_eq_some_iff.mp hperform
    rw [h.frame?_eq] at hf
    cases howner : s.store.owner? f name with
    | none =>
      rw [Store.set, howner] at hresult
      cases hresult
      exact ⟨none, .setMissing hf (h.owner?_eq_none_iff.mp howner), rfl, .same⟩
    | some g =>
      rw [Store.set, howner] at hresult
      cases hresult
      have hwrites := Store.writes_replace (Store.mem_names_of_owner? howner) v
      exact ⟨_, .set hf (h.owner?_eq_some_iff.mp howner), rfl, .changed hwrites⟩
  | setOwn i name v =>
    obtain ⟨f, hf, hresult⟩ := Option.map_eq_some_iff.mp hperform
    rw [h.frame?_eq] at hf
    by_cases hname : name ∈ s.store.names f
    · rw [Store.setOwn, if_pos ((s.store.defines_iff f name).mpr hname)] at hresult
      cases hresult
      have hwrites := Store.writes_replace hname v
      rw [h.names_eq] at hname
      exact ⟨_, .setOwn hf hname, rfl, .changed hwrites⟩
    · have hdefines := (s.store.defines_eq_false_iff f name).mpr hname
      rw [Store.setOwn, hdefines] at hresult
      cases hresult
      rw [h.names_eq] at hname
      exact ⟨none, .setOwnMissing hf hname, rfl, .same⟩

end Replays

/-! ## One effect -/

/-- What reading shows after an effect, in terms of what it showed before. -/
structure After (e : Effect α) (s t : Scopes α) : Prop where
  handles_eq : t.handles = s.handles ++ e.handle?.toList
  size_eq : t.store.size = s.store.size + if e.opens then 1 else 0
  parent?_eq : ∀ f, t.store.parent? f = (s.store.parent? f).or (e.parent? f)
  names_eq : ∀ f, t.store.names f = s.store.names f ++ (e.name? f).toList
  own?_eq : ∀ f name, t.store.own? f name = (e.value? f name).or (s.store.own? f name)

/-- The new frame had no parent before, as it did not exist. -/
theorem after_opened {parent : Option FrameId} {store : Store α}
    (hopens : Store.Opens parent s.store store) :
    After (.opened s.store.size parent) s ⟨store, s.handles ++ [s.store.size]⟩ where
  handles_eq := rfl
  size_eq := hopens.size_eq
  parent?_eq f := by
    dsimp only
    by_cases hf : f = s.store.size
    · subst hf
      have hnone : s.store.parent? s.store.size = none := by
        by_contra hsome
        obtain ⟨p, hp⟩ := Option.ne_none_iff_exists'.mp hsome
        exact Nat.lt_irrefl _ (s.store.parent?_lt_size hp)
      rw [hopens.parent_new, hnone, Effect.parent?, if_pos rfl, Option.none_or]
    · rw [hopens.parent?_eq f hf, Effect.parent?, if_neg fun heq => hf heq.symm, Option.or_none]
  names_eq f := (hopens.names_same f).trans (List.append_nil _).symm
  own?_eq f name := hopens.own?_same f name

theorem after_shared (s : Scopes α) (f : FrameId) :
    After (.shared f) s { s with handles := s.handles ++ [f] } where
  handles_eq := rfl
  size_eq := rfl
  parent?_eq _ := Option.or_none.symm
  names_eq _ := (List.append_nil _).symm
  own?_eq _ _ := rfl

theorem after_defined {store : Store α} (hadds : Store.Adds f name v s.store store)
    (hfree : name ∉ s.store.names f) : After (.defined f name v) s { s with store := store } where
  handles_eq := (List.append_nil _).symm
  size_eq := hadds.size_eq
  parent?_eq f' := (hadds.parent?_eq f').trans Option.or_none.symm
  names_eq f' := by
    rw [Effect.name?]
    by_cases hf : f' = f
    · rw [hf, hadds.names_added, if_pos rfl]
      rfl
    · rw [hadds.names_eq hf, if_neg fun heq => hf heq.symm]
      exact (List.append_nil _).symm
  own?_eq f' name' := by
    rw [hadds.own?_eq hfree, Effect.value?]
    by_cases hcell : f' = f ∧ name' = name
    · rw [if_pos hcell, if_pos ⟨hcell.1.symm, hcell.2.symm⟩, Option.some_or]
    · rw [if_neg hcell, if_neg fun heq => hcell ⟨heq.1.symm, heq.2.symm⟩, Option.none_or]

theorem after_changed {store : Store α} (hwrites : Store.Writes f name v s.store store) :
    After (.changed f name v) s { s with store := store } where
  handles_eq := (List.append_nil _).symm
  size_eq := hwrites.size_eq
  parent?_eq f' := (hwrites.parent?_eq f').trans Option.or_none.symm
  names_eq f' := (hwrites.names_eq f').trans (List.append_nil _).symm
  own?_eq f' name' := by
    rw [Effect.value?]
    by_cases hcell : f' = f ∧ name' = name
    · obtain ⟨rfl, rfl⟩ := hcell
      rw [hwrites.written, if_pos ⟨rfl, rfl⟩, Option.some_or]
    · rw [hwrites.others f' name' hcell, if_neg fun heq => hcell ⟨heq.1.symm, heq.2.symm⟩,
        Option.none_or]

namespace Replays

variable (h : s.Replays past)
include h

/-- An effect that adds no name twice, and gives out handles to frames that exist, keeps the
invariant: scopes and history show the same after it as well. -/
theorem after {e : Effect α} (ha : After e s t) (hlt : ∀ f ∈ e.handle?, f < t.store.size)
    (hfree : ∀ f, ∀ name ∈ e.name? f, name ∉ past.names f) : t.Replays (past ++ [e]) where
  handles_eq := by rw [ha.handles_eq, h.handles_eq, History.handles_concat]
  handles_lt f hf := by
    rw [ha.handles_eq, List.mem_append, Option.mem_toList] at hf
    rcases hf with hf | hf
    · have hlt := h.handles_lt f hf
      rw [ha.size_eq]
      exact hlt.trans_le (Nat.le_add_right _ _)
    · exact hlt f hf
  size_eq := by rw [ha.size_eq, h.size_eq, History.frames_concat]
  parent?_eq f := by rw [ha.parent?_eq, h.parent?_eq, History.parent?_concat]
  names_eq f := by rw [ha.names_eq, h.names_eq, History.names_concat]
  names_nodup f := by
    rw [History.names_concat]
    cases hname : e.name? f with
    | none => simpa using h.names_nodup f
    | some name =>
      have hnew := hfree f name hname
      exact List.nodup_append.mpr ⟨h.names_nodup f, List.nodup_singleton name,
        fun a ha b hb hab => hnew (List.mem_singleton.mp hb ▸ hab ▸ ha)⟩
  own?_eq f name := by rw [ha.own?_eq, h.own?_eq, History.value?_concat]

/-- What the history prescribes keeps the invariant. -/
theorem next (hp : past.Prescribes op e) (hb : s.Becomes e t) :
    t.Replays (past ++ e.toList) := by
  have hnothing {f : FrameId} : ∀ name ∈ (none : Option String), name ∉ past.names f := by simp
  cases hb with
  | same => rwa [Option.toList_none, List.append_nil]
  | opened hopens =>
    refine h.after (after_opened hopens) (fun f hf => ?_) fun _ => hnothing
    cases hf
    rw [hopens.size_eq]
    exact Nat.lt_succ_self _
  | @shared f =>
    refine h.after (after_shared s f) (fun f' hf' => ?_) fun _ => hnothing
    cases hf'
    cases hp with
    | share hf =>
      rw [← h.frame?_eq] at hf
      exact h.lt_size_of_frame? hf
  | @defined f name v _ hadds =>
    cases hp with
    | define _ hfree =>
      have ha := after_defined hadds (by rwa [h.names_eq])
      refine h.after ha (fun f' hf' => nomatch hf') fun f' name' hname' => ?_
      rw [Effect.name?, Option.mem_def, Option.ite_none_right_eq_some] at hname'
      obtain ⟨rfl, heq⟩ := hname'
      cases heq
      exact hfree
  | changed hwrites =>
    exact h.after (after_changed hwrites) (fun f' hf' => nomatch hf') fun _ => hnothing

end Replays

/-! ## What stays -/

/-- What is fixed for good: where the handles lead, the parents of frames, and the names of frames
with their order. -/
structure Later (s t : Scopes α) : Prop where
  handles_isPrefix : s.handles <+: t.handles
  size_le : s.store.size ≤ t.store.size
  parent?_eq : ∀ f < s.store.size, t.store.parent? f = s.store.parent? f
  names_isPrefix : ∀ f, s.store.names f <+: t.store.names f

theorem Later.refl (s : Scopes α) : s.Later s where
  handles_isPrefix := List.prefix_rfl
  size_le := le_rfl
  parent?_eq _ _ := rfl
  names_isPrefix _ := List.prefix_rfl

theorem Later.trans (h : s.Later t) (h' : t.Later u) : s.Later u where
  handles_isPrefix := h.handles_isPrefix.trans h'.handles_isPrefix
  size_le := h.size_le.trans h'.size_le
  parent?_eq f hf := by rw [h'.parent?_eq f (hf.trans_le h.size_le), h.parent?_eq f hf]
  names_isPrefix f := (h.names_isPrefix f).trans (h'.names_isPrefix f)

/-- A handle leads to the same frame for good. -/
theorem Later.frame?_eq (h : s.Later t) {i : Handle} (hf : s.frame? i = some f) :
    t.frame? i = some f := by
  obtain ⟨more, hmore⟩ := h.handles_isPrefix
  obtain ⟨hi, -⟩ := List.getElem?_eq_some_iff.mp hf
  rw [frame?, ← hmore, List.getElem?_append_left hi]
  exact hf

theorem Becomes.later (hb : s.Becomes e t) : s.Later t := by
  cases hb with
  | same => exact .refl s
  | opened hopens =>
    exact
      { handles_isPrefix := List.prefix_append _ _
        size_le := hopens.size_eq ▸ Nat.le_succ _
        parent?_eq := fun f hf => hopens.parent?_eq f (Nat.ne_of_lt hf)
        names_isPrefix := fun f => (hopens.names_same f).symm ▸ List.prefix_rfl }
  | shared =>
    exact
      { handles_isPrefix := List.prefix_append _ _
        size_le := le_rfl
        parent?_eq := fun _ _ => rfl
        names_isPrefix := fun _ => List.prefix_rfl }
  | @defined f name v _ hadds =>
    refine
      { handles_isPrefix := List.prefix_rfl
        size_le := hadds.size_eq.ge
        parent?_eq := fun f' _ => hadds.parent?_eq f'
        names_isPrefix := fun f' => ?_ }
    by_cases hf : f' = f
    · rw [hf, hadds.names_added]
      exact List.prefix_append _ _
    · exact hadds.names_eq hf ▸ List.prefix_rfl
  | changed hwrites =>
    exact
      { handles_isPrefix := List.prefix_rfl
        size_le := hwrites.size_eq.ge
        parent?_eq := fun f' _ => hwrites.parent?_eq f'
        names_isPrefix := fun f' => (hwrites.names_eq f').symm ▸ List.prefix_rfl }

/-! ## Many operations -/

/-- Operations lead the history on as they lead the scopes on, and undo nothing that is fixed. -/
theorem Replays.performAll {answers : List Bool} (h : s.Replays past)
    (hrun : s.performAll ops = some (answers, t)) :
    ∃ past', past.Records ops answers past' ∧ t.Replays past' ∧ s.Later t := by
  induction ops generalizing s past answers with
  | nil =>
    cases hrun
    exact ⟨past, .nil, h, .refl _⟩
  | cons op ops ih =>
    obtain ⟨ok, s', rest, hop, hops, rfl⟩ := performAll_cons_eq_some hrun
    obtain ⟨e, hp, rfl, hb⟩ := h.perform hop
    obtain ⟨past', hrecords, ht, hlater⟩ := ih (h.next hp hb) hops
    exact ⟨past', .cons hp hrecords, ht, hb.later.trans hlater⟩

/-! ## The refinement -/

/-- Scopes with a given history form a tree of ordered maps, and whatever a program does next it
reads and changes these maps. -/
structure Refines (s : Scopes α) (past : History α) : Prop where
  /-- The names of a frame are those that were defined in it, in this order. -/
  names_eq : ∀ f, s.store.names f = past.names f
  /-- No name is defined twice in a frame. -/
  names_nodup : ∀ f, (past.names f).Nodup
  /-- A value was written for the names that a frame has, and for no others. -/
  value?_isSome : ∀ f name, (past.value? f name).isSome ↔ name ∈ past.names f
  /-- The handles lead to the frames for which they were given out. -/
  frame?_eq : ∀ i, s.frame? i = past.handles[i]?
  /-- A handle shows the map of its frame. -/
  entries_eq : ∀ i f, s.frame? i = some f → s.entries i = past.entries f
  /-- Reading the frame alone gives what was last written there. -/
  getOwn_eq : ∀ i f name, s.frame? i = some f → s.get i name true = past.value? f name
  /-- Reading through the chain gives what was last written in the nearest frame that has the name,
  and nothing if no frame of the chain has it. -/
  get_eq_some_iff : ∀ i f name v, s.frame? i = some f →
    (s.get i name false = some v ↔ ∃ g, past.Nearest name f g ∧ past.value? g name = some v)
  /-- The chains are those in which the frames were opened. -/
  parent?_eq : ∀ f, s.store.parent? f = past.parent? f
  /-- A parent is older. -/
  parent?_lt : ∀ f p, past.parent? f = some p → p < f
  /-- Every walk up a chain ends. -/
  walk_ends : ∀ walk : ℕ → FrameId, ∃ n, past.parent? (walk n) ≠ some (walk (n + 1))
  /-- Every operation through a handle that was given out has a result. -/
  perform_isSome : ∀ op, (s.perform op).isSome ↔ ∀ i ∈ op.handle?, i < s.handles.length
  /-- It does what the history prescribes and nothing else, and tells whether that is anything. -/
  perform : ∀ op ok t, s.perform op = some (ok, t) →
    ∃ e, past.Prescribes op e ∧ ok = e.isSome ∧ s.Becomes e t
  /-- Handles, parents and names stay, whatever is done next. -/
  later : ∀ ops answers t, s.performAll ops = some (answers, t) → s.Later t
  /-- Handles to the same frame show the same, whatever is done next and through which of them. -/
  alike : ∀ i j f, s.frame? i = some f → s.frame? j = some f →
    ∀ ops answers t, s.performAll ops = some (answers, t) →
      t.entries i = t.entries j ∧ ∀ name ownOnly, t.get i name ownOnly = t.get j name ownOnly

theorem Replays.refines (h : s.Replays past) : s.Refines past where
  names_eq := h.names_eq
  names_nodup := h.names_nodup
  value?_isSome _ _ := h.mem_names_iff.symm
  frame?_eq := h.frame?_eq
  entries_eq i f hf := by
    rw [entries, hf, ← h.bindings_eq]
    rfl
  getOwn_eq i f name hf := by
    rw [get, hf, ← h.own?_eq]
    rfl
  get_eq_some_iff i f name v hf := by
    rw [get, hf, ← h.lookup_eq_some_iff]
    rfl
  parent?_eq := h.parent?_eq
  parent?_lt f p hp := s.store.parent?_lt ((h.parent?_eq f).trans hp)
  walk_ends walk := by
    obtain ⟨n, hn⟩ := s.store.walk_ends walk
    exact ⟨n, h.parent?_eq (walk n) ▸ hn⟩
  perform_isSome _ := perform_isSome_iff
  perform _ _ _ := h.perform
  later _ _ _ hrun := by
    obtain ⟨past', -, -, hlater⟩ := h.performAll hrun
    exact hlater
  alike i j f hi hj ops answers t hrun := by
    obtain ⟨past', -, -, hlater⟩ := h.performAll hrun
    have hframe : t.frame? i = t.frame? j := by rw [hlater.frame?_eq hi, hlater.frame?_eq hj]
    refine ⟨?_, fun name ownOnly => ?_⟩
    · rw [entries, entries, hframe]
    · rw [get, get, hframe]

/-- Whatever was done with scopes since the beginning, they are the ordered maps of their history,
and they go on as such. -/
theorem refine_ordered_maps {answers : List Bool}
    (hrun : (empty : Scopes α).performAll ops = some (answers, s)) :
    ∃ past : History α, History.Records [] ops answers past ∧ s.Refines past := by
  obtain ⟨past, hrecords, hreplays, -⟩ := replays_empty.performAll hrun
  exact ⟨past, hrecords, hreplays.refines⟩

/-- A name is shadowed, written to through a child and through a shared handle, and looked for in
vain. -/
def shadowing : List (Operation Int) :=
  [.root, .define 0 "x" 1, .child 0, .set 1 "x" 5, .define 1 "x" 2, .share 1, .define 2 "x" 9,
    .setOwn 2 "x" 7, .set 1 "y" 0, .define 0 "y" 4, .setOwn 1 "y" 3, .set 2 "y" 6]

/-- Whether the operations of `shadowing` succeed. -/
def shadowingAnswers : List Bool :=
  [true, true, true, true, true, true, false, true, false, true, false, true]

theorem refine_ordered_maps_shadowing : ∃ s : Scopes Int,
    empty.performAll shadowing = some (shadowingAnswers, s) ∧
      s.entries 0 = [("x", 5), ("y", 6)] ∧ s.entries 1 = [("x", 7)] ∧
      s.get 2 "x" false = some 7 ∧ s.get 2 "y" false = some 6 ∧ s.get 2 "y" true = none ∧
      ∃ past : History Int, History.Records [] shadowing shadowingAnswers past ∧
        s.Refines past := by
  have hanswers : (empty.performAll shadowing).map (·.1) = some shadowingAnswers := by
    decide +kernel
  have hentries : (empty.performAll shadowing).map (fun r => (r.2.entries 0, r.2.entries 1)) =
      some ([("x", 5), ("y", 6)], [("x", 7)]) := by decide +kernel
  have hreads : (empty.performAll shadowing).map (fun r =>
      (r.2.get 2 "x" false, r.2.get 2 "y" false, r.2.get 2 "y" true)) =
      some (some 7, some 6, none) := by decide +kernel
  obtain ⟨⟨_, s⟩, hrun, rfl⟩ := Option.map_eq_some_iff.mp hanswers
  simp only [hrun, Option.map_some, Option.some.injEq, Prod.mk.injEq] at hentries hreads
  exact ⟨s, hrun, hentries.1, hentries.2, hreads.1, hreads.2.1, hreads.2.2,
    refine_ordered_maps hrun⟩

end Scopes

end ObjectLang
