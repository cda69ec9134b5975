import ObjectLang.Proofs.Scope.Owners

/-!
# Stores with one binding more

Two stores that differ by one binding in one frame tell the same about all other names, and they go
on to differ by that binding when both are extended or changed in the same way. -/

namespace ObjectLang

/-- The store `t` is `s` with one binding more: the frame `g` of `t` also binds `name` to `a`. -/
structure Store.Surplus {α : Type} (g : FrameId) (name : String) (a : α) (s t : Store α) : Prop
    where
  size_eq : t.size = s.size
  parent_eq : ∀ f, t.parent? f = s.parent? f
  others : ∀ f, f ≠ g → t.bindings f = s.bindings f
  extra : ∃ before after,
    s.bindings g = before ++ after ∧ t.bindings g = before ++ (name, a) :: after
  free : name ∉ s.names g

namespace Store.Surplus

variable {α : Type} {g : FrameId} {name : String} {a : α} {s t : Store α}

/-- A name may be bound that the frame does not bind yet. -/
theorem append_right (hg : g < s.size) (hfree : name ∉ s.names g) (a : α) :
    Surplus g name a s (s.append g name a) := by
  refine ⟨by simp, fun f => by simp, fun f hf => ?_, ⟨s.bindings g, [], by simp, ?_⟩, hfree⟩
  · rw [bindings_append, if_neg fun h => hf h.1.symm]
  · rw [bindings_append, if_pos ⟨rfl, hg⟩]

variable (h : Surplus g name a s t)
include h

/-! ## Other names -/

section

variable {other : String} (hother : other ≠ name) (f : FrameId)
include hother

theorem own?_eq : t.own? f other = s.own? f other := by
  rw [own?, own?]
  by_cases hf : f = g
  · obtain ⟨before, after, hs, ht⟩ := h.extra
    have hskip : (other == name) = false := beq_false_of_ne hother
    rw [hf, hs, ht, List.lookup_append, List.lookup_append, List.lookup_cons, hskip]
  · rw [h.others f hf]

theorem defines_eq : t.defines f other = s.defines f other := by
  rw [defines, defines, h.own?_eq hother]

theorem owner?_eq : t.owner? f other = s.owner? f other := by
  rw [owner?, owner?, chain_congr h.parent_eq]
  exact congrArg (List.find? · _) (funext fun f' => h.defines_eq hother f')

theorem lookup_eq : t.lookup f other = s.lookup f other := by
  rw [lookup, lookup, chain_congr h.parent_eq]
  exact congrArg (List.findSome? · _) (funext fun f' => h.own?_eq hother f')

end

/-! ## The same changes -/

theorem newFrame (p : Option FrameId) : Surplus g name a (s.newFrame p).2 (t.newFrame p).2 := by
  refine ⟨by simp [h.size_eq], fun f => ?_, fun f hf => ?_, ?_, ?_⟩
  · rw [parent?_newFrame, parent?_newFrame, h.size_eq, h.parent_eq]
  · rw [bindings_newFrame, bindings_newFrame, h.others f hf]
  · rw [bindings_newFrame, bindings_newFrame]
    exact h.extra
  · rw [names, bindings_newFrame]
    exact h.free

/-- A change of bindings that works around the one that is more, and does not bind its name. -/
theorem modify (f : FrameId) {change : List (String × α) → List (String × α)}
    (hsplit : ∀ before after, ∃ before' after', change (before ++ after) = before' ++ after' ∧
      change (before ++ (name, a) :: after) = before' ++ (name, a) :: after')
    (hfree : ∀ l : List (String × α), name ∉ l.map (·.1) → name ∉ (change l).map (·.1)) :
    Surplus g name a (s.modify f change) (t.modify f change) := by
  obtain ⟨before, after, hs, ht⟩ := h.extra
  refine ⟨by simp [h.size_eq], fun f' => ?_, fun f' hf' => ?_, ?_, ?_⟩
  · rw [parent?_modify, parent?_modify, h.parent_eq]
  · rw [bindings_modify, bindings_modify, h.size_eq, h.others f' hf']
  · rw [bindings_modify, bindings_modify, h.size_eq, hs, ht]
    split
    · exact hsplit before after
    · exact ⟨before, after, rfl, rfl⟩
  · rw [names, bindings_modify]
    split
    · exact hfree _ h.free
    · exact h.free

theorem append (f : FrameId) {other : String} (hother : other ≠ name) (v : α) :
    Surplus g name a (s.append f other v) (t.append f other v) :=
  h.modify f (fun before after => ⟨before, after ++ [(other, v)], by simp, by simp⟩)
    fun l hl => by simpa [hother.symm] using hl

theorem replace (f : FrameId) {other : String} (hother : other ≠ name) (v : α) :
    Surplus g name a (s.replace f other v) (t.replace f other v) :=
  h.modify f (fun before after => ⟨rebind other v before, rebind other v after,
      by simp [rebind], by simp [rebind, hother.symm]⟩)
    fun l hl => by rwa [names_rebind]

end Store.Surplus

end ObjectLang
