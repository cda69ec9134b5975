import ObjectLang.Proofs.Eval.Printing

/-!
# Rendering a graph of objects

Objects refer to each other through their members, and the members may be changed, so the values
that a printer walks through form a graph with any kind of sharing and cycles. Two accounts of the
text of a value are given here, neither of which has a bound.

`World.Renders` is the recursive account. The path from the root to a value is the list of frames of
the objects around it, the innermost first, and a predicate on paths says where an object is cut
short. `World.Prints` is the account of a printer that keeps one stack of open objects, on which it
puts an object before its members and from which it takes the uppermost one after them.

The stack of the printer is the path, so the two agree for the objects that are `OnPath`. Both end
for every value: each object that is shown uses up a frame, and between two objects the values get
smaller.
-/

namespace ObjectLang.World

section

variable (w : World) (Cut : List FrameId → FrameId → Prop)

mutual

/-- The text of a value below the path, if objects are cut where `Cut` says so. -/
inductive Renders : List FrameId → Value → String → Prop where
  | leaf {path : List FrameId} {v : Value} {text : String} :
      w.leafText? v = some text → Renders path v text
  | list {path : List FrameId} {items : List Value} {texts : List String} :
      RendersAll path items texts → Renders path (.list items) (listText texts)
  | cut {path : List FrameId} {name : Option String} {members : FrameId} :
      Cut path members → Renders path (.object name members) (placeholder name)
  | shown {path : List FrameId} {name : Option String} {members : FrameId} {texts : List String} :
      ¬ Cut path members → RendersAll (members :: path) (w.memberValues members) texts →
      Renders path (.object name members) (shownObject name (w.store.names members) texts)

/-- The texts of values below the same path. -/
inductive RendersAll : List FrameId → List Value → List String → Prop where
  | nil {path : List FrameId} : RendersAll path [] []
  | cons {path : List FrameId} {v : Value} {rest : List Value} {text : String}
      {texts : List String} :
      Renders path v text → RendersAll path rest texts → RendersAll path (v :: rest) (text :: texts)

end

mutual

/-- The text of a value, printed with a stack of open objects, and the stack that is left. -/
inductive Prints : List FrameId → Value → String → List FrameId → Prop where
  | leaf {stack : List FrameId} {v : Value} {text : String} :
      w.leafText? v = some text → Prints stack v text stack
  | list {stack stack' : List FrameId} {items : List Value} {texts : List String} :
      PrintsAll stack items texts stack' → Prints stack (.list items) (listText texts) stack'
  | again {stack : List FrameId} {name : Option String} {members : FrameId} :
      members ∈ stack → Prints stack (.object name members) (placeholder name) stack
  | object {stack stack' : List FrameId} {name : Option String} {members : FrameId}
      {texts : List String} :
      members ∉ stack → PrintsAll (members :: stack) (w.memberValues members) texts stack' →
      Prints stack (.object name members) (shownObject name (w.store.names members) texts)
        stack'.tail

/-- The texts of values, printed one after another. -/
inductive PrintsAll : List FrameId → List Value → List String → List FrameId → Prop where
  | nil {stack : List FrameId} : PrintsAll stack [] [] stack
  | cons {stack stack' stack'' : List FrameId} {v : Value} {rest : List Value} {text : String}
      {texts : List String} :
      Prints stack v text stack' → PrintsAll stack' rest texts stack'' →
      PrintsAll stack (v :: rest) (text :: texts) stack''

end

end

/-- The object with this frame is on the path. -/
def OnPath (path : List FrameId) (f : FrameId) : Prop := f ∈ path

/-- No object is cut. -/
def Never (_ : List FrameId) (_ : FrameId) : Prop := False

variable {w : World}

/-! ## The stack is the path -/

mutual

theorem Renders.prints : ∀ {path : List FrameId} {v : Value} {text : String},
    w.Renders OnPath path v text → w.Prints path v text path
  | _, _, _, .leaf h => .leaf h
  | _, _, _, .list h => .list (RendersAll.printsAll h)
  | _, _, _, .cut h => .again h
  | _, _, _, .shown h hmembers => .object h (RendersAll.printsAll hmembers)

theorem RendersAll.printsAll : ∀ {path : List FrameId} {items : List Value} {texts : List String},
    w.RendersAll OnPath path items texts → w.PrintsAll path items texts path
  | _, _, _, .nil => .nil
  | _, _, _, .cons h hrest => .cons (Renders.prints h) (RendersAll.printsAll hrest)

end

mutual

/-- The printer leaves the stack as it was, and renders the value below it. -/
theorem Prints.renders : ∀ {stack stack' : List FrameId} {v : Value} {text : String},
    w.Prints stack v text stack' → stack' = stack ∧ w.Renders OnPath stack v text
  | _, _, _, _, .leaf h => ⟨rfl, .leaf h⟩
  | _, _, _, _, .list h => ⟨(PrintsAll.rendersAll h).1, .list (PrintsAll.rendersAll h).2⟩
  | _, _, _, _, .again h => ⟨rfl, .cut h⟩
  | _, _, _, _, .object h hmembers => by
    obtain ⟨rfl, hshown⟩ := PrintsAll.rendersAll hmembers
    exact ⟨rfl, .shown h hshown⟩

theorem PrintsAll.rendersAll :
    ∀ {stack stack' : List FrameId} {items : List Value} {texts : List String},
      w.PrintsAll stack items texts stack' →
        stack' = stack ∧ w.RendersAll OnPath stack items texts
  | _, _, _, _, .nil => ⟨rfl, .nil⟩
  | _, _, _, _, .cons h hrest => by
    obtain ⟨rfl, hfirst⟩ := Prints.renders h
    obtain ⟨rfl, hothers⟩ := PrintsAll.rendersAll hrest
    exact ⟨rfl, .cons hfirst hothers⟩

end

theorem prints_iff {stack stack' : List FrameId} {v : Value} {text : String} :
    w.Prints stack v text stack' ↔ stack' = stack ∧ w.Renders OnPath stack v text := by
  constructor
  · exact Prints.renders
  · rintro ⟨rfl, h⟩
    exact h.prints

/-! ## Every value has one rendering -/

mutual

theorem Renders.eq_textIn : ∀ {path : List FrameId} {v : Value} {text : String},
    w.Renders OnPath path v text → text = w.textIn path v
  | _, _, _, .leaf h => (textIn_leaf h).symm
  | _, _, _, .list h => by rw [textIn_list, RendersAll.eq_map h]
  | _, _, _, .cut h => (textIn_object_open h).symm
  | _, _, _, .shown h hmembers => by rw [textIn_object h, RendersAll.eq_map hmembers]

theorem RendersAll.eq_map : ∀ {path : List FrameId} {items : List Value} {texts : List String},
    w.RendersAll OnPath path items texts → texts = items.map (w.textIn path)
  | _, _, _, .nil => rfl
  | _, _, _, .cons h hrest => by
    rw [List.map_cons, Renders.eq_textIn h, RendersAll.eq_map hrest]

end

mutual

/-- Rendering ends. The members of an object have fewer frames left than the object, and items are
smaller than their list. -/
theorem renders_textIn (w : World) (path : List FrameId) :
    (v : Value) → w.Renders OnPath path v (w.textIn path v)
  | .nil | .boolean _ | .integer _ | .decimal _ | .string _ | .function _ => .leaf rfl
  | .list items => by
    rw [textIn_list]
    exact .list (rendersAll_map w path items)
  | .object name members => by
    by_cases hopen : members ∈ path
    · rw [textIn_object_open hopen]
      exact .cut hopen
    · rw [textIn_object hopen]
      refine .shown hopen ?_
      by_cases hsize : members < w.store.size
      · have hless := unopened_cons_lt hsize hopen
        exact rendersAll_map w (members :: path) (w.memberValues members)
      · -- an object without a frame has no members
        rw [memberValues, w.store.bindings_of_size_le (Nat.le_of_not_lt hsize)]
        exact .nil
termination_by v => (w.unopened path, sizeOf v)

theorem rendersAll_map (w : World) (path : List FrameId) :
    (items : List Value) → w.RendersAll OnPath path items (items.map (w.textIn path))
  | [] => .nil
  | v :: rest => .cons (renders_textIn w path v) (rendersAll_map w path rest)
termination_by items => (w.unopened path, sizeOf items)

end

theorem renders_iff {path : List FrameId} {v : Value} {text : String} :
    w.Renders OnPath path v text ↔ text = w.textIn path v := by
  constructor
  · exact Renders.eq_textIn
  · rintro rfl
    exact renders_textIn w path v

end ObjectLang.World
