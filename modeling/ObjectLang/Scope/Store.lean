/-!
# Scopes

Names live in *frames*. A frame holds an ordered list of bindings with distinct names and may have
a parent; the frames from a frame up to the root are its *chain*, and a name means what the
nearest frame of the chain that binds it says. Frames outlive the block that opened them, because
functions and objects hold on to them, so all frames of a program are kept in one `Store` and are
named by number. The number of a frame is its identity.

The store grows only at its end, and the parent of a frame is fixed when the frame is made. A
parent is therefore always older than its child, and every walk up a chain ends.

The bindings of a frame are read through `Store.bindings`, and every operation below has a lemma
that says what it does to them.
-/

namespace ObjectLang

/-- The number of a frame in its store. -/
abbrev FrameId := Nat

/-- One level of a chain of scopes. -/
structure Frame (α : Type) where
  /-- The next frame of the chain. -/
  parent : Option FrameId
  /-- The names that the frame defines, in the order of their definitions. -/
  bindings : List (String × α)
deriving Inhabited

/-- All frames made so far. -/
@[ext] structure Store (α : Type) where
  /-- The frames, oldest first. -/
  frames : Array (Frame α)
  /-- A parent is older than its child. -/
  older : ∀ (f : Nat) (frame : Frame α), frames[f]? = some frame →
    ∀ p : Nat, frame.parent = some p → p < f

namespace Store

variable {α : Type}

/-- No frames. -/
def empty : Store α := ⟨#[], by simp⟩

instance : Inhabited (Store α) := ⟨empty⟩

/-- How many frames there are. -/
def size (s : Store α) : Nat := s.frames.size

/-- The parent of a frame. -/
def parent? (s : Store α) (f : FrameId) : Option FrameId := s.frames[f]?.bind (·.parent)

/-- The bindings of a frame, oldest first; a frame that does not exist has none. -/
def bindings (s : Store α) (f : FrameId) : List (String × α) :=
  (s.frames[f]?.map (·.bindings)).getD []

/-- The names that a frame defines, oldest first. -/
def names (s : Store α) (f : FrameId) : List String := (s.bindings f).map (·.1)

theorem parent?_lt (s : Store α) {f p : Nat} (h : s.parent? f = some p) : p < f := by
  obtain ⟨frame, hf, hp⟩ := Option.bind_eq_some_iff.mp h
  exact s.older f frame hf p hp

/-! ## Reading -/

/-- What a frame itself says about a name. -/
def own? (s : Store α) (f : FrameId) (name : String) : Option α := (s.bindings f).lookup name

/-- Whether a frame itself defines a name. -/
def defines (s : Store α) (f : FrameId) (name : String) : Bool := (s.own? f name).isSome

/-- The frames from `f` up to the root. -/
def chain (s : Store α) (f : FrameId) : List FrameId :=
  match _h : s.parent? f with
  | none => [f]
  | some p => f :: s.chain p
termination_by f
decreasing_by exact s.parent?_lt _h

/-- The nearest frame of the chain that defines a name. -/
def owner? (s : Store α) (f : FrameId) (name : String) : Option FrameId :=
  (s.chain f).find? (s.defines · name)

/-- What a name means in a frame: the nearest frame of the chain that defines it decides. -/
def lookup (s : Store α) (f : FrameId) (name : String) : Option α :=
  (s.chain f).findSome? (s.own? · name)

/-! ## Writing -/

/-- Opens a frame. A parent has to exist; one that does not is left out. -/
def newFrame (s : Store α) (parent : Option FrameId) : FrameId × Store α :=
  (s.size, {
    frames := s.frames.push ⟨parent.filter (· < s.size), []⟩
    older := by
      intro f frame hf p hp
      rw [Array.getElem?_push] at hf
      split at hf
      · next hnew =>
        simp only [Option.some.injEq] at hf
        subst hf
        exact hnew ▸ of_decide_eq_true (Option.filter_eq_some_iff.mp hp).2
      · exact s.older f frame hf p hp })

/-- Changes the bindings of one frame. -/
def modify (s : Store α) (f : FrameId) (g : List (String × α) → List (String × α)) : Store α where
  frames := s.frames.modify f fun frame => { frame with bindings := g frame.bindings }
  older := by
    intro f' frame hf p hp
    rw [Array.getElem?_modify] at hf
    split at hf
    · obtain ⟨old, hold, rfl⟩ := Option.map_eq_some_iff.mp hf
      exact s.older f' old hold p hp
    · exact s.older f' frame hf p hp

/-- Adds a binding at the end of a frame. -/
def append (s : Store α) (f : FrameId) (name : String) (value : α) : Store α :=
  s.modify f (· ++ [(name, value)])

/-- Adds a binding at the end of a frame that does not define the name yet. -/
def define (s : Store α) (f : FrameId) (name : String) (value : α) : Option (Store α) :=
  if s.defines f name then none else some (s.append f name value)

/-- Bindings in which `name` means `value` wherever it was bound. -/
def rebind (name : String) (value : α) (bindings : List (String × α)) : List (String × α) :=
  bindings.map fun b => if b.1 = name then (name, value) else b

/-- Gives a name of the frame itself a new meaning. -/
def replace (s : Store α) (f : FrameId) (name : String) (value : α) : Store α :=
  s.modify f (rebind name value)

/-- Gives a name of the frame itself a new meaning, if the frame defines it. -/
def setOwn (s : Store α) (f : FrameId) (name : String) (value : α) : Option (Store α) :=
  if s.defines f name then some (s.replace f name value) else none

/-- Gives a name a new meaning in the nearest frame of the chain that defines it, if there is one.
-/
def set (s : Store α) (f : FrameId) (name : String) (value : α) : Option (Store α) :=
  (s.owner? f name).map fun g => s.replace g name value

/-! ## What the operations do -/

@[simp] theorem size_empty : (empty : Store α).size = 0 := rfl

@[simp] theorem size_newFrame (s : Store α) (parent : Option FrameId) :
    (s.newFrame parent).2.size = s.size + 1 := by
  simp [newFrame, size]

@[simp] theorem newFrame_fst (s : Store α) (parent : Option FrameId) :
    (s.newFrame parent).1 = s.size := rfl

@[simp] theorem size_modify (s : Store α) (f : FrameId)
    (g : List (String × α) → List (String × α)) : (s.modify f g).size = s.size := by
  simp [modify, size]

@[simp] theorem parent?_modify (s : Store α) (f f' : FrameId)
    (g : List (String × α) → List (String × α)) : (s.modify f g).parent? f' = s.parent? f' := by
  simp only [parent?, modify, Array.getElem?_modify]
  split
  · cases s.frames[f']? <;> rfl
  · rfl

theorem bindings_of_size_le (s : Store α) {f : Nat} (h : s.size ≤ f) : s.bindings f = [] := by
  simp only [size] at h
  simp [bindings, Array.getElem?_eq_none h]

/-- A changed frame has the changed bindings, every other frame keeps its own. -/
theorem bindings_modify (s : Store α) (f f' : FrameId) (g : List (String × α) → List (String × α)) :
    (s.modify f g).bindings f' =
      if f = f' ∧ f < s.size then g (s.bindings f') else s.bindings f' := by
  simp only [bindings, modify, Array.getElem?_modify, size]
  by_cases hf : f = f'
  · subst hf
    by_cases hs : f < s.frames.size
    · simp [hs]
    · simp [hs]
  · simp [hf]

/-- A new frame is empty, every other frame keeps its bindings. -/
@[simp] theorem bindings_newFrame (s : Store α) (parent : Option FrameId) (f : FrameId) :
    (s.newFrame parent).2.bindings f = s.bindings f := by
  simp only [bindings, newFrame, Array.getElem?_push, size]
  split
  · next h => subst h; simp
  · rfl

/-- Opening a frame changes no other frame's parent. -/
theorem parent?_newFrame (s : Store α) (parent : Option FrameId) (f : FrameId) :
    (s.newFrame parent).2.parent? f =
      if f = s.size then parent.filter (· < s.size) else s.parent? f := by
  simp only [parent?, newFrame, Array.getElem?_push, size]
  by_cases h : f = s.frames.size <;> simp [h]

theorem names_rebind (name : String) (value : α) (bindings : List (String × α)) :
    (rebind name value bindings).map (·.1) = bindings.map (·.1) := by
  induction bindings with
  | nil => rfl
  | cons b rest ih =>
    simp only [rebind, List.map_cons, List.cons.injEq] at ih ⊢
    refine ⟨?_, ih⟩
    split
    · next h => exact h.symm
    · rfl

/-- Giving a name a new meaning adds, removes and moves no name. -/
@[simp] theorem names_replace (s : Store α) (f f' : FrameId) (name : String) (value : α) :
    (s.replace f name value).names f' = s.names f' := by
  simp only [names, replace, bindings_modify]
  split
  · exact names_rebind name value _
  · rfl

@[simp] theorem size_append (s : Store α) (f : FrameId) (name : String) (value : α) :
    (s.append f name value).size = s.size := size_modify s f _

@[simp] theorem parent?_append (s : Store α) (f f' : FrameId) (name : String) (value : α) :
    (s.append f name value).parent? f' = s.parent? f' := parent?_modify s f f' _

/-- Only the frame itself gets the binding, after those it has. -/
theorem bindings_append (s : Store α) (f f' : FrameId) (name : String) (value : α) :
    (s.append f name value).bindings f' =
      if f = f' ∧ f < s.size then s.bindings f' ++ [(name, value)] else s.bindings f' :=
  bindings_modify s f f' _

@[simp] theorem size_replace (s : Store α) (f : FrameId) (name : String) (value : α) :
    (s.replace f name value).size = s.size := size_modify s f _

@[simp] theorem parent?_replace (s : Store α) (f f' : FrameId) (name : String) (value : α) :
    (s.replace f name value).parent? f' = s.parent? f' := parent?_modify s f f' _

/-- Only the frame itself changes what the name means. -/
theorem bindings_replace (s : Store α) (f f' : FrameId) (name : String) (value : α) :
    (s.replace f name value).bindings f' =
      if f = f' ∧ f < s.size then rebind name value (s.bindings f') else s.bindings f' :=
  bindings_modify s f f' _

/-- A successful definition adds the binding to a frame that did not define the name. -/
theorem define_eq_some_iff (s t : Store α) (f : FrameId) (name : String) (value : α) :
    s.define f name value = some t ↔ s.defines f name = false ∧ t = s.append f name value := by
  simp only [define]
  split
  · next h => simp [h]
  · next h => simp [h, eq_comm]

/-- A frame's chain starts with the frame. -/
theorem chain_eq (s : Store α) (f : FrameId) :
    s.chain f = f :: (s.parent? f).elim [] s.chain := by
  rw [chain]
  split <;> simp [*]

/-- What a name means is what its owner says. -/
theorem lookup_eq (s : Store α) (f : FrameId) (name : String) :
    s.lookup f name = (s.owner? f name).bind (s.own? · name) := by
  simp only [lookup, owner?]
  induction s.chain f with
  | nil => rfl
  | cons g rest ih =>
    simp only [List.findSome?_cons, List.find?_cons]
    cases h : s.own? g name <;> simp [defines, h, ih]

end Store

end ObjectLang
