import ObjectLang.Scope.Store

/-!
# Programs that work with scopes

A program does not see the store. It holds *handles*: opening a frame gives out a handle to it, and a
handle can be shared, which gives out another handle to the same frame. Every operation goes through
a handle that was given out before. An operation that fails leaves everything as it was.
-/

namespace ObjectLang

/-- The frames made so far, and the frame that each handle leads to, in the order in which the
handles were given out. -/
structure Scopes (α : Type) where
  store : Store α
  handles : List FrameId

namespace Scopes

/-- The position of a handle among those given out. -/
abbrev Handle := Nat

/-- What a program can do with scopes. -/
inductive Operation (α : Type) where
  /-- Opens a frame without a parent. -/
  | root
  /-- Opens a frame inside another one. -/
  | child (h : Handle)
  /-- Gives out one more handle to a frame. -/
  | share (h : Handle)
  /-- Binds a name in the frame itself. -/
  | define (h : Handle) (name : String) (value : α)
  /-- Gives a name a new meaning where the frame sees it. -/
  | set (h : Handle) (name : String) (value : α)
  /-- Gives a name of the frame itself a new meaning. -/
  | setOwn (h : Handle) (name : String) (value : α)

variable {α : Type}

/-- The handle that an operation goes through. -/
def Operation.handle? : Operation α → Option Handle
  | .root => none
  | .child h | .share h | .define h _ _ | .set h _ _ | .setOwn h _ _ => some h

/-- Nothing was opened yet. -/
def empty : Scopes α := ⟨.empty, []⟩

/-- The frame that a handle leads to. -/
def frame? (s : Scopes α) (h : Handle) : Option FrameId := s.handles[h]?

/-! ## Reading -/

/-- What a name means to the holder of a handle: in the frame itself, or where the frame sees it. A
handle that was not given out shows nothing. -/
def get (s : Scopes α) (h : Handle) (name : String) (ownOnly : Bool) : Option α :=
  (s.frame? h).bind fun f => if ownOnly then s.store.own? f name else s.store.lookup f name

/-- The bindings of the frame that a handle leads to. -/
def entries (s : Scopes α) (h : Handle) : List (String × α) :=
  ((s.frame? h).map s.store.bindings).getD []

/-! ## Operations -/

/-- Opens a frame and gives out a handle to it. -/
def opened (s : Scopes α) (parent : Option FrameId) : Scopes α :=
  let (f, store) := s.store.newFrame parent
  ⟨store, s.handles ++ [f]⟩

/-- An attempt to change the frames: whether it succeeds, and the scopes afterwards. -/
def attempt (s : Scopes α) (store : Option (Store α)) : Bool × Scopes α :=
  (store.isSome, { s with store := store.getD s.store })

/-- Performs an operation: whether it succeeds, and the scopes afterwards. There is no result if the
handle was not given out. -/
def perform (s : Scopes α) : Operation α → Option (Bool × Scopes α)
  | .root => some (true, s.opened none)
  | .child h => (s.frame? h).map fun f => (true, s.opened (some f))
  | .share h => (s.frame? h).map fun f => (true, { s with handles := s.handles ++ [f] })
  | .define h name value => (s.frame? h).map fun f => s.attempt (s.store.define f name value)
  | .set h name value => (s.frame? h).map fun f => s.attempt (s.store.set f name value)
  | .setOwn h name value => (s.frame? h).map fun f => s.attempt (s.store.setOwn f name value)

/-- Performs operations one after another: which of them succeed, and the scopes afterwards. -/
def performAll : Scopes α → List (Operation α) → Option (List Bool × Scopes α)
  | s, [] => some ([], s)
  | s, op :: ops => do
    let (ok, t) ← s.perform op
    let (answers, u) ← t.performAll ops
    return (ok :: answers, u)

/-! ## What the operations do -/

variable {s t u : Scopes α} {op : Operation α} {ops : List (Operation α)}

/-- Every operation has a result whose handle was given out. -/
theorem perform_isSome_iff :
    (s.perform op).isSome ↔ ∀ h ∈ op.handle?, h < s.handles.length := by
  have hframe (h : Handle) : (s.frame? h).isSome ↔ h < s.handles.length := by
    rw [frame?, isSome_getElem?]
  cases op with
  | root => simp [perform, Operation.handle?]
  | child h | share h | define h _ _ | set h _ _ | setOwn h _ _ =>
    simp [perform, Operation.handle?, hframe]

theorem performAll_cons_eq_some {answers : List Bool}
    (h : s.performAll (op :: ops) = some (answers, u)) :
    ∃ ok t rest, s.perform op = some (ok, t) ∧ t.performAll ops = some (rest, u) ∧
      answers = ok :: rest := by
  rw [performAll] at h
  obtain ⟨⟨ok, t⟩, hop, h⟩ := Option.bind_eq_some_iff.mp h
  obtain ⟨⟨rest, u'⟩, hops, h⟩ := Option.bind_eq_some_iff.mp h
  cases h
  exact ⟨ok, t, rest, hop, hops, rfl⟩

end Scopes

end ObjectLang
