import ObjectLang.Proofs.Scope.Operations

/-!
# The history of scopes

What a program sees of its scopes is determined by what its operations have done so far, one after
another: which frames were opened inside which, which names were defined in a frame, and what was
last written for a name. Such a history knows nothing of stores. Each frame is an ordered map in it,
the names in the order in which they were defined, each with the value that was last written.
-/

namespace ObjectLang.Scopes

/-- What an operation has done. -/
inductive Effect (α : Type) where
  /-- It opened the frame `f`. -/
  | opened (f : FrameId) (parent : Option FrameId)
  /-- It gave out one more handle to the frame `f`. -/
  | shared (f : FrameId)
  /-- It added a name to the frame `f`. -/
  | defined (f : FrameId) (name : String) (value : α)
  /-- It gave a name of the frame `f` a new meaning. -/
  | changed (f : FrameId) (name : String) (value : α)

variable {α : Type}

namespace Effect

/-- Whether a frame was opened. -/
def opens : Effect α → Bool
  | .opened _ _ => true
  | _ => false

/-- The frame to which a handle was given out. -/
def handle? : Effect α → Option FrameId
  | .opened f _ | .shared f => some f
  | _ => none

/-- The parent with which the frame `f` was opened. -/
def parent? (f : FrameId) : Effect α → Option FrameId
  | .opened f' parent => if f' = f then parent else none
  | _ => none

/-- The name that was added to the frame `f`. -/
def name? (f : FrameId) : Effect α → Option String
  | .defined f' name _ => if f' = f then some name else none
  | _ => none

/-- The value that was written for a name of the frame `f`. -/
def value? (f : FrameId) (name : String) : Effect α → Option α
  | .defined f' name' value | .changed f' name' value =>
    if f' = f ∧ name' = name then some value else none
  | _ => none

end Effect

/-- What the operations so far have done, oldest first. -/
abbrev History (α : Type) := List (Effect α)

namespace History

/-- How many frames were opened. -/
def frames (past : History α) : Nat := past.countP Effect.opens

/-- The frames to which handles were given out. -/
def handles (past : History α) : List FrameId := past.filterMap Effect.handle?

/-- The parent with which a frame was opened. -/
def parent? (past : History α) (f : FrameId) : Option FrameId := past.findSome? (·.parent? f)

/-- The names of a frame, in the order of their definitions. -/
def names (past : History α) (f : FrameId) : List String := past.filterMap (·.name? f)

/-- The value that was last written for a name of a frame. -/
def value? (past : History α) (f : FrameId) (name : String) : Option α :=
  (past.filterMap (·.value? f name)).getLast?

/-- A frame as an ordered map. -/
def entries (past : History α) (f : FrameId) : List (String × α) :=
  (past.names f).filterMap fun name => (past.value? f name).map (name, ·)

/-- Walking up from the frame `f`, the first frame that has the name is `g`. -/
inductive Nearest (past : History α) (name : String) : FrameId → FrameId → Prop where
  /-- The frame itself has the name. -/
  | here {f : FrameId} : name ∈ past.names f → Nearest past name f f
  /-- The frame does not have the name, so its parent is asked. -/
  | above {f p g : FrameId} : name ∉ past.names f → past.parent? f = some p →
      Nearest past name p g → Nearest past name f g

/-- What an operation has to do after a history, if anything. -/
inductive Prescribes (past : History α) : Operation α → Option (Effect α) → Prop where
  | root : Prescribes past .root (some (.opened past.frames none))
  | child {h : Handle} {f : FrameId} : past.handles[h]? = some f →
      Prescribes past (.child h) (some (.opened past.frames (some f)))
  | share {h : Handle} {f : FrameId} : past.handles[h]? = some f →
      Prescribes past (.share h) (some (.shared f))
  /-- A name that the frame does not have is added. -/
  | define {h : Handle} {f : FrameId} {name : String} {value : α} : past.handles[h]? = some f →
      name ∉ past.names f → Prescribes past (.define h name value) (some (.defined f name value))
  /-- A name that the frame has is not defined again. -/
  | redefine {h : Handle} {f : FrameId} {name : String} {value : α} : past.handles[h]? = some f →
      name ∈ past.names f → Prescribes past (.define h name value) none
  /-- The nearest frame that has the name is written to. -/
  | set {h : Handle} {f g : FrameId} {name : String} {value : α} : past.handles[h]? = some f →
      past.Nearest name f g → Prescribes past (.set h name value) (some (.changed g name value))
  /-- No frame of the chain has the name. -/
  | setMissing {h : Handle} {f : FrameId} {name : String} {value : α} :
      past.handles[h]? = some f → (∀ g, ¬ past.Nearest name f g) →
      Prescribes past (.set h name value) none
  /-- The frame itself is written to, and no frame around it. -/
  | setOwn {h : Handle} {f : FrameId} {name : String} {value : α} : past.handles[h]? = some f →
      name ∈ past.names f → Prescribes past (.setOwn h name value) (some (.changed f name value))
  /-- The frame itself does not have the name, whatever the frames around it have. -/
  | setOwnMissing {h : Handle} {f : FrameId} {name : String} {value : α} :
      past.handles[h]? = some f → name ∉ past.names f →
      Prescribes past (.setOwn h name value) none

/-- Operations with the given answers lead from the history `past` to a longer one. -/
inductive Records : History α → List (Operation α) → List Bool → History α → Prop where
  | nil {past : History α} : Records past [] [] past
  | cons {past past' : History α} {op : Operation α} {e : Option (Effect α)}
      {ops : List (Operation α)} {answers : List Bool} : past.Prescribes op e →
      Records (past ++ e.toList) ops answers past' →
      Records past (op :: ops) (e.isSome :: answers) past'

/-! ## One effect more -/

variable (past : History α) (e : Effect α) (f : FrameId) (name : String)

theorem frames_concat : frames (past ++ [e]) = past.frames + if e.opens then 1 else 0 := by
  rw [frames, frames, List.countP_append, List.countP_singleton]

theorem handles_concat : handles (past ++ [e]) = past.handles ++ e.handle?.toList := by
  rw [handles, handles, List.filterMap_append]
  cases h : e.handle? <;> simp [h]

theorem parent?_concat : parent? (past ++ [e]) f = (past.parent? f).or (e.parent? f) := by
  rw [parent?, parent?, List.findSome?_append]
  simp

theorem names_concat : names (past ++ [e]) f = past.names f ++ (e.name? f).toList := by
  rw [names, names, List.filterMap_append]
  cases h : e.name? f <;> simp [h]

theorem value?_concat : value? (past ++ [e]) f name = (e.value? f name).or (past.value? f name) := by
  rw [value?, value?, List.filterMap_append, List.getLast?_append]
  cases h : e.value? f name <;> simp [h]

end History

end ObjectLang.Scopes
