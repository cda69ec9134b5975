import ObjectLang.Eval.Error
import ObjectLang.Eval.Text

/-!
# Steps of a run

Everything that evaluation does to the world is one of the steps below. A step that fails leaves the
world as it found it, except that a step over the gas limit is still counted.
-/

namespace ObjectLang

/-- A run: reads and changes the world, and may stop early. What was changed before the stop stays
changed. -/
abbrev EvalM := EStateM Stop World

namespace Eval

def fail {α : Type} (e : EvalError) : EvalM α := throw (.error e)

def result {α : Type} : Except EvalError α → EvalM α
  | .ok a => pure a
  | .error e => fail e

/-! ## Meters -/

/-- Charges one step to a meter. -/
def tick (m : MeterId) : EvalM Unit := do
  modify (·.modifyMeter m fun meter => { meter with gas := meter.gas + 1 })
  let meter := (← get).meter m
  if meter.limits.gas < meter.gas then fail (.gasExhausted meter.limits.gas) else return ()

/-- Runs the body of a call, which counts as active until it ends in whatever way. -/
def withCall {α : Type} (m : MeterId) (body : EvalM α) : EvalM α := fun w =>
  let meter := w.meter m
  if meter.limits.depth ≤ meter.depth then fail (.callDepthExceeded meter.limits.depth) w
  else
    let leave (w : World) := w.modifyMeter m fun meter => { meter with depth := meter.depth - 1 }
    match body (w.modifyMeter m fun meter => { meter with depth := meter.depth + 1 }) with
    | .ok a w => .ok a (leave w)
    | .error e w => .error e (leave w)

/-! ## Names -/

/-- The value of a name, which has to be in scope. -/
def lookup (f : FrameId) (name : String) : EvalM Value := do
  match (← get).store.lookup f name with
  | some v => return v
  | none => fail (.undefinedName name)

/-- The value of a member, which has to be in the frame of members itself. -/
def member (members : FrameId) (name : String) : EvalM Value := do
  match (← get).store.own? members name with
  | some v => return v
  | none => fail (.undefinedMember name)

def newFrame (parent : FrameId) : EvalM FrameId :=
  modifyGet fun w =>
    let (f, store) := w.store.newFrame (some parent)
    (f, { w with store := store })

/-- Succeeds if the frame itself does not define the name. -/
def requireFree (f : FrameId) (name : String) : EvalM Unit := do
  if (← get).store.defines f name then fail (.alreadyDefined name) else return ()

/-- Binds a name in a frame that does not define it yet. -/
def define (f : FrameId) (name : String) (v : Value) : EvalM Unit := do
  requireFree f name
  modify fun w => { w with store := w.store.append f name v }

/-- Binds names to values, one by one. -/
def defineAll (f : FrameId) : List (String × Value) → EvalM Unit
  | [] => return ()
  | (name, v) :: rest => do
    define f name v
    defineAll f rest

/-- Gives a name of the frame itself a new value, if the frame defines it; says whether it does. -/
def setOwn (f : FrameId) (name : String) (v : Value) : EvalM Bool := do
  if (← get).store.defines f name then
    modify fun w => { w with store := w.store.replace f name v }
    return true
  else return false

/-- Gives a name a new value in the nearest frame that defines it; says whether there is one. -/
def set (f : FrameId) (name : String) (v : Value) : EvalM Bool := do
  match (← get).store.owner? f name with
  | some g =>
    modify fun w => { w with store := w.store.replace g name v }
    return true
  | none => return false

/-! ## Functions and effects -/

/-- Enters a function into the table. -/
def newFunction (function : Function) : EvalM FunctionId :=
  modifyGet fun w => (w.functions.size, { w with functions := w.functions.push function })

def recordPrinted (text : String) : EvalM Unit :=
  modify fun w => { w with printed := w.printed.push text }

def recordLogged (v : Value) : EvalM Unit :=
  modify fun w => { w with logged := w.logged.push v }

/-! ## Values of a kind -/

/-- The frame of members of an object. -/
def membersOf : Value → EvalM FrameId
  | .object _ members => return members
  | v => fail (.notAnObject v.kind)

/-- The function that is called `name`. -/
def callable (name : String) : Value → EvalM FunctionId
  | .function id => return id
  | v => fail (.notCallable name v.kind)

def itemsOf : Value → EvalM (List Value)
  | .list items => return items
  | v => fail (.typeMismatch .list v.kind)

end Eval

end ObjectLang
