import ObjectLang.Program.Basic
import ObjectLang.Value.Basic

/-!
# What a run reads and changes

A run works on a `World`: the store of frames, the table of functions made so far, the meters that
count steps and nested calls, and what was printed and logged. Frames, functions and meters are
named by number and are never removed, so a reference stays good for the whole run. A number that
was never given out reads as an empty frame, as a host function that does nothing, and as a meter
that allows nothing.

A function that a program defines is data: its parameters, its statements, the frame in which it
was defined and the meter that its calls are charged to, which is that of the run that defined it.
-/

namespace ObjectLang

/-- The number of a meter. -/
abbrev MeterId := Nat

/-- What a host lets a program do. -/
structure Limits where
  /-- How many statements and expressions may be evaluated. -/
  gas : Nat := 10000000
  /-- How many calls may be nested. -/
  depth : Nat := 256
deriving DecidableEq, Repr, Inhabited

/-- Counts what is charged against limits. -/
structure Meter where
  limits : Limits
  /-- How many statements and expressions were evaluated. -/
  gas : Nat := 0
  /-- How many calls are active. -/
  depth : Nat := 0
deriving DecidableEq, Repr, Inhabited

namespace Meter

def closed : Meter := { limits := ⟨0, 0⟩ }

/-- How many more calls may be nested. -/
def freeDepth (m : Meter) : Nat := m.limits.depth - m.depth

/-- How many more calls several meters together allow to be nested. -/
def freeDepthOf : List Meter → Nat
  | [] => 0
  | m :: rest => m.freeDepth + freeDepthOf rest

end Meter

/-- A function that the host supplies. -/
inductive HostFunction where
  /-- Records its argument and returns it. -/
  | log
  /-- Records the text of its argument. -/
  | print
  /-- Returns its arguments as a list. -/
  | list
  /-- Returns the whole numbers between two bounds, both included. -/
  | range
  /-- Takes no argument and does nothing. -/
  | nothing
  /-- Fails with the text of its argument. -/
  | fail
  /-- Returns the number of its arguments. -/
  | count
deriving DecidableEq, Repr, Inhabited

/-- A function that a program defines. -/
structure Closure where
  parameters : List String
  body : List Stmt
  /-- The frame in which the function was defined. -/
  captured : FrameId
  /-- The meter that calls are charged to. -/
  meter : MeterId
  /-- Whether the first argument is the receiver. -/
  isMethod : Bool

/-- The names that a call binds, in the order of its arguments. -/
def Closure.bindings (c : Closure) : List String :=
  if c.isMethod then thisName :: c.parameters else c.parameters

/-- What a call of a function does. -/
inductive Code where
  | host (f : HostFunction)
  | closure (c : Closure)

/-- A function. -/
structure Function where
  name : String
  code : Code

instance : Inhabited Function := ⟨⟨"", .host .nothing⟩⟩

/-- Everything that a run reads and changes. -/
structure World where
  store : Store Value := .empty
  functions : Array Function := #[]
  meters : Array Meter := #[]
  printed : Array String := #[]
  logged : Array Value := #[]
deriving Inhabited

namespace World

/-- The function with the given number. -/
def function (w : World) (id : FunctionId) : Function := w.functions.getD id default

/-- The meter with the given number. -/
def meter (w : World) (id : MeterId) : Meter := w.meters.getD id .closed

/-- Changes the meter with the given number. -/
def modifyMeter (w : World) (id : MeterId) (g : Meter → Meter) : World :=
  { w with meters := w.meters.modify id g }

/-- How many more calls all meters together allow to be nested. -/
def freeDepth (w : World) : Nat := Meter.freeDepthOf w.meters.toList

end World

end ObjectLang
