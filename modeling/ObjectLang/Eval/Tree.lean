import ObjectLang.Eval.Operator
import ObjectLang.Eval.Step

/-!
# Evaluating trees

Expressions are evaluated and statements are run as they stand; a program need not have been
checked. What a call does is a parameter of everything here, so evaluation follows the tree.

Every expression and every statement is charged one step before anything else happens. A block, an
iteration and the members of an object each get a frame of their own, and functions remember the
frame in which they were defined; the methods of an object remember the frame around it, so that
they reach members only through their receiver.

A return is not a failure. It is a way for a statement to complete, and ends the blocks and loops
around it up to the nearest call.
-/

namespace ObjectLang

/-- Where evaluation takes place: names are looked up from `frame`, steps are charged to `meter`. -/
structure Context where
  /-- The frame that new names go into. -/
  frame : FrameId
  /-- The meter that counts. -/
  meter : MeterId
deriving DecidableEq, Repr, Inhabited

/-- How a statement completes. -/
inductive Completion where
  /-- With a value; the next statement follows. -/
  | normal (value : Value)
  /-- With a return; the nearest call ends. -/
  | returned (value : Value)
deriving DecidableEq, Repr, Inhabited

namespace Eval

/-- What calls do: runs a function on its arguments. -/
abbrev Invoke := FunctionId → List Value → EvalM Value

/-- Makes a function out of a definition. It remembers the frame `captured`, and its calls are
charged to the meter of the context that defines it. -/
def newClosure (c : Context) (d : Definition) (captured : FrameId) (isMethod : Bool) :
    EvalM FunctionId :=
  let parameters := d.parameters.map (·.name)
  match firstRepeated? [] parameters with
  | some name => fail (.duplicateParameter name)
  | none => newFunction ⟨d.name, .closure ⟨parameters, d.body, captured, c.meter, isMethod⟩⟩

/-- Binds the methods of an object. They remember the frame around the object. -/
def objectMethods (c : Context) (members : FrameId) : List Definition → EvalM Unit
  | [] => return ()
  | d :: rest => do
    requireFree members d.name
    let id ← newClosure c d c.frame true
    define members d.name (.function id)
    objectMethods c members rest

/-- Runs `body` for each item in turn until it returns. -/
def forEach (body : Value → EvalM Completion) : List Value → EvalM Completion
  | [] => return .normal .nil
  | item :: rest => do
    match ← body item with
    | .normal _ => forEach body rest
    | .returned v => return .returned v

mutual

def expr (invoke : Invoke) (c : Context) (e : Expr) : EvalM Value := do
  tick c.meter
  match e with
  | .literal value => return value.value
  | .group inner => expr invoke c inner
  | .binary op left right =>
    let a ← expr invoke c left
    match ← result (op.decidedBy a) with
    | some v => return v
    | none =>
      let b ← expr invoke c right
      result (op.apply (← get).print a b)
  | .variable name => lookup c.frame name
  | .property receiver name =>
    let object ← expr invoke c receiver
    let members ← membersOf object
    member members name
  | .call name arguments =>
    let target ← lookup c.frame name
    let id ← callable name target
    let arguments ← exprs invoke c arguments
    invoke id arguments
  | .method receiver name arguments =>
    let object ← expr invoke c receiver
    let members ← membersOf object
    let target ← member members name
    let id ← callable name target
    let arguments ← exprs invoke c arguments
    invoke id (object :: arguments)
  | .object name fields methods =>
    let members ← newFrame c.frame
    objectFields invoke { c with frame := members } fields
    objectMethods c members methods
    return .object name members

def exprs (invoke : Invoke) (c : Context) : List Expr → EvalM (List Value)
  | [] => return []
  | e :: rest => do
    let v ← expr invoke c e
    return v :: (← exprs invoke c rest)

/-- Evaluates an optional expression; where there is none the value is empty. -/
def optionalExpr (invoke : Invoke) (c : Context) : Option Expr → EvalM Value
  | none => return .nil
  | some e => expr invoke c e

/-- Evaluates a declaration and binds its name, which has to be free from the start. -/
def declaration (invoke : Invoke) (c : Context) : Declaration → EvalM Value
  | ⟨name, _, value⟩ => do
    requireFree c.frame name
    let v ← optionalExpr invoke c value
    define c.frame name v
    return v

/-- Evaluates the fields of an object; the context's frame is the frame of members. -/
def objectFields (invoke : Invoke) (c : Context) : List Declaration → EvalM Unit
  | [] => return ()
  | d :: rest => do
    let _ ← declaration invoke c d
    objectFields invoke c rest

def stmt (invoke : Invoke) (c : Context) (s : Stmt) : EvalM Completion := do
  tick c.meter
  match s with
  | .declare d => return .normal (← declaration invoke c d)
  | .define d =>
    requireFree c.frame d.name
    let id ← newClosure c d c.frame false
    define c.frame d.name (.function id)
    return .normal (.function id)
  | .branch condition thenBody elseBody =>
    let v ← expr invoke c condition
    let holds ← result v.truth
    let frame ← newFrame c.frame
    if holds then stmts invoke { c with frame := frame } .nil thenBody
    else stmts invoke { c with frame := frame } .nil elseBody
  | .forEach name items body =>
    let v ← expr invoke c items
    let items ← itemsOf v
    forEach (fun item => do
      let frame ← newFrame c.frame
      define frame name item
      stmts invoke { c with frame := frame } .nil body) items
  | .ret value => return .returned (← optionalExpr invoke c value)
  | .expression value => return .normal (← expr invoke c value)
  | .assign target value =>
    match target with
    | .variable name =>
      let _ ← lookup c.frame name
      let v ← expr invoke c value
      let _ ← set c.frame name v
      return .normal v
    | .property receiver name =>
      let object ← expr invoke c receiver
      let members ← membersOf object
      let _ ← member members name
      let v ← expr invoke c value
      let _ ← setOwn members name v
      return .normal v
    | _ => fail .invalidAssignmentTarget

/-- Runs statements one after another until one returns. The value is that of the last one, and
`last` where there is none. -/
def stmts (invoke : Invoke) (c : Context) (last : Value) : List Stmt → EvalM Completion
  | [] => return .normal last
  | s :: rest => do
    match ← stmt invoke c s with
    | .normal v => stmts invoke c v rest
    | .returned v => return .returned v

end

end Eval

end ObjectLang
