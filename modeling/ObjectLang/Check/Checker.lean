import ObjectLang.Check.Operator
import ObjectLang.Typed.Basic

/-!
# The checker

The checker walks over a program once and either rejects it, for the first fault it meets, or
returns the typed program. Its state is the store of type frames, in which every name that is in
scope is bound to a type; the frame that new names go into is an argument.

Every block is checked in a frame of its own, both blocks of a branch included. A function's name
is bound before its body is checked, so that the function may call itself, and the type that its
returns have to fit is bound in the frame of its body to a name of its own, `returnsName`. The
fields of an object are checked in the frame around the object; then the types of all its methods
are bound, and only then are their bodies checked, so that methods may refer to each other in any
order. Members are not in scope by themselves: a method reaches them through its receiver.
-/

namespace ObjectLang

/-- A run of the checker: reads and extends the store of type frames, and may reject the program.
What was bound before a rejection stays bound. -/
abbrev CheckM := EStateM CheckError (Store Ty)

/-- The name that holds the type of the enclosing function's result. -/
def returnsName : String := "$RETURNS"

def Literal.ty : Literal → Ty
  | .nil => .nil
  | .boolean _ => .boolean
  | .integer _ => .integer
  | .decimal _ => .decimal
  | .string _ => .string

namespace Check

/-! ## Steps -/

/-- The type of a name that is in scope, if it is. -/
def lookup? (f : FrameId) (name : String) : CheckM (Option Ty) := do
  return (← get).lookup f name

/-- The type of a name, which has to be in scope. -/
def lookup (f : FrameId) (name : String) : CheckM Ty := do
  match ← lookup? f name with
  | some ty => return ty
  | none => throw (.undefinedName name)

def newFrame (parent : Option FrameId) : CheckM FrameId := do
  let (f, types) := (← get).newFrame parent
  set types
  return f

/-- Succeeds if the frame itself does not define the name. -/
def requireFree (f : FrameId) (name : String) : CheckM Unit := do
  if (← get).defines f name then throw (.alreadyDefined name) else return ()

/-- Binds a name in a frame that does not define it yet. -/
def define (f : FrameId) (name : String) (ty : Ty) : CheckM Unit := do
  requireFree f name
  modify (·.append f name ty)

/-- Binds several names in a frame. -/
def defineAll (f : FrameId) : List (String × Ty) → CheckM Unit
  | [] => return ()
  | (name, ty) :: rest => do
    define f name ty
    defineAll f rest

def result {α : Type} : Except CheckError α → CheckM α
  | .ok a => pure a
  | .error e => throw e

/-- Succeeds if values of type `found` may stand where one of type `expected` is wanted. -/
def requireSubtype (found expected : Ty) : CheckM Unit := result (found.requireSubtype expected)

/-- The type of a given name. -/
def resolveName (name : String) : CheckM Ty :=
  match Ty.ofName? name with
  | some ty => pure ty
  | none => throw (.undefinedType name)

/-- The declared type, if one is declared. -/
def declaredTy? : Option String → CheckM (Option Ty)
  | none => return none
  | some name => return some (← resolveName name)

/-- The declared type, `Any` where none is declared. -/
def declaredTy (name : Option String) : CheckM Ty := do
  return (← declaredTy? name).getD .any

/-- The type that a declaration binds its name to: the declared one, which the initial value has
to fit, otherwise that of the initial value, otherwise `Any`. -/
def bindingTy : Option Ty → Option TypedExpr → CheckM Ty
  | some ty, some value => do
    requireSubtype value.ty ty
    return ty
  | some ty, none => return ty
  | none, some value => return value.ty
  | none, none => return .any

/-- Succeeds unless the name is that of a predefined type. -/
def requireUnreserved : Option String → CheckM Unit
  | none => return ()
  | some name => if (Ty.ofName? name).isSome then throw (.reservedTypeName name) else return ()

/-- The frame of members of an object type. -/
def membersOf : Ty → CheckM FrameId
  | .object members => pure members
  | ty => throw (.notAnObject ty)

/-- The type of a member; frames further out do not count. -/
def memberTy (members : FrameId) (name : String) : CheckM Ty := do
  match (← get).own? members name with
  | some ty => return ty
  | none => throw (.undefinedMember name)

/-- The parameter types and the result type of a function that is called `name` and gets `count`
arguments. -/
def callable (name : String) (count : Nat) : Ty → CheckM (List Ty × Ty)
  | .function params returns =>
    if params.length = count then pure (params, returns)
    else throw (.wrongArgumentCount name params.length count)
  | ty => throw (.notCallable name ty)

/-! ## Signatures -/

/-- The parameters of a function and the type of its result. -/
structure Signature where
  /-- The parameters, in order. -/
  parameters : List TypedParameter
  /-- The type of the result. -/
  returns : Ty

/-- The type of a function with this signature. -/
def Signature.ty (s : Signature) : Ty := functionTy s.parameters s.returns

/-- Succeeds if a parameter does not repeat one of the names before it. -/
def requireNew (seen : List String) (name : String) : CheckM Unit :=
  if name ∈ seen then throw (.duplicateParameter name) else return ()

/-- Resolves the types of parameters that stand after those named in `seen`. -/
def parameters (seen : List String) : List Parameter → CheckM (List TypedParameter)
  | [] => return []
  | p :: rest => do
    requireNew seen p.name
    let ty ← declaredTy p.typeName
    return ⟨p.name, ty⟩ :: (← parameters (p.name :: seen) rest)

/-- Resolves the declared types of a function. -/
def signature (d : Definition) : CheckM Signature := do
  let parameters ← parameters [] d.parameters
  return ⟨parameters, ← declaredTy d.returnType⟩

/-- Binds the types of methods in a frame of members. -/
def registerMethods (members : FrameId) : List Definition → CheckM (List Signature)
  | [] => return []
  | d :: rest => do
    requireFree members d.name
    let s ← signature d
    define members d.name s.ty
    return s :: (← registerMethods members rest)

/-- What is bound in the frame of a function body: the receiver of a method, the parameters, and the
type that returns have to fit. -/
def bodyBindings (this : Option Ty) (s : Signature) : List (String × Ty) :=
  this.toList.map (thisName, ·) ++ s.parameters.map (fun p => (p.name, p.ty)) ++
    [(returnsName, s.returns)]

/-! ## Trees -/

mutual

def expr (f : FrameId) : Expr → CheckM TypedExpr
  | .literal value => return .literal value value.ty
  | .group inner => return .group (← expr f inner)
  | .binary op left right => do
    let left ← expr f left
    let right ← expr f right
    return .binary op left right (← result (op.resultTy left.ty right.ty))
  | .variable name => return .variable name (← lookup f name)
  | .property receiver name => do
    let receiver ← expr f receiver
    let members ← membersOf receiver.ty
    return .property receiver name (← memberTy members name)
  | .call name arguments => do
    let target ← lookup f name
    let (params, returns) ← callable name arguments.length target
    return .call name (← exprs f arguments params) returns
  | .method receiver name arguments => do
    let receiver ← expr f receiver
    let members ← membersOf receiver.ty
    let target ← memberTy members name
    let (params, returns) ← callable name arguments.length target
    return .method receiver name (← exprs f arguments params) returns
  | .object name fields methods => do
    requireUnreserved name
    let members ← newFrame none
    let fields ← objectFields f members fields
    let signatures ← registerMethods members methods
    let methods ← objectMethods f (.object members) methods signatures
    return .object name fields methods (.object members)

/-- Checks arguments one by one, each against the type of its parameter. -/
def exprs (f : FrameId) : List Expr → List Ty → CheckM (List TypedExpr)
  | e :: rest, param :: params => do
    let e ← expr f e
    requireSubtype e.ty param
    return e :: (← exprs f rest params)
  | _, _ => return []

def optionalExpr (f : FrameId) : Option Expr → CheckM (Option TypedExpr)
  | none => return none
  | some e => return some (← expr f e)

/-- Checks a declaration without binding its name. -/
def declaration (f : FrameId) : Declaration → CheckM TypedDeclaration
  | ⟨name, typeName, value⟩ => do
    let declared ← declaredTy? typeName
    let value ← optionalExpr f value
    return ⟨name, ← bindingTy declared value, value⟩

/-- Checks the fields of an object in the frame around it and binds them in its frame of members. -/
def objectFields (f members : FrameId) : List Declaration → CheckM (List TypedDeclaration)
  | [] => return []
  | d :: rest => do
    requireFree members d.name
    let d ← declaration f d
    define members d.name d.ty
    return d :: (← objectFields f members rest)

/-- Checks the bodies of methods, each with its signature. -/
def objectMethods (f : FrameId) (this : Ty) :
    List Definition → List Signature → CheckM (List TypedDefinition)
  | d :: rest, s :: signatures => do
    let d ← definition f (some this) d s
    return d :: (← objectMethods f this rest signatures)
  | _, _ => return []

/-- Checks the body of a function. -/
def definition (f : FrameId) (this : Option Ty) : Definition → Signature → CheckM TypedDefinition
  | ⟨name, _, _, body⟩, s => do
    let frame ← newFrame (some f)
    defineAll frame (bodyBindings this s)
    let body ← stmts frame body
    return ⟨name, s.parameters, s.returns, body⟩

def stmt (f : FrameId) : Stmt → CheckM TypedStmt
  | .declare d => do
    requireFree f d.name
    let d ← declaration f d
    define f d.name d.ty
    return .declare d
  | .define d => do
    requireFree f d.name
    let s ← signature d
    define f d.name s.ty
    return .define (← definition f none d s)
  | .branch condition thenBody elseBody => do
    let condition ← expr f condition
    requireSubtype condition.ty .boolean
    let thenFrame ← newFrame (some f)
    let thenBody ← stmts thenFrame thenBody
    let elseFrame ← newFrame (some f)
    let elseBody ← stmts elseFrame elseBody
    return .branch condition thenBody elseBody
  | .forEach name items body => do
    let items ← expr f items
    requireSubtype items.ty .iterable
    let frame ← newFrame (some f)
    define frame name .integer
    return .forEach name .integer items (← stmts frame body)
  | .ret value => do
    match ← lookup? f returnsName with
    | none => throw .returnOutsideFunction
    | some returns =>
      let value ← optionalExpr f value
      requireSubtype (value.elim .nil (·.ty)) returns
      return .ret value
  | .expression value => return .expression (← expr f value)
  | .assign target value =>
    match target with
    | .variable name => do
      let ty ← lookup f name
      let value ← expr f value
      requireSubtype value.ty ty
      return .assignVariable name ty value
    | .property receiver name => do
      let receiver ← expr f receiver
      let members ← membersOf receiver.ty
      let ty ← memberTy members name
      let value ← expr f value
      requireSubtype value.ty ty
      return .assignProperty receiver name ty value
    | _ => throw .invalidAssignmentTarget

/-- Checks statements one after another, in one frame. -/
def stmts (f : FrameId) : List Stmt → CheckM (List TypedStmt)
  | [] => return []
  | s :: rest => do
    let s ← stmt f s
    return s :: (← stmts f rest)

end

/-- Checks a program in a frame. -/
def program (f : FrameId) (p : Program) : CheckM TypedProgram :=
  return ⟨← stmts f p.statements⟩

/-! ## The root frame -/

/-- Makes a frame without parent that binds the functions every program can use. -/
def rootFrame : CheckM FrameId := do
  let f ← newFrame none
  defineAll f Ty.rootBindings
  return f

end Check

end ObjectLang
