import ObjectLang.Proofs.TypeSystem.Lookup

/-!
# What names may mean

The checker looks a name up among what is bound before the place where the name is used. A run looks
it up when it gets there, and may find another binding. A function runs after its definition, so
names that are bound between may hide those it was checked with; and the fields of an object see
those before them, which the checker does not show. Besides, a function type leaves out what the
function takes as its receiver. So the checker takes a method for a plain function when it is read
from an object, and for a method of another object when it is stored there.

Here typed trees are read with everything that names may mean at the time of the run. A tree is
steady if a name may be used as the checker allows whichever of its meanings it has: what is read is
of a type below the one that the checker found, what is called takes the arguments, and what is
assigned fits. Two lists of meanings go along the tree. Those in `senses` are found where the tree
is run. Those in `pending` will be bound later in the blocks around it, so they are found as well
inside of the functions that are defined there.
-/

namespace ObjectLang

/-- The type is that of a function. -/
def Ty.IsFunction : Ty → Prop
  | .function _ _ => True
  | _ => False

/-! ## Meanings -/

/-- What a name stands for: values of the type. If these are functions, then they take an object of
the given type as their receiver, or none. -/
abbrev Sense := Ty × Option FrameId

/-- What names may stand for. A name may have several meanings. -/
abbrev Senses := List (String × Sense)

/-- What functions in the members of objects take as their receiver, by the type of the object and
the name of the member. -/
abbrev Receivers := FrameId → String → Option FrameId

namespace Senses

/-- The meanings of other names. -/
def without (senses : Senses) (names : List String) : Senses := senses.filter (·.1 ∉ names)

/-- What names may mean once the given ones are bound in the nearest frame. -/
def bind (senses own : Senses) : Senses := own ++ senses.without (own.map Prod.fst)

/-- Names of values of the types. Functions among them take no receiver. -/
def ofTypes (bindings : List (String × Ty)) : Senses := bindings.map fun b => (b.1, b.2, none)

variable {senses senses' own : Senses} {names : List String} {name : String} {σ : Sense}

theorem mem_without : (name, σ) ∈ senses.without names ↔ (name, σ) ∈ senses ∧ name ∉ names := by
  simp [without]

@[simp] theorem without_nil (senses : Senses) : senses.without [] = senses := by
  simp [without]

theorem append_without (senses senses' : Senses) (names : List String) :
    without (senses ++ senses') names = senses.without names ++ senses'.without names :=
  List.filter_append _ _

@[simp] theorem bind_nil (senses : Senses) : senses.bind [] = senses := by
  simp [bind]

theorem append_bind (senses senses' own : Senses) :
    bind (senses ++ senses') own = senses.bind own ++ senses'.without (own.map Prod.fst) := by
  rw [bind, bind, append_without, List.append_assoc]

theorem mem_bind_of_mem (h : (name, σ) ∈ own) : (name, σ) ∈ senses.bind own :=
  List.mem_append_left _ h

theorem mem_bind_of_not_mem (h : (name, σ) ∈ senses) (hname : name ∉ own.map Prod.fst) :
    (name, σ) ∈ senses.bind own :=
  List.mem_append_right _ (mem_without.mpr ⟨h, hname⟩)

@[simp] theorem names_ofTypes (bindings : List (String × Ty)) :
    (ofTypes bindings).map Prod.fst = bindings.map Prod.fst := by
  rw [ofTypes, List.map_map]
  rfl

end Senses

/-- What the members of objects of a type mean. -/
def Receivers.members (ρ : Receivers) (o : FrameId) (bindings : List (String × Ty)) : Senses :=
  bindings.map fun b => (b.1, b.2, ρ o b.1)

/-- What the names mean that a call binds. -/
def callSenses (receiver : Option FrameId) (parameters : List TypedParameter) : Senses :=
  .ofTypes (callBindings receiver parameters)

/-- What the functions mean that every program can use. The checker knows nothing of `list`. -/
def rootSenses : Senses := .ofTypes (("list", .any) :: Ty.rootBindings)

/-! ## What trees mean -/

/-- What the function takes as its receiver that the expression evaluates to. -/
def TypedExpr.receiver (ρ : Receivers) (senses : Senses) : TypedExpr → Option FrameId
  | .group inner => inner.receiver ρ senses
  | .variable name _ => (senses.lookup name).bind Prod.snd
  | .property receiver name _ =>
    match receiver.ty with
    | .object o => ρ o name
    | _ => none
  | _ => none

/-- What the value of the expression is. -/
def TypedExpr.sense (ρ : Receivers) (senses : Senses) (e : TypedExpr) : Sense :=
  (e.ty, e.receiver ρ senses)

/-- What the function takes as its receiver that the declaration binds. -/
def TypedDeclaration.receiver (ρ : Receivers) (senses : Senses) (d : TypedDeclaration) :
    Option FrameId :=
  d.value.elim none (·.receiver ρ senses)

/-- If the declaration binds a function, then one with this receiver. -/
def TypedDeclaration.Binds (ρ : Receivers) (senses : Senses) (d : TypedDeclaration)
    (receiver : Option FrameId) : Prop :=
  d.ty.IsFunction → ∀ value ∈ d.value, value.receiver ρ senses = receiver

/-- What the name means that the statement binds. -/
def TypedStmt.meaning (ρ : Receivers) (senses : Senses) : TypedStmt → Senses
  | .declare d => [(d.name, d.ty, d.receiver ρ senses)]
  | .define d => [(d.name, d.ty, none)]
  | _ => []

/-- What the names mean that the statements bind in the frame of their block. -/
def blockSenses (ρ : Receivers) (senses : Senses) : List TypedStmt → Senses
  | [] => []
  | s :: rest => s.meaning ρ senses ++ blockSenses ρ (senses.bind (s.meaning ρ senses)) rest

section

variable {ρ : Receivers} {senses : Senses}

theorem TypedDeclaration.binds_receiver (d : TypedDeclaration) :
    d.Binds ρ senses (d.receiver ρ senses) := by
  intro _ value hvalue
  rw [TypedDeclaration.receiver, Option.mem_def.mp hvalue]
  rfl

@[simp] theorem TypedStmt.names_meaning (s : TypedStmt) :
    (s.meaning ρ senses).map Prod.fst = s.bindings.map Prod.fst := by
  cases s <;> rfl

@[simp] theorem names_blockSenses (body : List TypedStmt) :
    (blockSenses ρ senses body).map Prod.fst = blockNames body := by
  induction body generalizing senses with
  | nil => rfl
  | cons s rest ih =>
    rw [blockSenses, List.map_append, ih, s.names_meaning, blockNames, blockNames, blockBindings,
      blockBindings, List.flatMap_cons, List.map_append]

end

theorem Receivers.lookup_members (ρ : Receivers) (o : FrameId) (bindings : List (String × Ty))
    (name : String) :
    (ρ.members o bindings).lookup name = (bindings.lookup name).map fun ty => (ty, ρ o name) := by
  induction bindings with
  | nil => rfl
  | cons b rest ih =>
    rw [members, List.map_cons, List.lookup_cons, List.lookup_cons, ← members, ih]
    by_cases hb : name = b.1
    · subst hb
      simp
    · have hb' : (name == b.1) = false := by simpa using hb
      simp [hb']

/-! ## Steady trees -/

/-- What is asked of the meanings of a name. -/
inductive Demand where
  /-- That functions can be called as such, and that objects have their members. -/
  | calls
  /-- That values are of their types. -/
  | values

/-- Whether it matters that a value is of the type. -/
def Demand.Concerns : Demand → Ty → Prop
  | .calls, ty => ¬ ty.IsPlain
  | .values, _ => True

/-- Whether a variable may have the name. The checker keeps the type of results under a name of its
own, which must not be bound to anything else if values matter. -/
def Demand.Allows (q : Demand) (name : String) : Prop := q = .values → name ≠ returnsName

/-- What the first one means may stand where the second one is expected. -/
def Sense.Serves (q : Demand) (σ expected : Sense) : Prop :=
  q.Concerns expected.1 → σ.1.Below expected.1 ∧ (expected.1.IsFunction → σ.2 = expected.2)

/-- A function that can be called with the arguments, without receiver, for a result of the type. -/
def Sense.Takes (q : Demand) (ρ : Receivers) (senses : Senses) (arguments : List TypedExpr)
    (returns : Ty) (σ : Sense) : Prop :=
  ∃ params result, σ = (.function params result, none) ∧
    Sense.Serves q (result, none) (returns, none) ∧
    List.Forall₂ (fun e param => Sense.Serves q (e.sense ρ senses) (param, none)) arguments params

mutual

/-- Whatever its names mean, the expression may use them as it does. -/
def TypedExpr.Steady (q : Demand) (ρ : Receivers) (senses pending : Senses) : TypedExpr → Prop
  | .literal _ _ => True
  | .group inner => inner.Steady q ρ senses pending
  | .binary _ left right _ => left.Steady q ρ senses pending ∧ right.Steady q ρ senses pending
  | .variable name ty =>
    ∀ σ, (name, σ) ∈ senses → σ.Serves q (ty, (senses.lookup name).bind Prod.snd)
  | .property receiver _ _ => receiver.Steady q ρ senses pending
  | .call name arguments ty =>
    (∀ σ, (name, σ) ∈ senses → σ.Takes q ρ senses arguments ty) ∧
      SteadyExprs q ρ senses pending arguments
  | .method receiver name arguments _ =>
    (∀ o, receiver.ty = .object o → ρ o name = some o) ∧ receiver.Steady q ρ senses pending ∧
      SteadyExprs q ρ senses pending arguments
  | .object _ fields methods ty => ∀ o, ty = .object o →
    SteadyFields q ρ o senses (ρ.members o (memberBindings fields methods) ++ pending) fields ∧
      SteadyMethods q ρ o (senses ++ pending) methods

def SteadyExprs (q : Demand) (ρ : Receivers) (senses pending : Senses) : List TypedExpr → Prop
  | [] => True
  | e :: rest => e.Steady q ρ senses pending ∧ SteadyExprs q ρ senses pending rest

def SteadyOption (q : Demand) (ρ : Receivers) (senses pending : Senses) : Option TypedExpr → Prop
  | none => True
  | some e => e.Steady q ρ senses pending

def TypedDeclaration.Steady (q : Demand) (ρ : Receivers) (senses pending : Senses) :
    TypedDeclaration → Prop
  | ⟨_, _, value⟩ => SteadyOption q ρ senses pending value

/-- The fields of an object of the given type find those before them. -/
def SteadyFields (q : Demand) (ρ : Receivers) (o : FrameId) (senses pending : Senses) :
    List TypedDeclaration → Prop
  | [] => True
  | d :: rest =>
    d.Binds ρ senses (ρ o d.name) ∧ d.Steady q ρ senses pending ∧
      SteadyFields q ρ o (senses.bind [(d.name, d.ty, ρ o d.name)]) (pending.without [d.name]) rest

/-- The body finds what a call binds, and around it whatever is or will be bound there. -/
def TypedDefinition.Steady (q : Demand) (ρ : Receivers) (receiver : Option FrameId)
    (senses : Senses) : TypedDefinition → Prop
  | ⟨_, parameters, _, body⟩ =>
    SteadyStmts q ρ (senses.bind (callSenses receiver parameters))
      (blockSenses ρ (senses.bind (callSenses receiver parameters)) body) body

def SteadyMethods (q : Demand) (ρ : Receivers) (o : FrameId) (senses : Senses) :
    List TypedDefinition → Prop
  | [] => True
  | d :: rest =>
    ρ o d.name = some o ∧ d.Steady q ρ (some o) senses ∧ SteadyMethods q ρ o senses rest

/-- Whatever its names mean, the statement may use them as it does. A function finds itself. -/
def TypedStmt.Steady (q : Demand) (ρ : Receivers) (senses pending : Senses) : TypedStmt → Prop
  | .declare d => q.Allows d.name ∧ d.Steady q ρ senses pending
  | .define d =>
    q.Allows d.name ∧ d.Steady q ρ none ((senses ++ pending).bind [(d.name, d.ty, none)])
  | .branch condition thenBody elseBody =>
    condition.Steady q ρ senses pending ∧
      SteadyStmts q ρ senses (blockSenses ρ senses thenBody ++ pending) thenBody ∧
      SteadyStmts q ρ senses (blockSenses ρ senses elseBody ++ pending) elseBody
  | .forEach name _ items body =>
    q.Allows name ∧ items.Steady q ρ senses pending ∧
      SteadyStmts q ρ (senses.bind [(name, .integer, none)])
        (blockSenses ρ (senses.bind [(name, .integer, none)]) body ++ pending.without [name]) body
  | .ret value => SteadyOption q ρ senses pending value
  | .expression value => value.Steady q ρ senses pending
  | .assignVariable name _ value =>
    (∀ σ, (name, σ) ∈ senses → Sense.Serves q (value.sense ρ senses) σ) ∧
      value.Steady q ρ senses pending
  | .assignProperty receiver name ty value =>
    (∀ o, receiver.ty = .object o → ty.IsFunction → value.receiver ρ senses = ρ o name) ∧
      receiver.Steady q ρ senses pending ∧ value.Steady q ρ senses pending

/-- What a statement binds is found by those after it. -/
def SteadyStmts (q : Demand) (ρ : Receivers) (senses pending : Senses) : List TypedStmt → Prop
  | [] => True
  | s :: rest =>
    s.Steady q ρ senses pending ∧
      SteadyStmts q ρ (senses.bind (s.meaning ρ senses))
        (pending.without ((s.meaning ρ senses).map Prod.fst)) rest

end

/-- Whatever the names of the program mean when they are looked up, it may use them as it does. -/
def TypedProgram.Steady (q : Demand) (ρ : Receivers) (p : TypedProgram) : Prop :=
  SteadyStmts q ρ rootSenses (blockSenses ρ rootSenses p.statements) p.statements

theorem TypedDefinition.Steady.body {q : Demand} {ρ : Receivers} {receiver : Option FrameId}
    {senses : Senses} {d : TypedDefinition} (h : d.Steady q ρ receiver senses) :
    SteadyStmts q ρ (senses.bind (callSenses receiver d.parameters))
      (blockSenses ρ (senses.bind (callSenses receiver d.parameters)) d.body) d.body := by
  cases d
  rwa [TypedDefinition.Steady] at h

end ObjectLang
