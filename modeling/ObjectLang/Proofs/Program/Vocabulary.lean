import Mathlib.Data.Set.Basic
import ObjectLang.Program.Basic

/-!
# What programs are written with

A vocabulary says which names a program may mention, be they of variables, functions, parameters or
members, and whether it may assign. Two vocabularies are of interest: the one without assignments,
and the one that leaves out a single name. -/

namespace ObjectLang

/-- What programs may be written with. -/
structure Vocabulary where
  /-- The names that may be mentioned. -/
  names : Set String
  /-- Whether there may be assignments. -/
  assigns : Prop

namespace Vocabulary

/-- All names, but no assignments. -/
def readOnly : Vocabulary := ⟨Set.univ, False⟩

/-- Everything but a name. -/
def without (name : String) : Vocabulary := ⟨{name}ᶜ, True⟩

end Vocabulary

mutual

/-- The expression is written in the vocabulary. -/
def Expr.WrittenIn (V : Vocabulary) : Expr → Prop
  | .literal _ => True
  | .group inner => inner.WrittenIn V
  | .binary _ left right => left.WrittenIn V ∧ right.WrittenIn V
  | .variable name => name ∈ V.names
  | .property receiver name => receiver.WrittenIn V ∧ name ∈ V.names
  | .call name arguments => name ∈ V.names ∧ WrittenInExprs V arguments
  | .method receiver name arguments =>
    receiver.WrittenIn V ∧ name ∈ V.names ∧ WrittenInExprs V arguments
  | .object _ fields methods => WrittenInFields V fields ∧ WrittenInMethods V methods

def WrittenInExprs (V : Vocabulary) : List Expr → Prop
  | [] => True
  | e :: rest => e.WrittenIn V ∧ WrittenInExprs V rest

def WrittenInOption (V : Vocabulary) : Option Expr → Prop
  | none => True
  | some e => e.WrittenIn V

/-- The declaration is written in the vocabulary. -/
def Declaration.WrittenIn (V : Vocabulary) : Declaration → Prop
  | ⟨name, _, value⟩ => name ∈ V.names ∧ WrittenInOption V value

def WrittenInFields (V : Vocabulary) : List Declaration → Prop
  | [] => True
  | d :: rest => d.WrittenIn V ∧ WrittenInFields V rest

/-- The function or method is written in the vocabulary. -/
def Definition.WrittenIn (V : Vocabulary) : Definition → Prop
  | ⟨name, parameters, _, body⟩ =>
    name ∈ V.names ∧ (∀ p ∈ parameters, p.name ∈ V.names) ∧ WrittenInStmts V body

def WrittenInMethods (V : Vocabulary) : List Definition → Prop
  | [] => True
  | d :: rest => d.WrittenIn V ∧ WrittenInMethods V rest

/-- The statement is written in the vocabulary. -/
def Stmt.WrittenIn (V : Vocabulary) : Stmt → Prop
  | .declare d => d.WrittenIn V
  | .define d => d.WrittenIn V
  | .branch condition thenBody elseBody =>
    condition.WrittenIn V ∧ WrittenInStmts V thenBody ∧ WrittenInStmts V elseBody
  | .forEach name items body => name ∈ V.names ∧ items.WrittenIn V ∧ WrittenInStmts V body
  | .ret value => WrittenInOption V value
  | .expression value => value.WrittenIn V
  | .assign target value => V.assigns ∧ target.WrittenIn V ∧ value.WrittenIn V

def WrittenInStmts (V : Vocabulary) : List Stmt → Prop
  | [] => True
  | s :: rest => s.WrittenIn V ∧ WrittenInStmts V rest

end

theorem Declaration.writtenIn_iff {V : Vocabulary} {d : Declaration} :
    d.WrittenIn V ↔ d.name ∈ V.names ∧ WrittenInOption V d.value := by
  cases d
  rfl

theorem Definition.writtenIn_iff {V : Vocabulary} {d : Definition} :
    d.WrittenIn V ↔
      d.name ∈ V.names ∧ (∀ p ∈ d.parameters, p.name ∈ V.names) ∧ WrittenInStmts V d.body := by
  cases d
  rfl

theorem writtenInMethods_iff {V : Vocabulary} {methods : List Definition} :
    WrittenInMethods V methods ↔ ∀ d ∈ methods, d.WrittenIn V := by
  induction methods with
  | nil => simp [WrittenInMethods]
  | cons d rest ih => simp [WrittenInMethods, ih]

/-- The program is written in the vocabulary. -/
def Program.WrittenIn (V : Vocabulary) (p : Program) : Prop := WrittenInStmts V p.statements

end ObjectLang
