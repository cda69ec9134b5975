import ObjectLang.Program.Basic

/-!
# Building programs

Short forms for hosts that assemble trees by hand. A declaration or definition starts with its
name and is completed step by step.
-/

namespace ObjectLang

namespace Expr

def nil : Expr := .literal .nil

def boolean (value : Bool) : Expr := .literal (.boolean value)

def integer (value : Int) : Expr := .literal (.integer value)

def decimal (value : Decimal) : Expr := .literal (.decimal value)

def string (value : String) : Expr := .literal (.string value)

end Expr

namespace Declaration

/-- A declaration without type and value. -/
def named (name : String) : Declaration := ⟨name, none, none⟩

def typed (d : Declaration) (typeName : String) : Declaration :=
  { d with typeName := some typeName }

def withValue (d : Declaration) (value : Expr) : Declaration := { d with value := some value }

end Declaration

namespace Definition

/-- A function without parameters, result type and statements. -/
def named (name : String) : Definition := ⟨name, [], none, []⟩

/-- Adds a parameter after the others. -/
def param (d : Definition) (name : String) (typeName : Option String) : Definition :=
  { d with parameters := d.parameters ++ [⟨name, typeName⟩] }

/-- Sets the declared type of the result. -/
def returning (d : Definition) (typeName : String) : Definition :=
  { d with returnType := some typeName }

def withBody (d : Definition) (body : List Stmt) : Definition := { d with body := body }

end Definition

end ObjectLang
