import ObjectLang.Program.Decode
import ObjectLang.Proofs.Program.Decimals

/-!
# Reading back programs in interchange form

Reading inverts writing: form by form, the kind that was written is found again, and its parts stand
under their names. The one thing that may not come back as it was are the scales of decimals.
-/

namespace ObjectLang

/-! ## Leaves -/

theorem Json.optionalString?_ofOption (name : Option String) :
    (Json.ofOption name).optionalString? = some name := by
  cases name <;> rfl

theorem Json.natBelow?_ofNat {n bound : Nat} (h : n < bound) :
    (Json.ofNat n).natBelow? bound = some n := by
  have hrange : (0 : Int) ≤ n ∧ (n : Int) < bound := by omega
  rw [natBelow?, ofNat, ofInt, int?]
  dsimp only
  rw [if_pos hrange, Int.toNat_natCast]

theorem Json.mapM_natBelow? {ws : List Nat} {bound : Nat} (h : ∀ w ∈ ws, w < bound) :
    (ws.map Json.ofNat).mapM (natBelow? bound) = some ws := by
  induction ws with
  | nil => rfl
  | cons w rest ih =>
    obtain ⟨hw, hrest⟩ := List.forall_mem_cons.mp h
    rw [List.map_cons, List.mapM_cons, natBelow?_ofNat hw, ih hrest]
    rfl

/-- Sign and digits make up the whole number. -/
theorem Json.signed?_ofSigned (n : Int) : (Json.ofSigned n).signed? = some n := by
  have hwords := mapM_natBelow? fun w (hw : w ∈ words n.natAbs) => lt_of_mem_words hw
  have hsign : n.sign = 1 ∨ n.sign = 0 ∨ n.sign = -1 := by
    rcases Int.lt_trichotomy n 0 with hneg | rfl | hpos
    · exact .inr (.inr (Int.sign_eq_neg_one_of_neg hneg))
    · exact .inr (.inl rfl)
    · exact .inl (Int.sign_eq_one_of_pos hpos)
  have hvalue : n.sign * (ofWords (words n.natAbs) : Int) = n := by
    rw [ofWords_words]
    exact Int.sign_mul_natAbs n
  rw [ofSigned, signed?, hwords]
  show (if n.sign = 1 ∨ n.sign = 0 ∨ n.sign = -1 then
    some (n.sign * (ofWords (words n.natAbs) : Int)) else none) = _
  rw [if_pos hsign, hvalue]

theorem Operator.ofJson?_toJson (op : Operator) : Operator.ofJson? op.toJson = some op :=
  ofSpelling?_spelling op

theorem Literal.ofJson?_toJson {value : Literal}
    (h : ∀ d ∈ value.decimals, fitsSigned 64 d.scale = true) :
    Literal.ofJson? value.toJson = some (value.mapDecimals Decimal.interchanged) := by
  cases value with
  | nil => rfl
  | boolean value => rfl
  | integer value =>
    show (Json.ofSigned value).signed?.map Literal.integer = _
    rw [Json.signed?_ofSigned]
    rfl
  | decimal d =>
    show (Decimal.parse? d.interchangeText).map Literal.decimal = _
    rw [Decimal.parse?_interchangeText (h d List.mem_cons_self)]
    rfl
  | string value => rfl

theorem Parameter.ofJson?_toJson (p : Parameter) : Parameter.ofJson? p.toJson = some p := by
  show (do return Parameter.mk (← some p.name) (← (Json.ofOption p.typeName).optionalString?)) = _
  rw [Json.optionalString?_ofOption]
  rfl

theorem Parameter.mapM_ofJson? (ps : List Parameter) :
    (ps.map Parameter.toJson).mapM Parameter.ofJson? = some ps := by
  induction ps with
  | nil => rfl
  | cons p rest ih =>
    rw [List.map_cons, List.mapM_cons, ofJson?_toJson, ih]
    rfl

/-! ## Trees -/

/-- What is not missing is read as it is. -/
theorem Expr.optionOfJson?_variant (tag : String) (payload : Json) :
    Expr.optionOfJson? (.variant tag payload) = (Expr.ofJson? (.variant tag payload)).map some := by
  have hne : Json.variant tag payload = .null → False := fun h => by cases h
  rw [Expr.optionOfJson?]
  exact hne

/-- An expression is never written as `null`. -/
theorem Expr.exists_toJson_eq_variant (e : Expr) :
    ∃ tag payload, e.toJson = .variant tag payload := by
  cases e <;> exact ⟨_, _, rfl⟩

mutual

theorem Expr.ofJson?_toJson : ∀ e : Expr, (∀ d ∈ e.decimals, fitsSigned 64 d.scale = true) →
    Expr.ofJson? e.toJson = some (e.mapDecimals Decimal.interchanged)
  | .literal value, h => by
    rw [Expr.toJson, Expr.ofJson?]
    show (Literal.ofJson? value.toJson).map Expr.literal = _
    rw [Literal.ofJson?_toJson h]
    rfl
  | .group inner, h => by
    rw [Expr.toJson, Expr.ofJson?]
    show (Expr.ofJson? inner.toJson).map Expr.group = _
    rw [Expr.ofJson?_toJson inner h]
    rfl
  | .binary op left right, h => by
    rw [Expr.decimals] at h
    obtain ⟨hleft, hright⟩ := List.forall_mem_append.mp h
    rw [Expr.toJson, Expr.ofJson?]
    show (do
      return Expr.binary (← Operator.ofJson? op.toJson) (← Expr.ofJson? left.toJson)
        (← Expr.ofJson? right.toJson)) = _
    rw [Operator.ofJson?_toJson, Expr.ofJson?_toJson left hleft, Expr.ofJson?_toJson right hright]
    rfl
  | .variable name, _ => by
    rw [Expr.toJson, Expr.ofJson?]
    rfl
  | .property receiver name, h => by
    rw [Expr.toJson, Expr.ofJson?]
    show (do return Expr.property (← Expr.ofJson? receiver.toJson) (← some name)) = _
    rw [Expr.ofJson?_toJson receiver h]
    rfl
  | .call name arguments, h => by
    rw [Expr.toJson, Expr.ofJson?]
    show (do
      return Expr.call (← some name)
        (← Expr.arrayOfJson? (.array (Expr.listToJson arguments)))) = _
    rw [Expr.arrayOfJson?, Expr.listOfJson?_listToJson arguments h]
    rfl
  | .method receiver name arguments, h => by
    rw [Expr.decimals] at h
    obtain ⟨hreceiver, harguments⟩ := List.forall_mem_append.mp h
    rw [Expr.toJson, Expr.ofJson?]
    show (do
      return Expr.method (← Expr.ofJson? receiver.toJson) (← some name)
        (← Expr.arrayOfJson? (.array (Expr.listToJson arguments)))) = _
    rw [Expr.ofJson?_toJson receiver hreceiver, Expr.arrayOfJson?,
      Expr.listOfJson?_listToJson arguments harguments]
    rfl
  | .object name fields methods, h => by
    rw [Expr.decimals] at h
    obtain ⟨hfields, hmethods⟩ := List.forall_mem_append.mp h
    rw [Expr.toJson, Expr.ofJson?]
    show (do
      return Expr.object (← (Json.ofOption name).optionalString?)
        (← Declaration.arrayOfJson? (.array (Declaration.listToJson fields)))
        (← Definition.arrayOfJson? (.array (Definition.listToJson methods)))) = _
    rw [Json.optionalString?_ofOption, Declaration.arrayOfJson?, Definition.arrayOfJson?,
      Declaration.listOfJson?_listToJson fields hfields,
      Definition.listOfJson?_listToJson methods hmethods]
    rfl

theorem Expr.listOfJson?_listToJson : ∀ es : List Expr,
    (∀ d ∈ Expr.decimalsOfList es, fitsSigned 64 d.scale = true) →
    Expr.listOfJson? (Expr.listToJson es) = some (Expr.mapDecimalsList Decimal.interchanged es)
  | [], _ => by
    rw [Expr.listToJson, Expr.listOfJson?, Expr.mapDecimalsList]
  | e :: rest, h => by
    rw [Expr.decimalsOfList] at h
    obtain ⟨he, hrest⟩ := List.forall_mem_append.mp h
    rw [Expr.listToJson, Expr.listOfJson?, Expr.ofJson?_toJson e he,
      Expr.listOfJson?_listToJson rest hrest]
    rfl

theorem Expr.optionOfJson?_optionToJson : ∀ e : Option Expr,
    (∀ d ∈ Expr.decimalsOfOption e, fitsSigned 64 d.scale = true) →
    Expr.optionOfJson? (Expr.optionToJson e) =
      some (Expr.mapDecimalsOption Decimal.interchanged e)
  | none, _ => by
    rw [Expr.optionToJson, Expr.optionOfJson?, Expr.mapDecimalsOption]
  | some e, h => by
    have hread := Expr.ofJson?_toJson e h
    obtain ⟨tag, payload, hvariant⟩ := e.exists_toJson_eq_variant
    rw [hvariant] at hread
    rw [Expr.optionToJson, hvariant, Expr.optionOfJson?_variant, hread]
    rfl

theorem Declaration.ofJson?_toJson : ∀ d : Declaration,
    (∀ d' ∈ d.decimals, fitsSigned 64 d'.scale = true) →
    Declaration.ofJson? d.toJson = some (d.mapDecimals Decimal.interchanged)
  | ⟨name, typeName, value⟩, h => by
    rw [Declaration.toJson, Declaration.ofJson?]
    show (do
      return Declaration.mk (← some name) (← (Json.ofOption typeName).optionalString?)
        (← Expr.optionOfJson? (Expr.optionToJson value))) = _
    rw [Json.optionalString?_ofOption, Expr.optionOfJson?_optionToJson value h]
    rfl

theorem Declaration.listOfJson?_listToJson : ∀ ds : List Declaration,
    (∀ d ∈ Declaration.decimalsOfList ds, fitsSigned 64 d.scale = true) →
    Declaration.listOfJson? (Declaration.listToJson ds) =
      some (Declaration.mapDecimalsList Decimal.interchanged ds)
  | [], _ => by
    rw [Declaration.listToJson, Declaration.listOfJson?, Declaration.mapDecimalsList]
  | d :: rest, h => by
    rw [Declaration.decimalsOfList] at h
    obtain ⟨hd, hrest⟩ := List.forall_mem_append.mp h
    rw [Declaration.listToJson, Declaration.listOfJson?, Declaration.ofJson?_toJson d hd,
      Declaration.listOfJson?_listToJson rest hrest]
    rfl

theorem Definition.ofJson?_toJson : ∀ d : Definition,
    (∀ d' ∈ d.decimals, fitsSigned 64 d'.scale = true) →
    Definition.ofJson? d.toJson = some (d.mapDecimals Decimal.interchanged)
  | ⟨name, parameters, returnType, body⟩, h => by
    rw [Definition.toJson, Definition.ofJson?]
    show (do
      return Definition.mk (← some name)
        (← (← some (parameters.map Parameter.toJson)).mapM Parameter.ofJson?)
        (← (Json.ofOption returnType).optionalString?)
        (← Stmt.arrayOfJson? (.array (Stmt.listToJson body)))) = _
    rw [Option.bind_eq_bind, Option.bind_eq_bind, Option.bind_some, Option.bind_eq_bind,
      Option.bind_some, Parameter.mapM_ofJson?, Json.optionalString?_ofOption,
      Stmt.arrayOfJson?, Stmt.listOfJson?_listToJson body h]
    rfl

theorem Definition.listOfJson?_listToJson : ∀ ds : List Definition,
    (∀ d ∈ Definition.decimalsOfList ds, fitsSigned 64 d.scale = true) →
    Definition.listOfJson? (Definition.listToJson ds) =
      some (Definition.mapDecimalsList Decimal.interchanged ds)
  | [], _ => by
    rw [Definition.listToJson, Definition.listOfJson?, Definition.mapDecimalsList]
  | d :: rest, h => by
    rw [Definition.decimalsOfList] at h
    obtain ⟨hd, hrest⟩ := List.forall_mem_append.mp h
    rw [Definition.listToJson, Definition.listOfJson?, Definition.ofJson?_toJson d hd,
      Definition.listOfJson?_listToJson rest hrest]
    rfl

theorem Stmt.ofJson?_toJson : ∀ s : Stmt, (∀ d ∈ s.decimals, fitsSigned 64 d.scale = true) →
    Stmt.ofJson? s.toJson = some (s.mapDecimals Decimal.interchanged)
  | .declare d, h => by
    rw [Stmt.toJson, Stmt.ofJson?]
    show (Declaration.ofJson? d.toJson).map Stmt.declare = _
    rw [Declaration.ofJson?_toJson d h]
    rfl
  | .define d, h => by
    rw [Stmt.toJson, Stmt.ofJson?]
    show (Definition.ofJson? d.toJson).map Stmt.define = _
    rw [Definition.ofJson?_toJson d h]
    rfl
  | .branch condition thenBody elseBody, h => by
    rw [Stmt.decimals] at h
    obtain ⟨hcondition, hbodies⟩ := List.forall_mem_append.mp h
    obtain ⟨hthen, helse⟩ := List.forall_mem_append.mp hbodies
    rw [Stmt.toJson, Stmt.ofJson?]
    show (do
      return Stmt.branch (← Expr.ofJson? condition.toJson)
        (← Stmt.arrayOfJson? (.array (Stmt.listToJson thenBody)))
        (← Stmt.arrayOfJson? (.array (Stmt.listToJson elseBody)))) = _
    rw [Expr.ofJson?_toJson condition hcondition, Stmt.arrayOfJson?, Stmt.arrayOfJson?,
      Stmt.listOfJson?_listToJson thenBody hthen, Stmt.listOfJson?_listToJson elseBody helse]
    rfl
  | .forEach name items body, h => by
    rw [Stmt.decimals] at h
    obtain ⟨hitems, hbody⟩ := List.forall_mem_append.mp h
    rw [Stmt.toJson, Stmt.ofJson?]
    show (do
      return Stmt.forEach (← some name) (← Expr.ofJson? items.toJson)
        (← Stmt.arrayOfJson? (.array (Stmt.listToJson body)))) = _
    rw [Expr.ofJson?_toJson items hitems, Stmt.arrayOfJson?,
      Stmt.listOfJson?_listToJson body hbody]
    rfl
  | .ret value, h => by
    rw [Stmt.toJson, Stmt.ofJson?]
    show (Expr.optionOfJson? (Expr.optionToJson value)).map Stmt.ret = _
    rw [Expr.optionOfJson?_optionToJson value h]
    rfl
  | .expression value, h => by
    rw [Stmt.toJson, Stmt.ofJson?]
    show (Expr.ofJson? value.toJson).map Stmt.expression = _
    rw [Expr.ofJson?_toJson value h]
    rfl
  | .assign target value, h => by
    rw [Stmt.decimals] at h
    obtain ⟨htarget, hvalue⟩ := List.forall_mem_append.mp h
    rw [Stmt.toJson, Stmt.ofJson?]
    show (do return Stmt.assign (← Expr.ofJson? target.toJson) (← Expr.ofJson? value.toJson)) = _
    rw [Expr.ofJson?_toJson target htarget, Expr.ofJson?_toJson value hvalue]
    rfl

theorem Stmt.listOfJson?_listToJson : ∀ body : List Stmt,
    (∀ d ∈ Stmt.decimalsOfList body, fitsSigned 64 d.scale = true) →
    Stmt.listOfJson? (Stmt.listToJson body) =
      some (Stmt.mapDecimalsList Decimal.interchanged body)
  | [], _ => by
    rw [Stmt.listToJson, Stmt.listOfJson?, Stmt.mapDecimalsList]
  | s :: rest, h => by
    rw [Stmt.decimalsOfList] at h
    obtain ⟨hs, hrest⟩ := List.forall_mem_append.mp h
    rw [Stmt.listToJson, Stmt.listOfJson?, Stmt.ofJson?_toJson s hs,
      Stmt.listOfJson?_listToJson rest hrest]
    rfl

end

/-- A program whose decimals have scales that fit in their words is read back, with the decimals
that interchange leaves of them. -/
theorem Program.ofJson?_toJson {p : Program}
    (h : ∀ d ∈ p.decimals, fitsSigned 64 d.scale = true) :
    Program.ofJson? p.toJson = some (p.mapDecimals Decimal.interchanged) := by
  show (Stmt.arrayOfJson? (.array (Stmt.listToJson p.statements))).map Program.mk = _
  rw [Stmt.arrayOfJson?, Stmt.listOfJson?_listToJson p.statements h]
  rfl

end ObjectLang
