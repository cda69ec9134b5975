import ObjectLang.Program.Encode
import ObjectLang.Proofs.Json.RoundTrip

/-!
# Programs are written as plain values

The interchange form of a program holds no numbers but signs and digits in base `2 ^ 32`, and the
parts of a tree have different names. So a program's text is read back as the value that was
written.
-/

namespace ObjectLang

namespace Json

theorem plain_variant {tag : String} {payload : Json} (h : payload.Plain) :
    (Json.variant tag payload).Plain := by
  rw [variant, Plain, PlainMembers, PlainMembers]
  exact ⟨List.nodup_singleton tag, h, trivial⟩

theorem plain_ofOption (name : Option String) : (Json.ofOption name).Plain := by
  cases name <;> exact trivial

theorem plainItems_of_forall {items : List Json} (h : ∀ j ∈ items, j.Plain) :
    PlainItems items := by
  induction items with
  | nil => exact trivial
  | cons j rest ih =>
    obtain ⟨hj, hrest⟩ := List.forall_mem_cons.mp h
    rw [PlainItems]
    exact ⟨hj, ih hrest⟩

/-- Sign and digits are small numbers. -/
theorem plain_ofSigned (n : Int) : (Json.ofSigned n).Plain := by
  have hsign : (Json.ofInt n.sign).Plain := by
    rw [ofInt, Plain, JsonNumber.IsExact]
    rcases Int.lt_trichotomy n 0 with hneg | rfl | hpos
    · rw [Int.sign_eq_neg_one_of_neg hneg]
      decide
    · decide
    · rw [Int.sign_eq_one_of_pos hpos]
      decide
  have hwords : PlainItems ((words n.natAbs).map Json.ofNat) := by
    refine plainItems_of_forall fun j hj => ?_
    obtain ⟨w, hw, rfl⟩ := List.mem_map.mp hj
    have hlt := lt_of_mem_words hw
    rw [ofNat, ofInt, Plain, JsonNumber.IsExact]
    omega
  rw [ofSigned, Plain, PlainItems, PlainItems, PlainItems, Plain]
  exact ⟨hsign, hwords, trivial⟩

/-- An object whose members have different names is plain if they are. -/
theorem plain_object {members : List (String × Json)} (hnames : (members.map Prod.fst).Nodup)
    (h : PlainMembers members) : (Json.object members).Plain := by
  rw [Plain]
  exact ⟨hnames, h⟩

theorem plainMembers_cons {name : String} {j : Json} {members : List (String × Json)}
    (hj : j.Plain) (h : PlainMembers members) : PlainMembers ((name, j) :: members) := by
  rw [PlainMembers]
  exact ⟨hj, h⟩

theorem plainMembers_nil : PlainMembers [] := trivial

theorem plain_array_cons {j : Json} {items : List Json} (hj : j.Plain)
    (h : (Json.array items).Plain) : (Json.array (j :: items)).Plain := by
  rw [Plain] at h ⊢
  rw [PlainItems]
  exact ⟨hj, h⟩

theorem plain_string (s : String) : (Json.string s).Plain := trivial

end Json

open Json

theorem Literal.plain_toJson (value : Literal) : value.toJson.Plain := by
  cases value with
  | nil => exact plain_string _
  | boolean value => exact plain_variant trivial
  | integer value => exact plain_variant (plain_ofSigned value)
  | decimal value => exact plain_variant (plain_string _)
  | string value => exact plain_variant (plain_string _)

theorem Parameter.plain_toJson (p : Parameter) : p.toJson.Plain :=
  plain_object (by simp) (plainMembers_cons (plain_string _)
    (plainMembers_cons (plain_ofOption _) plainMembers_nil))

theorem Parameter.plainItems_toJson (ps : List Parameter) :
    PlainItems (ps.map Parameter.toJson) := by
  refine plainItems_of_forall fun j hj => ?_
  obtain ⟨p, -, rfl⟩ := List.mem_map.mp hj
  exact p.plain_toJson

mutual

theorem Expr.plain_toJson : ∀ e : Expr, e.toJson.Plain
  | .literal value => by
    rw [Expr.toJson]
    exact plain_variant value.plain_toJson
  | .group inner => by
    rw [Expr.toJson]
    exact plain_variant inner.plain_toJson
  | .binary op left right => by
    rw [Expr.toJson]
    exact plain_variant (plain_object (by simp) (plainMembers_cons (plain_string _)
      (plainMembers_cons left.plain_toJson (plainMembers_cons right.plain_toJson
        plainMembers_nil))))
  | .variable name => by
    rw [Expr.toJson]
    exact plain_variant (plain_object (by simp) (plainMembers_cons (plain_string _)
      plainMembers_nil))
  | .property receiver name => by
    rw [Expr.toJson]
    exact plain_variant (plain_object (by simp) (plainMembers_cons receiver.plain_toJson
      (plainMembers_cons (plain_string _) plainMembers_nil)))
  | .call name arguments => by
    rw [Expr.toJson]
    exact plain_variant (plain_object (by simp) (plainMembers_cons (plain_string _)
      (plainMembers_cons (Expr.plain_listToJson arguments) plainMembers_nil)))
  | .method receiver name arguments => by
    rw [Expr.toJson]
    exact plain_variant (plain_object (by simp) (plainMembers_cons receiver.plain_toJson
      (plainMembers_cons (plain_string _) (plainMembers_cons (Expr.plain_listToJson arguments)
        plainMembers_nil))))
  | .object name fields methods => by
    rw [Expr.toJson]
    exact plain_variant (plain_object (by simp) (plainMembers_cons (plain_ofOption _)
      (plainMembers_cons (Declaration.plain_listToJson fields)
        (plainMembers_cons (Definition.plain_listToJson methods) plainMembers_nil))))

theorem Expr.plain_listToJson : ∀ es : List Expr, (Json.array (Expr.listToJson es)).Plain
  | [] => trivial
  | e :: rest => by
    rw [Expr.listToJson]
    exact plain_array_cons e.plain_toJson (Expr.plain_listToJson rest)

theorem Expr.plain_optionToJson : ∀ e : Option Expr, (Expr.optionToJson e).Plain
  | none => trivial
  | some e => by
    rw [Expr.optionToJson]
    exact e.plain_toJson

theorem Declaration.plain_toJson : ∀ d : Declaration, d.toJson.Plain
  | ⟨name, typeName, value⟩ => by
    rw [Declaration.toJson]
    exact plain_object (by simp) (plainMembers_cons (plain_string _)
      (plainMembers_cons (plain_ofOption _) (plainMembers_cons (Expr.plain_optionToJson value)
        plainMembers_nil)))

theorem Declaration.plain_listToJson :
    ∀ ds : List Declaration, (Json.array (Declaration.listToJson ds)).Plain
  | [] => trivial
  | d :: rest => by
    rw [Declaration.listToJson]
    exact plain_array_cons d.plain_toJson (Declaration.plain_listToJson rest)

theorem Definition.plain_toJson : ∀ d : Definition, d.toJson.Plain
  | ⟨name, parameters, returnType, body⟩ => by
    rw [Definition.toJson]
    exact plain_object (by simp) (plainMembers_cons (plain_string _)
      (plainMembers_cons (Parameter.plainItems_toJson parameters)
        (plainMembers_cons (plain_ofOption _) (plainMembers_cons (Stmt.plain_listToJson body)
          plainMembers_nil))))

theorem Definition.plain_listToJson :
    ∀ ds : List Definition, (Json.array (Definition.listToJson ds)).Plain
  | [] => trivial
  | d :: rest => by
    rw [Definition.listToJson]
    exact plain_array_cons d.plain_toJson (Definition.plain_listToJson rest)

theorem Stmt.plain_toJson : ∀ s : Stmt, s.toJson.Plain
  | .declare d => by
    rw [Stmt.toJson]
    exact plain_variant d.plain_toJson
  | .define d => by
    rw [Stmt.toJson]
    exact plain_variant d.plain_toJson
  | .branch condition thenBody elseBody => by
    rw [Stmt.toJson]
    exact plain_variant (plain_object (by simp) (plainMembers_cons condition.plain_toJson
      (plainMembers_cons (Stmt.plain_listToJson thenBody)
        (plainMembers_cons (Stmt.plain_listToJson elseBody) plainMembers_nil))))
  | .forEach name items body => by
    rw [Stmt.toJson]
    exact plain_variant (plain_object (by simp) (plainMembers_cons (plain_string _)
      (plainMembers_cons items.plain_toJson (plainMembers_cons (Stmt.plain_listToJson body)
        plainMembers_nil))))
  | .ret value => by
    rw [Stmt.toJson]
    exact plain_variant (plain_object (by simp)
      (plainMembers_cons (Expr.plain_optionToJson value) plainMembers_nil))
  | .expression value => by
    rw [Stmt.toJson]
    exact plain_variant value.plain_toJson
  | .assign target value => by
    rw [Stmt.toJson]
    exact plain_variant (plain_object (by simp) (plainMembers_cons target.plain_toJson
      (plainMembers_cons value.plain_toJson plainMembers_nil)))

theorem Stmt.plain_listToJson : ∀ body : List Stmt, (Json.array (Stmt.listToJson body)).Plain
  | [] => trivial
  | s :: rest => by
    rw [Stmt.listToJson]
    exact plain_array_cons s.plain_toJson (Stmt.plain_listToJson rest)

end

theorem Program.plain_toJson (p : Program) : p.toJson.Plain :=
  plain_object (by simp) (plainMembers_cons (Stmt.plain_listToJson p.statements) plainMembers_nil)

end ObjectLang
