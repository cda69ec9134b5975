import ObjectLang.Proofs.Eval.Limits
import ObjectLang.Proofs.Json.Nesting
import ObjectLang.Proofs.Program.Decoding
import ObjectLang.Proofs.Program.Isolated
import ObjectLang.Proofs.Program.Plain

/-!
# Programs through interchange

A program that is written for interchange and read again is the same tree: names, texts, operators
and whole numbers come back as they were, and decimals as the numbers that they were. Programs see
more of a decimal than its number, though. Equality compares the scale, and the text shows it. A
program whose decimals keep their scales comes back as the same program and does the same; each
decimal that does not keep its scale can be told from the one that comes back in its place.
-/

namespace ObjectLang

theorem World.room_withMeter (w : World) (limits : Limits) :
    (w.withMeter limits).Room w.meters.size limits.gas := by
  refine ⟨?_, ?_⟩
  · simp [withMeter]
  · rw [meter_withMeter, Nat.zero_add]

section

variable {w : World} {c : Context} {invoke : Eval.Invoke} {n : Nat}

theorem Eval.expr_literal (h : w.Room c.meter (n + 1)) (value : Literal) :
    expr invoke c (.literal value) w = .ok value.value (w.charge c.meter) := by
  rw [expr, bind_run_ok (tick_of_room h)]
  rfl

/-- Two constants are compared in three steps. -/
theorem Eval.expr_eq_literals (h : w.Room c.meter (n + 3)) (a b : Literal) :
    expr invoke c (.binary .eq (.literal a) (.literal b)) w =
      .ok (.boolean (a.value.same b.value))
        (((w.charge c.meter).charge c.meter).charge c.meter) := by
  rw [expr, bind_run_ok (tick_of_room h), bind_run_ok (expr_literal h.charge a)]
  show (expr invoke c (.literal b) >>= fun v => _) _ = _
  rw [bind_run_ok (expr_literal h.charge.charge b)]
  rfl

end

namespace Program

/-! ## Trees -/

/-- What a reader without a limit reads from what is written of a program. -/
def interchanged? (p : Program) : Option Program := (Json.parse? p.toJson.compact).bind ofJson?

/-- What a reader reads that opens at most `limit` containers within one another. -/
def interchangedWithin? (limit : Nat) (p : Program) : Option Program :=
  (Json.parseWithin? limit p.toJson.compact).bind ofJson?

theorem interchanged?_eq_ofJson? (p : Program) : p.interchanged? = ofJson? p.toJson := by
  rw [interchanged?, Json.parse?_compact p.plain_toJson, Option.bind_some]

/-- The limit of the reader is all that a text adds to the value that is written. -/
theorem interchangedWithin?_eq (limit : Nat) (p : Program) :
    p.interchangedWithin? limit = if p.toJson.depth ≤ limit then p.interchanged? else none := by
  rw [interchangedWithin?, Json.parseWithin?_compact p.plain_toJson, interchanged?_eq_ofJson?]
  split_ifs <;> rfl

/-- Nothing but the scales of decimals is lost. -/
theorem interchanged?_eq {p : Program} (hfits : ∀ d ∈ p.decimals, fitsSigned 64 d.scale = true) :
    p.interchanged? = some (p.mapDecimals Decimal.interchanged) := by
  rw [interchanged?_eq_ofJson?, ofJson?_toJson hfits]

/-- A program with literals of all kinds in trees of many forms. -/
def invoice : Program :=
  ⟨[.define ⟨"due", [⟨"amount", some "Decimal"⟩, ⟨"note", none⟩], some "String",
      [.branch (.binary .lessEq (.variable "amount") (.literal (.decimal ⟨0, 2⟩)))
        [.ret (some (.literal (.string "\"nothing\"\n")))]
        [.forEach "line" (.call "range" [.literal (.integer (-1)), .literal (.integer (2 ^ 70))])
          [.expression (.group (.literal (.boolean true)))],
        .ret (some (.binary .add (.variable "note") (.literal (.decimal ⟨-250, 9⟩))))]]⟩,
    .declare ⟨"account", none, some (.object (some "Account")
      [⟨"total", some "Decimal", some (.literal (.decimal ⟨12, -3⟩))⟩, ⟨"owner", none, none⟩]
      [⟨"close", [], none, [.assign (.property (.variable "this") "owner") (.literal .nil)]⟩])⟩,
    .expression (.method (.variable "account") "close" [])]⟩

/-- A constant in parentheses, `n` times. -/
def grouped : Nat → Expr
  | 0 => .literal .nil
  | n + 1 => .group (grouped n)

theorem decimals_grouped (n : Nat) : (grouped n).decimals = [] := by
  induction n with
  | zero => rfl
  | succ n ih => rw [grouped, Expr.decimals, ih]

theorem depth_toJson_grouped (n : Nat) : (grouped n).toJson.depth = n + 1 := by
  induction n with
  | zero => rw [grouped, Expr.toJson, Json.depth_variant]; rfl
  | succ n ih => rw [grouped, Expr.toJson, Json.depth_variant, ih]

/-- Every limit is too low for the text of some program that comes back from its interchange form.
-/
theorem exists_interchangedWithin?_eq_none (limit : Nat) :
    ∃ p, ofJson? p.toJson = some p ∧ p.interchangedWithin? limit = none := by
  have hnone : (⟨[.expression (grouped limit)]⟩ : Program).decimals = [] :=
    (List.append_nil _).trans (decimals_grouped limit)
  have hdepth : limit < (⟨[.expression (grouped limit)]⟩ : Program).toJson.depth := by
    rw [toJson, Json.depth, Json.depthOfMembers, Stmt.listToJson, Json.depth, Json.depthOfItems,
      Stmt.toJson, Json.depth_variant, depth_toJson_grouped]
    omega
  refine ⟨⟨[.expression (grouped limit)]⟩, ?_, ?_⟩
  · rw [ofJson?_toJson (by rw [hnone]; exact List.forall_mem_nil _), Option.some_inj,
      mapDecimals_eq_self_iff, hnone]
    exact List.forall_mem_nil _
  · rw [interchangedWithin?_eq, if_neg (Nat.not_le.mpr hdepth)]

/-! ## Runs -/

/-- The program that evaluates one expression. -/
def evaluating (e : Expr) : Program := ⟨[.expression e]⟩

/-- The value of the expression is what the program ends with, after a step of its own. -/
theorem runWith_evaluating {limits : Limits} {f : FrameId} {w w' : World} {n : Nat} {e : Expr}
    {v : Value} (hgas : limits.gas = n + 1)
    (he : ∀ invoke, Eval.expr invoke ⟨f, w.meters.size⟩ e
      ((w.withMeter limits).charge w.meters.size) = .ok v w') :
    (evaluating e).runWith limits f w = .ok v w' := by
  have htick : Eval.tick w.meters.size (w.withMeter limits) =
      .ok () ((w.withMeter limits).charge w.meters.size) :=
    Eval.tick_of_room (hgas ▸ w.room_withMeter limits)
  have hstmt : Eval.stmt (Eval.call (w.freeDepth + limits.depth)) ⟨f, w.meters.size⟩
      (.expression e) (w.withMeter limits) = .ok (.normal v) w' := by
    rw [Eval.stmt, bind_run_ok htick]
    exact bind_run_ok (he _) _
  have hstmts : Eval.stmts (Eval.call (w.freeDepth + limits.depth)) ⟨f, w.meters.size⟩ .nil
      [.expression e] (w.withMeter limits) = .ok (.normal v) w' := by
    rw [Eval.stmts, bind_run_ok hstmt]
    rfl
  rw [runWith_eq, runFueled, evaluating]
  exact bind_run_ok hstmts _

/-- All programs that consist of one constant end in the same world. -/
theorem runWith_literal {limits : Limits} (hgas : 2 ≤ limits.gas) (f : FrameId) (w : World) :
    ∃ w', ∀ value : Literal,
      (evaluating (.literal value)).runWith limits f w = .ok value.value w' := by
  obtain ⟨n, hn⟩ := Nat.exists_eq_add_of_le' hgas
  have hroom := (hn ▸ w.room_withMeter limits).charge
  exact ⟨_, fun value => runWith_evaluating hn fun _ => Eval.expr_literal hroom value⟩

/-- All programs that compare two constants end in the same world. -/
theorem runWith_eq_literals {limits : Limits} (hgas : 4 ≤ limits.gas) (f : FrameId) (w : World) :
    ∃ w', ∀ a b : Literal,
      (evaluating (.binary .eq (.literal a) (.literal b))).runWith limits f w =
        .ok (.boolean (a.value.same b.value)) w' := by
  obtain ⟨n, hn⟩ := Nat.exists_eq_add_of_le' hgas
  have hroom := (hn ▸ w.room_withMeter limits).charge
  exact ⟨_, fun a b => runWith_evaluating hn fun _ => Eval.expr_eq_literals hroom a b⟩

/-! ## Runs after interchange -/

/-- What has been through interchange comes back as it is. -/
theorem interchanged?_mapDecimals {p : Program}
    (hfits : ∀ d ∈ p.decimals, fitsSigned 64 d.scale = true) :
    (p.mapDecimals Decimal.interchanged).interchanged? =
      some (p.mapDecimals Decimal.interchanged) := by
  have hmapped : ∀ e ∈ (p.mapDecimals Decimal.interchanged).decimals,
      ∃ d ∈ p.decimals, d.interchanged = e := by
    rw [decimals_mapDecimals]
    exact fun e he => List.mem_map.mp he
  rw [interchanged?_eq, Option.some_inj, mapDecimals_eq_self_iff]
  · intro e he
    obtain ⟨d, -, rfl⟩ := hmapped e he
    exact Decimal.interchanged_eq_iff.mpr d.stable_interchanged
  · intro e he
    obtain ⟨d, hd, rfl⟩ := hmapped e he
    exact Decimal.fitsSigned_scale_interchanged (hfits d hd)

/-- After interchange the program ends in the same world, but with a value of another text. -/
def ChangesText (p : Program) (limits : Limits) (f : FrameId) (w : World) : Prop :=
  ∃ q v v' w', p.interchanged? = some q ∧ p.runWith limits f w = .ok v w' ∧
    q.runWith limits f w = .ok v' w' ∧ w'.print v ≠ w'.print v'

section

variable {d : Decimal} {limits : Limits}

theorem changesText_literal (hfits : fitsSigned 64 d.scale = true) (hstable : ¬ d.Stable)
    (hgas : 2 ≤ limits.gas) (f : FrameId) (w : World) :
    (evaluating (.literal (.decimal d))).ChangesText limits f w := by
  obtain ⟨w', hrun⟩ := runWith_literal hgas f w
  have hall : ∀ e ∈ (evaluating (.literal (.decimal d))).decimals,
      fitsSigned 64 e.scale = true := by
    intro e he
    rw [List.mem_singleton.mp he]
    exact hfits
  refine ⟨_, _, _, w', interchanged?_eq hall, hrun _, hrun (.decimal d.interchanged), ?_⟩
  exact fun htext => hstable (Decimal.text_interchanged_iff.mp htext.symm)

/-- A decimal that does not keep its scale differs from the one that comes back, but is equal to it
after interchange. -/
theorem changesText_comparison (hfits : fitsSigned 64 d.scale = true) (hstable : ¬ d.Stable)
    (hgas : 4 ≤ limits.gas) (f : FrameId) (w : World) :
    (evaluating (.binary .eq (.literal (.decimal d))
      (.literal (.decimal d.interchanged)))).ChangesText limits f w := by
  obtain ⟨w', hrun⟩ := runWith_eq_literals hgas f w
  have hall : ∀ e ∈ (evaluating (.binary .eq (.literal (.decimal d))
      (.literal (.decimal d.interchanged)))).decimals, fitsSigned 64 e.scale = true := by
    refine List.forall_mem_cons.mpr ⟨hfits, fun e he => ?_⟩
    rw [List.mem_singleton.mp he]
    exact Decimal.fitsSigned_scale_interchanged hfits
  have hbefore : (d == d.interchanged) = false :=
    beq_eq_false_iff_ne.mpr fun heq => hstable (Decimal.interchanged_eq_iff.mp heq.symm)
  have hafter : (d.interchanged == d.interchanged.interchanged) = true :=
    beq_iff_eq.mpr (Decimal.interchanged_eq_iff.mpr d.stable_interchanged).symm
  refine ⟨_, .boolean (d == d.interchanged),
    .boolean (d.interchanged == d.interchanged.interchanged), w', interchanged?_eq hall,
    hrun _ _, hrun (.decimal d.interchanged) (.decimal d.interchanged.interchanged), ?_⟩
  have htexts : "FALSE" ≠ "TRUE" := by decide
  rw [hbefore, hafter]
  exact htexts

end

/-- A program comes back from interchange as the same program if its decimals keep their scales, and
then it does the same in every world, frame and limits; otherwise it comes back as a program which
interchange does not change any more. Each decimal that does not keep its scale is seen to change:
the text in which a program ends changes if the program consists of the decimal, and if it compares
the decimal to what comes back. -/
theorem runWith_interchanged {p : Program}
    (hfits : ∀ d ∈ p.decimals, fitsSigned 64 d.scale = true) :
    ∃ q, p.interchanged? = some q ∧ q.interchanged? = some q ∧
      (q = p ↔ ∀ d ∈ p.decimals, d.Stable) ∧
      ((∀ d ∈ p.decimals, d.Stable) →
        ∀ limits f w, q.runWith limits f w = p.runWith limits f w) ∧
      ∀ d ∈ p.decimals, ¬ d.Stable → ∀ limits f w, 4 ≤ limits.gas →
        (evaluating (.literal (.decimal d))).ChangesText limits f w ∧
        (evaluating (.binary .eq (.literal (.decimal d))
          (.literal (.decimal d.interchanged)))).ChangesText limits f w := by
  have hiff : p.mapDecimals Decimal.interchanged = p ↔ ∀ d ∈ p.decimals, d.Stable := by
    rw [mapDecimals_eq_self_iff]
    exact forall₂_congr fun d _ => Decimal.interchanged_eq_iff
  refine ⟨p.mapDecimals Decimal.interchanged, interchanged?_eq hfits,
    interchanged?_mapDecimals hfits, hiff, ?_, ?_⟩
  · intro hstable limits f w
    rw [hiff.mpr hstable]
  · intro d hd hstable limits f w hgas
    have hscale := hfits d hd
    exact ⟨changesText_literal hscale hstable (Nat.le_trans (by decide) hgas) f w,
      changesText_comparison hscale hstable hgas f w⟩

/-- A third of a price, in cents. -/
def sharing : Program :=
  ⟨[.declare ⟨"price", some "Decimal", some (.literal (.decimal ⟨1250, 2⟩))⟩,
    .expression (.binary .div (.variable "price") (.literal (.decimal ⟨3, 0⟩)))]⟩

/-- The price comes back as it was and is shared as before; the total and the bound of another
program do not come back as they were. -/
theorem runWith_interchanged_sharing :
    ((∀ d ∈ sharing.decimals, fitsSigned 64 d.scale = true) ∧
      ∃ q, sharing.interchanged? = some q ∧ q = sharing ∧
        q.runWith {} 1 isolatedWorld = sharing.runWith {} 1 isolatedWorld ∧
        (sharing.runWith {} 1 isolatedWorld).isOk = true) ∧
    (∀ d ∈ invoice.decimals, fitsSigned 64 d.scale = true) ∧
      (evaluating (.literal (.decimal ⟨12, -3⟩))).ChangesText {} 1 isolatedWorld ∧
      (evaluating (.binary .eq (.literal (.decimal ⟨0, 2⟩))
        (.literal (.decimal ⟨0, 0⟩)))).ChangesText {} 1 isolatedWorld := by
  have hsharing : ∀ d ∈ sharing.decimals, fitsSigned 64 d.scale = true := by decide
  have hinvoice : ∀ d ∈ invoice.decimals, fitsSigned 64 d.scale = true := by decide
  obtain ⟨q, hq, -, hiff, hrun, -⟩ := runWith_interchanged hsharing
  obtain ⟨-, -, -, -, -, hchanges⟩ := runWith_interchanged hinvoice
  have hstable : ∀ d ∈ sharing.decimals, d.Stable := by decide
  refine ⟨⟨hsharing, q, hq, hiff.mpr hstable, hrun hstable {} 1 isolatedWorld,
    by decide +kernel⟩, hinvoice, ?_, ?_⟩
  · exact (hchanges ⟨12, -3⟩ (by decide) (by decide) {} 1 isolatedWorld (by decide)).1
  · exact (hchanges ⟨0, 2⟩ (by decide) (by decide) {} 1 isolatedWorld (by decide)).2

/-- What a program that consists of zero with two places ends in is written with these places, but
after interchange without them. -/
theorem not_runWith_interchanged :
    ∃ q v v' w', (evaluating (.literal (.decimal ⟨0, 2⟩))).interchanged? = some q ∧
      (evaluating (.literal (.decimal ⟨0, 2⟩))).runWith {} 1 isolatedWorld = .ok v w' ∧
      w'.print v = "0.00" ∧ q.runWith {} 1 isolatedWorld = .ok v' w' ∧ w'.print v' = "0" := by
  have hfits : ∀ d ∈ (evaluating (.literal (.decimal ⟨0, 2⟩))).decimals,
      fitsSigned 64 d.scale = true := by decide
  have hgas : 2 ≤ ({} : Limits).gas := by decide
  obtain ⟨w', hrun⟩ := runWith_literal hgas 1 isolatedWorld
  exact ⟨_, _, _, w', interchanged?_eq hfits, hrun _, rfl, hrun (.decimal ⟨0, 0⟩), rfl⟩

end Program

end ObjectLang
