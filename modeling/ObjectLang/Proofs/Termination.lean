import ObjectLang.Proofs.Eval.Printing
import ObjectLang.Proofs.Metering
import ObjectLang.Proofs.Program.Isolated

/-!
# Every run ends

Evaluation recurses on the parts of a tree, on the rest of a list, and through calls of defined
functions. Only the calls could go on for ever, since functions are found in the world and may lead
back to themselves through variables and members, and so fuel is spent on them alone: a run with
fuel `n` has room for `n` calls inside of each other. The limit on nested calls is fuel enough,
whatever the limit on steps is. Host functions nest no calls: a range is a finite list, and printing
opens no object twice.
-/

namespace ObjectLang

/-! ## Ranges -/

theorem integersBetween_of_lt {a b : Int} (h : b < a) : integersBetween a b = [] := by
  have hcount : (b + 1 - a).toNat = 0 := by omega
  rw [integersBetween, hcount]
  rfl

theorem integersBetween_of_le {a b : Int} (h : a ≤ b) :
    integersBetween a b = a :: integersBetween (a + 1) b := by
  have hcount : (b + 1 - a).toNat = (b + 1 - (a + 1)).toNat + 1 := by omega
  rw [integersBetween, integersBetween, hcount, List.range_succ_eq_map, List.map_cons, List.map_map]
  refine congrArg₂ List.cons (by simp) (List.map_congr_left fun i _ => ?_)
  simp only [Function.comp_apply, Nat.succ_eq_add_one, Int.natCast_add, Int.cast_ofNat_Int]
  omega

/-- Counting up from `a` is finished when `b` is passed. -/
theorem integersBetween_eq (a b : Int) :
    integersBetween a b = if a ≤ b then a :: integersBetween (a + 1) b else [] := by
  split
  · next h => exact integersBetween_of_le h
  · next h => exact integersBetween_of_lt (Int.lt_of_not_ge h)

/-! ## Runs -/

namespace Program

variable {w : World}

/-- A run in a world without defined functions needs no more fuel than its limit on nested calls. -/
theorem runWith_eq_runFueled (hw : w.owners = ∅) (p : Program) (f : FrameId) (limits : Limits)
    {fuel : Nat} (hfuel : limits.depth ≤ fuel) :
    p.runFueled fuel ⟨f, w.meters.size⟩ (w.withMeter limits) = p.runWith limits f w := by
  have halone := ((p.runWith_charges f limits w).alone hw).2.2
  have hnever := p.runWith_avoids_outOfFuel f limits w
  rw [halone] at hnever
  rw [p.runFueled_of_le hfuel hnever, ← halone]

/-- A program that starts with host functions only runs to an end: it has a result or fails for one
of the causes of the language, whatever its limits are. With fuel for as many calls inside of each
other as the limit on nested calls allows, and with any more, it runs in the same way and never gets
to the end of its fuel. On the way, printing a value comes to an end before its bound, and a range
counts up to its end. -/
theorem run_ends (hw : w.owners = ∅) (p : Program) (f : FrameId) (limits : Limits) :
    ((∃ v w', p.runWith limits f w = .ok v w') ∨
      ∃ e w', p.runWith limits f w = .error (.error e) w') ∧
    (∀ fuel ≥ limits.depth,
      p.runFueled fuel ⟨f, w.meters.size⟩ (w.withMeter limits) = p.runWith limits f w) ∧
    (∀ (w' : World) (v : Value), ∀ n > w'.store.size,
      v.textWith w'.functionName (w'.objectText n []) = w'.print v) ∧
    ∀ a b : Int, integersBetween a b = if a ≤ b then a :: integersBetween (a + 1) b else [] := by
  refine ⟨?_, fun fuel hfuel => p.runWith_eq_runFueled hw f limits hfuel,
    fun w' v n hn => (w'.print_eq v hn).symm, integersBetween_eq⟩
  have hnever := p.runWith_avoids_outOfFuel f limits w
  cases hr : p.runWith limits f w with
  | ok v w' => exact .inl ⟨v, w', rfl⟩
  | error stop w' =>
    cases stop with
    | error e => exact .inr ⟨e, w', rfl⟩
    | outOfFuel => exact absurd rfl (hnever .outOfFuel w' hr)

/-- An object with a member that calls the member itself. -/
def circling : Program :=
  ⟨[.declare ⟨"wheel", none, some (.object none [⟨"turn", none, none⟩] [])⟩,
    .define ⟨"again", [⟨"wheel", none⟩], none,
      [.ret (some (.method (.variable "wheel") "turn" []))]⟩,
    .assign (.property (.variable "wheel") "turn") (.variable "again"),
    .expression (.method (.variable "wheel") "turn" [])]⟩

/-- The calls go on until the limit on nested calls ends them, with steps left in plenty. -/
theorem run_ends_circling : isolatedWorld.owners = ∅ ∧
    ¬ (circling.runWith ⟨2 ^ 64 - 1, 3⟩ 1 isolatedWorld).Avoids
      (· = .error (.callDepthExceeded 3)) ∧
    circling.runFueled 3 ⟨1, 0⟩ (isolatedWorld.withMeter ⟨2 ^ 64 - 1, 3⟩) =
      circling.runWith ⟨2 ^ 64 - 1, 3⟩ 1 isolatedWorld := by
  have hw : isolatedWorld.owners = ∅ := by decide
  have hfuel := (run_ends hw circling 1 ⟨2 ^ 64 - 1, 3⟩).2.1
  exact ⟨hw, by decide +kernel, hfuel 3 le_rfl⟩

end Program

end ObjectLang
