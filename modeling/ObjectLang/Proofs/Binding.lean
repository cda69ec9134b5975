import ObjectLang.Proofs.Check.Scoping
import ObjectLang.Proofs.Eval.Fuel
import ObjectLang.Proofs.Eval.Scoping
import ObjectLang.Proofs.Program.Isolated

/-!
# Accepted programs bind their names

A program that the checker accepts does not fail because of a name or because of where a statement
stands, whatever it does with functions, methods, loops and assignments. The checker shows that the
program is well-scoped, and a well-scoped program binds its names.
-/

namespace ObjectLang

/-- The names of the functions that every program can use. -/
def rootNames : List String := Ty.rootBindings.map Prod.fst

/-- Below the root the checker shows the names of the root only. -/
theorem admits_isolatedTypes : Check.Admits isolatedTypes 1 false rootNames := by
  have hroot (name : String) (h : ((Check.rootFrame .empty).state.lookup 0 name).isSome) :
      name ∈ rootNames := by
    have hparent : (Check.rootFrame .empty).state.parent? 0 = none := rfl
    rcases (Store.lookup_isSome_step _ 0 name).mp h with hname | ⟨p, hp, -⟩
    · exact hname
    · rw [hparent] at hp
      cases hp
  have hadmits : Check.Admits (Check.rootFrame .empty).state 0 false rootNames := by
    refine ⟨by decide, fun name hname _ => hroot name hname, ?_⟩
    intro hreturns
    exact absurd (hroot _ hreturns) (by decide)
  exact hadmits.child

/-- Below the environment the names of the root are visible. -/
theorem shows_isolatedWorld : isolatedWorld.store.Shows 1 rootNames := by
  have hroot : (Eval.environment {}).state.store.Shows 0 rootNames := by
    refine ⟨by decide, fun name hname => (Store.lookup_isSome_step _ 0 name).mpr (.inl ?_)⟩
    have hsubset : rootNames ⊆ (Eval.environment {}).state.store.names 0 := by decide
    exact hsubset hname
  exact hroot.child

/-- All functions of the environment are supplied by the host. -/
theorem scoped_isolatedWorld : isolatedWorld.Scoped := by
  intro function hmem c hc
  have hfunctions : isolatedWorld.functions.toList =
    [⟨"log", .host .log⟩, ⟨"print", .host .print⟩, ⟨"list", .host .list⟩,
      ⟨"range", .host .range⟩] := rfl
  rw [hfunctions] at hmem
  simp only [List.mem_cons, List.not_mem_nil, or_false] at hmem
  rcases hmem with rfl | rfl | rfl | rfl <;> cases hc

namespace Program

variable {p : Program}

/-- An accepted program is well-scoped. -/
theorem scoped_of_accepted (hn : returnsName ∉ p.names)
    (h : (p.checkIsolated .empty).isOk = true) : ScopedStmts false rootNames [] p.statements := by
  obtain ⟨typed, types, hr⟩ := EStateM.Result.isOk_iff.mp h
  rw [checkIsolated_eq] at hr
  unfold Check.program at hr
  simp only [bind_run_eq_ok_iff] at hr
  obtain ⟨tbody, types', hbody, -⟩ := hr
  exact Check.scoped_stmts p.statements admits_isolatedTypes (by simp) hn hbody

/-- A program that is accepted and does not use the name of the checker's own runs to an end that
has nothing to do with names: it neither looks up a missing name nor binds one twice, nor does it
assign to what is no target or return outside of a function, under whatever limits. -/
theorem binding_sound (hn : returnsName ∉ p.names) (h : (p.checkIsolated .empty).isOk = true)
    (limits : Limits) :
    (p.runIsolated limits {}).Avoids Stop.IsBinding ∧
      (p.runIsolated limits {}).Avoids (· = .outOfFuel) := by
  rw [runIsolated_eq]
  refine ⟨?_, p.runWith_avoids_outOfFuel 1 limits isolatedWorld⟩
  have hw : (isolatedWorld.withMeter limits).Scoped := scoped_isolatedWorld
  have hown : ∀ name ∈ isolatedWorld.store.names 1, name ∈ ([] : List String) := fun _ h => h
  exact (safe_run (c := ⟨1, isolatedWorld.meters.size⟩) hw shows_isolatedWorld hown
    (scoped_of_accepted hn h)).avoids

/-- A function that counts in a variable outside of it and calls itself. -/
def counting : Program :=
  ⟨[.declare ⟨"total", none, some (.literal (.integer 0))⟩,
    .define ⟨"count", [⟨"n", some "Integer"⟩], some "Integer",
      [.assign (.variable "total") (.binary .add (.variable "total") (.variable "n")),
       .branch (.binary .less (.variable "n") (.literal (.integer 3)))
         [.ret (some (.call "count" [.binary .add (.variable "n") (.literal (.integer 1))]))] [],
       .ret (some (.variable "total"))]⟩,
    .expression (.call "count" [.literal (.integer 1)])]⟩

theorem binding_sound_counting : returnsName ∉ counting.names ∧
    (counting.checkIsolated .empty).isOk = true ∧
    (counting.runIsolated ⟨1000, 2⟩ {}).Avoids Stop.IsBinding := by
  have hn : returnsName ∉ counting.names := by decide +kernel
  have h : (counting.checkIsolated .empty).isOk = true := by decide +kernel
  exact ⟨hn, h, (binding_sound hn h ⟨1000, 2⟩).1⟩

end Program

end ObjectLang
