import ObjectLang.Proofs.Eval.Charging
import ObjectLang.Proofs.Eval.Trimming
import ObjectLang.Proofs.Program.Isolated
import ObjectLang.Proofs.Typed.Ungrouped

/-!
# What declared types and parentheses change

Declared types are for the checker only: a program without them runs in the same way, step by step.
Parentheses are for the reader only: a program without them is checked to the same types, and runs
in the same way with fewer steps. -/

namespace ObjectLang

namespace World

variable {w : World} (hw : w.owners = ∅)
include hw

/-- If no meter is charged for calls, then all functions are the host's. -/
theorem exists_host (id : FunctionId) : ∃ f, (w.function id).code = .host f := by
  have hcharged : w.ChargedIn ∅ := chargedIn_iff.mpr (hw ▸ Finset.Subset.refl _)
  have hnone := hcharged id
  cases hcode : (w.function id).code with
  | host f => exact ⟨f, rfl⟩
  | closure c => exact absurd (hnone c hcode) (Finset.notMem_empty c.meter)

/-- Where all functions are the host's there is nothing to be trimmed. -/
theorem trims_self (t : Trimming) : w.Trims t w := by
  have hfunctions : w.functions = w.functions.map (Function.trim t) := by
    refine Array.ext (Array.size_map ..).symm fun id hid _ => ?_
    obtain ⟨f, hhost⟩ := exists_host hw id
    rw [function_of_lt hid] at hhost
    rw [Array.getElem_map, Function.trim_of_host t hhost]
  refine ⟨rfl, hfunctions, rfl, rfl, rfl, fun m => Meter.Spares.refl, fun id => ?_⟩
  obtain ⟨f, hhost⟩ := exists_host hw id
  intro _ target htarget
  rw [Function.targets, hhost] at htarget
  exact absurd htarget List.not_mem_nil

end World

theorem isolatedWorld_trims (t : Trimming) : isolatedWorld.Trims t isolatedWorld :=
  World.trims_self (by decide) t

namespace Program

/-- Declared types do not influence a run. Without them a program succeeds with the same value or
fails with the same error, uses the same gas, prints and logs the same and leaves the same frames;
the functions that it leaves are without declared types as well. -/
theorem untyped_runs (p : Program) (limits : Limits) :
    (∀ (f : FrameId) (w : World), p.untyped.runWith limits f (w.trim { types := true }) =
      (p.runWith limits f w).mapState (World.trim { types := true })) ∧
    p.untyped.runIsolated limits {} =
      (p.runIsolated limits {}).mapState (World.trim { types := true }) := by
  have hgroups : ({ types := true } : Trimming).groups = false := rfl
  have hrun {f : FrameId} {w w' : World} (hw : w.Trims { types := true } w') :
      p.untyped.runWith limits f w' =
        (p.runWith limits f w).mapState (World.trim { types := true }) := by
    rw [untyped_eq_trim]
    have halike := p.runWith_trim (Trimming.fits_of_groups hgroups _) f limits hw nofun
    exact halike.eq_mapState fun w w' h => h.eq_trim hgroups
  constructor
  · intro f w
    exact hrun (World.trims_trim hgroups w)
  · rw [runIsolated_eq, runIsolated_eq]
    exact hrun (isolatedWorld_trims _)

/-- Parentheses are transparent, except around the targets of assignments. The checker makes the
same of a program without them, with the same type at every other node and the same errors. If the
program does not run out of gas, then without parentheses it has the same outcome, prints and logs
the same and leaves the same frames, with no more gas; the functions that it leaves are without
parentheses as well. -/
theorem ungrouped_runs (p : Program) (hp : ∀ target ∈ p.targets, target.isGroup = false) :
    (∀ f : FrameId, Check.program f p.ungrouped = TypedProgram.ungrouped <$> Check.program f p) ∧
    ∀ limits : Limits,
      (∀ (f : FrameId) (w w' : World), w.Trims { groups := true } w' →
        (p.runWith limits f w).Avoids Stop.IsGasExhausted →
        (p.runWith limits f w).Alike (World.Trims { groups := true })
          (p.ungrouped.runWith limits f w')) ∧
      ((p.runIsolated limits {}).Avoids Stop.IsGasExhausted →
        (p.runIsolated limits {}).Alike (World.Trims { groups := true })
          (p.ungrouped.runIsolated limits {})) := by
  refine ⟨fun f => Check.program_ungrouped f p fun _ => hp, fun limits => ⟨?_, ?_⟩⟩
  · intro f w w' hw hok
    exact p.runWith_trim (fun _ => hp) f limits hw fun _ => hok
  · intro hok
    rw [runIsolated_eq] at hok ⊢
    rw [runIsolated_eq]
    exact p.runWith_trim (fun _ => hp) 1 limits (isolatedWorld_trims _) fun _ => hok

/-- A function and a method with parentheses in their bodies, one of them around the receiver of an
assignment. -/
def bracing : Program :=
  ⟨[.define ⟨"twice", [⟨"n", some "Integer"⟩], some "Integer",
      [.ret (some (.group (.binary .add (.group (.variable "n")) (.variable "n"))))]⟩,
    .declare ⟨"counter", none, some (.group (.object none
      [⟨"count", none, some (.literal (.integer 1))⟩]
      [⟨"grow", [], none,
        [.assign (.property (.group (.variable "this")) "count")
          (.call "twice" [.group (.property (.variable "this") "count")])]⟩]))⟩,
    .expression (.method (.group (.variable "counter")) "grow" []),
    .expression (.call "log" [.property (.group (.variable "counter")) "count"])]⟩

/-- Without its parentheses the program takes seven steps less. -/
theorem ungrouped_runs_bracing :
    (∀ target ∈ bracing.targets, target.isGroup = false) ∧
    Check.program 1 bracing.ungrouped = TypedProgram.ungrouped <$> Check.program 1 bracing ∧
    (Check.program 1 bracing isolatedTypes).isOk = true ∧
    (bracing.runIsolated ⟨30, 2⟩ {}).Avoids Stop.IsGasExhausted ∧
    (bracing.runIsolated ⟨30, 2⟩ {}).Alike (World.Trims { groups := true })
      (bracing.ungrouped.runIsolated ⟨30, 2⟩ {}) ∧
    ((bracing.runIsolated ⟨30, 2⟩ {}).state.meter 0).gas = 27 ∧
    ((bracing.ungrouped.runIsolated ⟨30, 2⟩ {}).state.meter 0).gas = 20 := by
  have hp : ∀ target ∈ bracing.targets, target.isGroup = false := by decide
  have hok : (bracing.runIsolated ⟨30, 2⟩ {}).Avoids Stop.IsGasExhausted := by decide +kernel
  obtain ⟨hcheck, hruns⟩ := ungrouped_runs bracing hp
  refine ⟨hp, hcheck 1, ?_, hok, (hruns ⟨30, 2⟩).2 hok, ?_, ?_⟩
  · decide +kernel
  · decide +kernel
  · decide +kernel

end Program

end ObjectLang
