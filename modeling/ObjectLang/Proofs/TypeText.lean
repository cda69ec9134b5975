import ObjectLang.Proofs.Check.Unmentioned

/-!
# Texts of types are unambiguous

The text of a type without object types can be read in one way only. It begins with a name or with
what opens the parameters of a function, and none of these words is the beginning of another one.
After each parameter a comma or the closing bracket shows whether there is one more. So the text
shows what the type is, and where it ends in a longer text, however function types are nested.

The checker reports a mismatch for types that differ only. So a report shows two different texts,
unless it is about object types: these differ by their frames, which are not shown.
-/

namespace ObjectLang

namespace Ty

variable {object object' : FrameId → String} {t u : Ty} {r r' : List Char}

/-! ## How texts begin -/

/-- The word that the text of a type begins with: its name, or what opens the parameters. -/
def opening (t : Ty) : String := t.name?.getD "Function("

/-- The words that texts of types begin with. -/
def openings : List String := "Function(" :: predefined.filterMap name?

theorem opening_mem (t : Ty) : t.opening ∈ openings := by
  cases t <;> simp [opening, openings, predefined, name?]

/-- None of the words is the beginning of another one. -/
theorem eq_of_isPrefix :
    ∀ a ∈ openings, ∀ b ∈ openings, a.toList <+: b.toList → a = b := by
  decide

/-- The first word shows where it ends. -/
theorem opening_append_inj (h : t.opening.toList ++ r = u.opening.toList ++ r') :
    t.opening = u.opening ∧ r = r' := by
  have hopening : t.opening = u.opening := by
    rcases List.append_eq_append_iff.mp h with ⟨rest, hu, -⟩ | ⟨rest, ht, -⟩
    · exact eq_of_isPrefix _ t.opening_mem _ u.opening_mem ⟨rest, hu.symm⟩
    · exact (eq_of_isPrefix _ u.opening_mem _ t.opening_mem ⟨rest, ht.symm⟩).symm
  rw [hopening] at h
  exact ⟨hopening, List.append_cancel_left h⟩

theorem opening_of_name? {name : String} (h : t.name? = some name) : t.opening = name := by
  rw [opening, h, Option.getD_some]

/-- The opening of parameters is no name of a type. -/
theorem name?_ne_opening (t : Ty) (params : List Ty) (returns : Ty) :
    t.name? ≠ some (function params returns).opening := by
  intro h
  have hfound : ofName? (function params returns).opening = none := by
    simp [opening, name?, ofName?, predefined]
  rw [ofName?_of_name? h] at hfound
  cases hfound

theorem textWith_of_name? {name : String} (h : t.name? = some name) :
    t.textWith object = name := by
  cases t <;> first | exact Option.some.inj h | cases h

/-! ## Parameters -/

/-- The characters of the texts of parameters. -/
def joined (object : FrameId → String) (ts : List Ty) : List Char :=
  (", ".intercalate (textsWith object ts)).toList

/-- The characters of the texts of further parameters. -/
def further (object : FrameId → String) : List Ty → List Char
  | [] => []
  | t :: ts => ',' :: ' ' :: ((t.textWith object).toList ++ further object ts)

theorem joined_cons (t : Ty) (ts : List Ty) :
    joined object (t :: ts) = (t.textWith object).toList ++ further object ts := by
  induction ts generalizing t with
  | nil => simp [joined, textsWith, further]
  | cons u us ih =>
    have hu := ih u
    rw [joined, textsWith] at hu
    rw [joined, textsWith, textsWith, String.intercalate_cons_cons, String.toList_append,
      String.toList_append, hu, List.append_assoc]
    rfl

theorem textWith_function_append (params : List Ty) (returns : Ty) (r : List Char) :
    ((function params returns).textWith object).toList ++ r =
      (function params returns).opening.toList ++ (joined object params ++
        ')' :: (" -> ".toList ++ ((returns.textWith object).toList ++ r))) := by
  rw [textWith]
  simp [joined, opening, name?]

/-! ## Reading -/

/-- A text that begins with a name is the name. -/
theorem name_append_inj {name : String} (hname : t.name? = some name) (hu : u.objects = [])
    (h : (t.textWith object).toList ++ r = (u.textWith object').toList ++ r') :
    t = u ∧ r = r' := by
  rw [textWith_of_name? hname, ← opening_of_name? hname] at h
  cases hother : u.name? with
  | some other =>
    rw [textWith_of_name? hother, ← opening_of_name? hother] at h
    obtain ⟨hopening, hrest⟩ := opening_append_inj h
    rw [opening_of_name? hname, opening_of_name? hother] at hopening
    rw [← hopening] at hother
    have hsame := (ofName?_of_name? hname).symm.trans (ofName?_of_name? hother)
    exact ⟨Option.some.inj hsame, hrest⟩
  | none =>
    cases u with
    | function params returns =>
      rw [textWith_function_append] at h
      have hopening := (opening_append_inj h).1
      rw [opening_of_name? hname] at hopening
      exact absurd (hopening ▸ hname) (name?_ne_opening t params returns)
    | object o => cases hu
    | _ => cases hother

/-- No text of a type begins with a closing bracket. -/
theorem textWith_append_ne (ht : t.objects = []) :
    (t.textWith object).toList ++ r ≠ ')' :: r' := by
  cases t with
  | object o => cases ht
  | function params returns =>
    rw [textWith_function_append]
    simp [opening, name?]
  | _ => simp [textWith]

mutual

/-- A text that begins with that of a type shows which type it is, and what comes after it. -/
theorem textWith_append_inj : ∀ {t u : Ty} {r r' : List Char}, t.objects = [] → u.objects = [] →
    (t.textWith object).toList ++ r = (u.textWith object').toList ++ r' → t = u ∧ r = r'
  | .function params returns, .function params' returns', r, r', ht, hu, h => by
    obtain ⟨htparams, htreturns⟩ := List.append_eq_nil_iff.mp ht
    obtain ⟨huparams, hureturns⟩ := List.append_eq_nil_iff.mp hu
    rw [textWith_function_append, textWith_function_append] at h
    obtain ⟨-, h⟩ := opening_append_inj h
    obtain ⟨hparams, h⟩ := joined_append_inj htparams huparams h
    obtain ⟨hreturns, hrest⟩ :=
      textWith_append_inj htreturns hureturns (List.append_cancel_left h)
    exact ⟨by rw [hparams, hreturns], hrest⟩
  | .function _ _, .object _, _, _, _, hu, _ => by cases hu
  | .function _ _, .any, _, _, ht, _, h | .function _ _, .nil, _, _, ht, _, h
  | .function _ _, .boolean, _, _, ht, _, h | .function _ _, .integer, _, _, ht, _, h
  | .function _ _, .decimal, _, _, ht, _, h | .function _ _, .string, _, _, ht, _, h
  | .function _ _, .comparable, _, _, ht, _, h | .function _ _, .equatable, _, _, ht, _, h
  | .function _ _, .iterable, _, _, ht, _, h =>
    (name_append_inj rfl ht h.symm).imp Eq.symm Eq.symm
  | .object _, _, _, _, ht, _, _ => by cases ht
  | .any, _, _, _, _, hu, h | .nil, _, _, _, _, hu, h | .boolean, _, _, _, _, hu, h
  | .integer, _, _, _, _, hu, h | .decimal, _, _, _, _, hu, h | .string, _, _, _, _, hu, h
  | .comparable, _, _, _, _, hu, h | .equatable, _, _, _, _, hu, h
  | .iterable, _, _, _, _, hu, h => name_append_inj rfl hu h

theorem joined_append_inj : ∀ {ts us : List Ty} {r r' : List Char},
    objectsOf ts = [] → objectsOf us = [] →
    joined object ts ++ ')' :: r = joined object' us ++ ')' :: r' → ts = us ∧ r = r'
  | [], [], _, _, _, _, h => ⟨rfl, (List.cons.inj h).2⟩
  | [], u :: us, _, _, _, hus, h => by
    rw [joined_cons, List.append_assoc] at h
    exact absurd h.symm (textWith_append_ne (List.append_eq_nil_iff.mp hus).1)
  | t :: ts, [], _, _, hts, _, h => by
    rw [joined_cons, List.append_assoc] at h
    exact absurd h (textWith_append_ne (List.append_eq_nil_iff.mp hts).1)
  | t :: ts, u :: us, _, _, hts, hus, h => by
    obtain ⟨ht, hts⟩ := List.append_eq_nil_iff.mp hts
    obtain ⟨hu, hus⟩ := List.append_eq_nil_iff.mp hus
    rw [joined_cons, joined_cons, List.append_assoc, List.append_assoc] at h
    obtain ⟨hhead, h⟩ := textWith_append_inj ht hu h
    obtain ⟨htail, hrest⟩ := further_append_inj hts hus h
    exact ⟨by rw [hhead, htail], hrest⟩

theorem further_append_inj : ∀ {ts us : List Ty} {r r' : List Char},
    objectsOf ts = [] → objectsOf us = [] →
    further object ts ++ ')' :: r = further object' us ++ ')' :: r' → ts = us ∧ r = r'
  | [], [], _, _, _, _, h => ⟨rfl, (List.cons.inj h).2⟩
  | [], _ :: _, _, _, _, _, h | _ :: _, [], _, _, _, _, h =>
    -- one list goes on with a comma where the other one is closed
    absurd (List.cons.inj h).1 (by decide)
  | t :: ts, u :: us, _, _, hts, hus, h => by
    obtain ⟨ht, hts⟩ := List.append_eq_nil_iff.mp hts
    obtain ⟨hu, hus⟩ := List.append_eq_nil_iff.mp hus
    rw [further, further, List.cons_append, List.cons_append, List.cons_append, List.cons_append,
      List.append_assoc, List.append_assoc] at h
    have h := (List.cons.inj (List.cons.inj h).2).2
    obtain ⟨hhead, h⟩ := textWith_append_inj ht hu h
    obtain ⟨htail, hrest⟩ := further_append_inj hts hus h
    exact ⟨by rw [hhead, htail], hrest⟩

end

/-- The text of a type without object types does not depend on the frames. -/
theorem text_congr (ht : t.objects = []) (types types' : Store Ty) : t.text types = t.text types' :=
  textWith_congr (fun _ ho => ho.elim) t (.of_objects ht ∅)

/-- Types without object types are equal if their texts are. -/
theorem text_inj (ht : t.objects = []) (hu : u.objects = []) {types types' : Store Ty}
    (h : t.text types = u.text types') : t = u := by
  have hchars : (t.text types).toList ++ [] = (u.text types').toList ++ [] := by rw [h]
  exact (textWith_append_inj ht hu hchars).1

end Ty

namespace Check

open EStateM.Result

/-! ## Reports of mismatches -/

/-- However `x` ends, it does not report that a type does not fit itself. -/
def Sensible (_ : Option FrameId) {α : Type} (x : CheckM α) : Prop :=
  ∀ s, (x s).Avoids CheckError.MismatchesItself

theorem sensible : Kept Sensible where
  pure a := fun s => avoids_ok _ a s
  throw h := fun _ => avoids_error_iff.mpr h
  weaken _ h := h
  bind := by
    intro α β g x k hx hk s e t h
    rcases bind_run_eq_error_iff.mp h with h | ⟨a, s', -, h⟩
    · exact hx s e t h
    · exact hk a s' e t h
  read h := fun s => h s s
  opened p _ hk := fun s => hk s.size (s.newFrame p).2
  append _ _ _ := fun _ => avoids_ok _ _ _

/-- The checker, or one of the tests that it is made of, can fail with the error. -/
inductive Raises (e : CheckError) : Prop where
  | subtype {found expected : Ty} : found.requireSubtype expected = .error e → Raises e
  | operator {op : Operator} {left right : Ty} : op.resultTy left right = .error e → Raises e
  | expr {f : FrameId} {x : Expr} {s t : Store Ty} : expr f x s = .error e t → Raises e
  | stmt {f : FrameId} {x : Stmt} {s t : Store Ty} : stmt f x s = .error e t → Raises e
  | program {f : FrameId} {p : Program} {s t : Store Ty} : program f p s = .error e t → Raises e

theorem Raises.not_mismatchesItself {e : CheckError} (h : Raises e) : ¬ e.MismatchesItself := by
  cases h with
  | subtype h => exact Ty.not_mismatchesItself_of_requireSubtype h
  | operator h => exact (Operator.rejects_of_resultTy h).not_mismatchesItself
  | expr h => exact sensible.expr _ _ _ _ _ h
  | stmt h => exact sensible.stmt _ _ _ _ _ h
  | @program f p s t h =>
    have hprogram := sensible.bind (sensible.stmts f p.statements) fun body =>
      sensible.weaken _ (sensible.pure (TypedProgram.mk body))
    exact hprogram s e t h

end Check

/-- Two types without object types have the same text exactly if they are equal. So a mismatch of
two such types is never reported with one text for both. -/
theorem Ty.texts_unambiguous {t u : Ty} (ht : t.objects = []) (hu : u.objects = [])
    (types types' : Store Ty) :
    (t.text types = u.text types' ↔ t.beq u = true) ∧
      (Check.Raises (.typeMismatch t u) → t.text types ≠ u.text types') := by
  refine ⟨⟨fun h => ?_, fun h => ?_⟩, fun hraises h => ?_⟩
  · exact (beq_iff_eq t u).mpr (text_inj ht hu h)
  · rw [← (beq_iff_eq t u).mp h]
    exact text_congr ht types types'
  · exact hraises.not_mismatchesItself (text_inj ht hu h)

/-- A function that takes a function and a number. -/
def Ty.folding : Ty := .function [.function [.integer] .nil, .integer] .nil

/-- A function that takes a function of one more number. -/
def Ty.pairing : Ty := .function [.function [.integer, .integer] .nil] .nil

/-- The type frames of a host that offers two functions of these types. -/
def Store.hosting : Store Ty :=
  (isolatedTypes.append 1 "fold" .folding).append 1 "pair" .pairing

/-- An assignment of one to the other. -/
def Program.mixing : Program := ⟨[.assign (.variable "fold") (.variable "pair")]⟩

theorem Ty.texts_unambiguous_folding : folding.objects = [] ∧ pairing.objects = [] ∧
    Check.Raises (.typeMismatch folding pairing) ∧
    folding.text .hosting ≠ pairing.text .hosting := by
  have hfails : ¬ (Check.program 1 .mixing .hosting).Avoids (· = .typeMismatch folding pairing) := by
    decide +kernel
  have hraises : Check.Raises (.typeMismatch folding pairing) := by
    by_contra hnot
    refine hfails fun e s h he => hnot ?_
    exact .program (he ▸ h)
  exact ⟨rfl, rfl, hraises, (texts_unambiguous rfl rfl .hosting .hosting).2 hraises⟩

end ObjectLang
