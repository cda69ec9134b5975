import Mathlib.Data.List.Forall2
import Mathlib.Data.Set.Card
import Mathlib.Order.Interval.Finset.Nat
import ObjectLang.Proofs.TypeSystem.Acyclic
import ObjectLang.Ty.Text

/-!
# Writing acyclic types ends

The texts and forms of types are made with a bound on how deep members may nest. Written without a
bound, a type ends in exactly these texts and forms, provided that it is acyclic: on a way from a
type to parts no frame is met twice, so the nesting is less deep than there are frames with members.
-/

namespace ObjectLang.Ty

open Relation

variable {s : Store Ty}

/-! ## Writing without a bound -/

/-- Printing the type, part by part, ends with the text. -/
inductive Shows (s : Store Ty) : Ty → String → Prop where
  | predefined {ty : Ty} {name : String} (hname : ty.name? = some name) : Shows s ty name
  | function {params : List Ty} {returns : Ty} {texts : List String} {text : String}
      (hparams : List.Forall₂ (Shows s) params texts) (hreturns : Shows s returns text) :
    Shows s (.function params returns)
      ("Function(" ++ ", ".intercalate texts ++ ") -> " ++ text)
  | empty {o : FrameId} (hmembers : s.bindings o = []) : Shows s (.object o) "Object \x7b\x7d"
  | object {o : FrameId} {texts : List String} (hmembers : s.bindings o ≠ [])
      (htexts : List.Forall₂ (fun b text => Shows s b.2 text) (s.bindings o) texts) :
    Shows s (.object o) ("Object \x7b " ++
      ", ".intercalate (List.zipWith (fun b text => b.1 ++ ": " ++ text) (s.bindings o) texts) ++
      " \x7d")

/-- Writing the type in interchange form, part by part, ends with the form. -/
inductive Writes (s : Store Ty) : Ty → Json → Prop where
  | predefined {ty : Ty} {name : String} (hname : ty.name? = some name) :
    Writes s ty (.string name)
  | function {params : List Ty} {returns : Ty} {forms : List Json} {form : Json}
      (hparams : List.Forall₂ (Writes s) params forms) (hreturns : Writes s returns form) :
    Writes s (.function params returns) (.object [("params", .array forms), ("returns", form)])
  | object {o : FrameId} {forms : List Json}
      (hforms : List.Forall₂ (fun b form => Writes s b.2 form) (s.bindings o) forms) :
    Writes s (.object o) (.object
      [("members", .object (List.zipWith (fun b form => (b.1, form)) (s.bindings o) forms))])

/-! ## How deep members nest -/

/-- The frames with members that are met on the ways from the members of an object type to parts. -/
def nested (s : Store Ty) (o : FrameId) : Set FrameId :=
  {p | s.bindings p ≠ [] ∧ TransGen (Part s) (.object p) (.object o)}

/-- How deep members may nest in those of an object type. -/
noncomputable def height (s : Store Ty) (o : FrameId) : Nat := (nested s o).ncard

theorem nested_subset (s : Store Ty) (o : FrameId) : nested s o ⊆ Set.Iio s.size :=
  fun _ hp => Store.lt_size_of_bindings hp.1

theorem finite_nested (s : Store Ty) (o : FrameId) : (nested s o).Finite :=
  (Set.finite_Iio s.size).subset (nested_subset s o)

/-- Members of members nest less deep. -/
theorem height_lt {o p : FrameId} (h : (Ty.object o).Acyclic s) (hmembers : s.bindings p ≠ [])
    (hpart : TransGen (Part s) (.object p) (.object o)) : height s p < height s o := by
  have hp : (Ty.object p).Acyclic s := h.parts hpart.to_reflTransGen
  refine Set.ncard_lt_ncard ⟨fun q hq => ?_, fun hsub => ?_⟩ (finite_nested s o)
  · exact ⟨hq.1, hq.2.trans hpart⟩
  · have hself : p ∈ nested s p := hsub ⟨hmembers, hpart⟩
    exact hp.not_part hself.2

/-- There are more frames than members can nest. -/
theorem height_lt_size {o : FrameId} (h : (Ty.object o).Acyclic s) (hmembers : s.bindings o ≠ []) :
    height s o < s.size := by
  have hcard : (Set.Iio s.size).ncard = s.size := by
    rw [Set.ncard_eq_toFinset_card', Set.toFinset_Iio, Nat.card_Iio]
  rw [← hcard]
  refine Set.ncard_lt_ncard ⟨nested_subset s o, fun hsub => ?_⟩ (Set.finite_Iio s.size)
  have hself : o ∈ nested s o := hsub (Store.lt_size_of_bindings hmembers)
  exact h.not_part hself.2

/-- What a member is about nests less deep than the members. -/
theorem height_lt_of_member {o p : FrameId} (h : (Ty.object o).Acyclic s) {b : String × Ty}
    (hb : b ∈ s.bindings o) (hp : p ∈ b.2.objects) (hmembers : s.bindings p ≠ []) :
    height s p < height s o := by
  have hpart : ReflTransGen (Part s) (.object p) b.2 := part_of_mem_objects b.2 hp
  exact height_lt h hmembers (TransGen.tail' hpart (.member hb))

/-! ## Texts -/

section

variable {object : FrameId → String}

mutual

/-- Printing a type ends if printing the object types in it does. -/
theorem shows_textWith : ∀ ty : Ty, (∀ o ∈ ty.objects, Shows s (.object o) (object o)) →
    Shows s ty (ty.textWith object)
  | .function params returns, h => by
    rw [objects] at h
    rw [textWith]
    have hparams := shows_textsWith params fun o ho => h o (List.mem_append_left _ ho)
    have hreturns := shows_textWith returns fun o ho => h o (List.mem_append_right _ ho)
    exact .function hparams hreturns
  | .object o, h => by
    rw [textWith]
    exact h o List.mem_cons_self
  | .any, _ | .nil, _ | .boolean, _ | .integer, _ | .decimal, _ | .string, _ | .comparable, _
  | .equatable, _ | .iterable, _ => .predefined rfl

theorem shows_textsWith : ∀ tys : List Ty,
    (∀ o ∈ objectsOf tys, Shows s (.object o) (object o)) →
    List.Forall₂ (Shows s) tys (textsWith object tys)
  | [], _ => .nil
  | ty :: rest, h => by
    rw [objectsOf] at h
    rw [textsWith]
    have hty := shows_textWith ty fun o ho => h o (List.mem_append_left _ ho)
    exact .cons hty (shows_textsWith rest fun o ho => h o (List.mem_append_right _ ho))

end

end

theorem objectText_of_empty {o : FrameId} (h : s.bindings o = []) (n : Nat) :
    objectText s n o = "Object \x7b\x7d" := by
  cases n with
  | zero =>
    unfold objectText
    rw [h]
  | succ n =>
    unfold objectText
    rw [h]

theorem objectText_succ {o : FrameId} (h : s.bindings o ≠ []) (n : Nat) :
    objectText s (n + 1) o = "Object \x7b " ++ ", ".intercalate
      ((s.bindings o).map fun b => b.1 ++ ": " ++ textWith (objectText s n) b.2) ++ " \x7d" := by
  obtain ⟨b, rest, hbindings⟩ := List.exists_cons_of_ne_nil h
  unfold objectText
  rw [hbindings]

section

variable {object : FrameId → Json}

mutual

/-- Writing a type ends if writing the object types in it does. -/
theorem writes_jsonWith : ∀ ty : Ty, (∀ o ∈ ty.objects, Writes s (.object o) (object o)) →
    Writes s ty (ty.jsonWith object)
  | .function params returns, h => by
    rw [objects] at h
    rw [jsonWith]
    have hparams := writes_jsonsWith params fun o ho => h o (List.mem_append_left _ ho)
    have hreturns := writes_jsonWith returns fun o ho => h o (List.mem_append_right _ ho)
    exact .function hparams hreturns
  | .object o, h => by
    rw [jsonWith]
    exact h o List.mem_cons_self
  | .any, _ | .nil, _ | .boolean, _ | .integer, _ | .decimal, _ | .string, _ | .comparable, _
  | .equatable, _ | .iterable, _ => .predefined rfl

theorem writes_jsonsWith : ∀ tys : List Ty,
    (∀ o ∈ objectsOf tys, Writes s (.object o) (object o)) →
    List.Forall₂ (Writes s) tys (jsonsWith object tys)
  | [], _ => .nil
  | ty :: rest, h => by
    rw [objectsOf] at h
    rw [jsonsWith]
    have hty := writes_jsonWith ty fun o ho => h o (List.mem_append_left _ ho)
    exact .cons hty (writes_jsonsWith rest fun o ho => h o (List.mem_append_right _ ho))

end

end

/-- The form of an acyclic object type is complete if the bound is beyond its height. -/
theorem writes_objectJson {o : FrameId} (h : (Ty.object o).Acyclic s) {n : Nat}
    (hn : s.bindings o ≠ [] → height s o < n) : Writes s (.object o) (objectJson s n o) := by
  induction n generalizing o with
  | zero =>
    have hmembers : s.bindings o = [] := by
      by_contra hne
      exact Nat.not_lt_zero _ (hn hne)
    have hforms : List.Forall₂ (fun b form => Writes s b.2 form) (s.bindings o) [] := by
      rw [hmembers]
      exact .nil
    have hwrites := Writes.object hforms
    rw [hmembers] at hwrites
    rw [objectJson]
    exact hwrites
  | succ n ih =>
    have hinner : ∀ b ∈ s.bindings o, Writes s b.2 (b.2.jsonWith (objectJson s n)) := by
      intro b hb
      have hmembers : s.bindings o ≠ [] := List.ne_nil_of_mem hb
      refine writes_jsonWith b.2 fun p hp => ?_
      have hpart : (Ty.object p).Acyclic s :=
        (h.part (.member hb)).parts (part_of_mem_objects b.2 hp)
      refine ih hpart fun hne => ?_
      have hlt := height_lt_of_member h hb hp hne
      have hle := hn hmembers
      omega
    have hforms := List.forall₂_map_right_iff.mpr (List.forall₂_same.mpr hinner)
    have hwrites := Writes.object hforms
    rw [List.zipWith_map_right, List.zipWith_self] at hwrites
    rw [objectJson]
    exact hwrites

/-- Writing an acyclic type ends, with the interchange form of the type. -/
theorem Acyclic.writes {ty : Ty} (h : ty.Acyclic s) : ty.Writes s (ty.toJson s) := by
  refine writes_jsonWith ty fun o ho => ?_
  have hobject := h.parts (part_of_mem_objects ty ho)
  exact writes_objectJson hobject fun hmembers => height_lt_size hobject hmembers

end ObjectLang.Ty
