import Mathlib.Data.Finset.Range
import Mathlib.Data.Finset.Card
import ObjectLang.Eval.Text
import ObjectLang.Proofs.Scope.Growth

/-!
# Printing does not reach its bound

The text of an object is made with a bound on how many objects may be open at once. An object that
is opened was not open before, and an object without a frame has no members, so every object that is
opened uses up one of the frames that are left. A larger bound therefore makes no difference, and the
text of a value inside of open objects (`World.textIn`) can be stated without one.
-/

namespace ObjectLang

/-! ## Parts of a text -/

/-- One text is a part of another. -/
def PartOf (text whole : String) : Prop := ∃ before after, whole = before ++ text ++ after

namespace PartOf

variable {text whole : String}

theorem refl (text : String) : PartOf text text := ⟨"", "", by simp⟩

theorem around (h : PartOf text whole) (left right : String) :
    PartOf text (left ++ whole ++ right) := by
  obtain ⟨before, after, rfl⟩ := h
  exact ⟨left ++ before, after ++ right, by simp only [String.append_assoc]⟩

theorem trans {middle : String} (h : PartOf text middle) (h' : PartOf middle whole) :
    PartOf text whole := by
  obtain ⟨before, after, rfl⟩ := h'
  exact h.around before after

/-- Every text of a list is a part of the joined text. -/
theorem intercalate {separator : String} {texts : List String} (h : text ∈ texts) :
    PartOf text (separator.intercalate texts) := by
  induction texts with
  | nil => exact absurd h List.not_mem_nil
  | cons first rest ih =>
    cases rest with
    | nil =>
      rw [List.mem_singleton] at h
      rw [h, String.intercalate_singleton]
      exact refl first
    | cons second others =>
      rw [String.intercalate_cons_cons]
      rcases List.mem_cons.mp h with rfl | h
      · have hfirst := (refl text).around "" (separator ++ separator.intercalate (second :: others))
        rwa [String.empty_append, ← String.append_assoc] at hfirst
      · have hrest := (ih h).around (first ++ separator) ""
        rwa [String.append_empty] at hrest

end PartOf

namespace World

variable {w : World} {opened : List FrameId}

/-! ## Bounds -/

/-- How many frames are not open. -/
def unopened (w : World) (opened : List FrameId) : Nat :=
  ((Finset.range w.store.size).filter (· ∉ opened)).card

theorem unopened_le_size (w : World) (opened : List FrameId) : w.unopened opened ≤ w.store.size :=
  (Finset.card_filter_le _ _).trans_eq (Finset.card_range _)

/-- Opening an object leaves fewer frames. -/
theorem unopened_cons_lt {members : FrameId} (hsize : members < w.store.size)
    (hopen : members ∉ opened) : w.unopened (members :: opened) < w.unopened opened := by
  refine Finset.card_lt_card ((Finset.ssubset_iff_of_subset ?_).mpr ⟨members, ?_, ?_⟩)
  · refine Finset.monotone_filter_right _ fun f _ hf => ?_
    exact fun hmem => hf (List.mem_cons_of_mem _ hmem)
  · exact Finset.mem_filter.mpr ⟨Finset.mem_range.mpr hsize, hopen⟩
  · exact fun hmem => (Finset.mem_filter.mp hmem).2 List.mem_cons_self

/-- The text of an object inside of open objects, with any two bounds that are large enough for the
frames that are left. -/
theorem objectText_eq {n m : Nat} (hn : w.unopened opened < n) (hm : w.unopened opened < m) :
    w.objectText n opened = w.objectText m opened := by
  induction n generalizing m opened with
  | zero => exact absurd hn (Nat.not_lt_zero _)
  | succ n ih =>
    cases m with
    | zero => exact absurd hm (Nat.not_lt_zero _)
    | succ m =>
      funext name members
      rw [objectText, objectText]
      by_cases hopen : members ∈ opened
      · rw [if_pos hopen, if_pos hopen]
      · rw [if_neg hopen, if_neg hopen]
        by_cases hsize : members < w.store.size
        · have hless := unopened_cons_lt hsize hopen
          rw [ih (m := m) (by omega) (by omega)]
        · rw [w.store.bindings_of_size_le (Nat.le_of_not_lt hsize)]
          rfl

/-- What is printed of a value is the same with every bound beyond the number of frames. -/
theorem print_eq (w : World) (v : Value) {n : Nat} (hn : w.store.size < n) :
    w.print v = v.textWith w.functionName (w.objectText n []) := by
  have hsize := w.unopened_le_size []
  rw [print, objectText_eq (m := n) (by omega) (by omega)]

/-! ## Texts inside of open objects -/

/-- The text of a value that is neither a list nor an object. -/
def leafText? (w : World) : Value → Option String
  | .nil => some "NIL"
  | .boolean value => some (if value then "TRUE" else "FALSE")
  | .integer value => some (toString value)
  | .decimal value => some value.text
  | .string value => some value
  | .function id => some ("DEF " ++ w.functionName id ++ "(?) DO ? END")
  | .list _ | .object _ _ => none

/-- The text of a list with the given texts of items. -/
def listText (texts : List String) : String := "[" ++ ", ".intercalate texts ++ "]"

/-- The text of an object whose members are not shown. -/
def placeholder (name : Option String) : String := objectHead name ++ " \x7b ... \x7d"

/-- The text of an object with the given names of members and their texts. -/
def shownObject (name : Option String) (names texts : List String) : String :=
  let members := List.zipWith (fun name text => name ++ " = `" ++ text ++ "`") names texts
  if members.isEmpty then objectHead name ++ " \x7b\x7d"
  else objectHead name ++ " \x7b " ++ ", ".intercalate members ++ " \x7d"

/-- The values of the members in a frame, in the order of their names. -/
def memberValues (w : World) (members : FrameId) : List Value :=
  (w.store.bindings members).map Prod.snd

/-- The text of a value that stands inside of the objects with the frames `opened`. -/
def textIn (w : World) (opened : List FrameId) (v : Value) : String :=
  v.textWith w.functionName (w.objectText (w.store.size + 1) opened)

theorem textIn_nil (w : World) (v : Value) : w.textIn [] v = w.print v := rfl

theorem textIn_leaf {v : Value} {text : String} (h : w.leafText? v = some text) :
    w.textIn opened v = text := by
  cases v <;> first | exact Option.some.inj h | exact nomatch h

theorem textIn_list (items : List Value) :
    w.textIn opened (.list items) = listText (items.map (w.textIn opened)) := by
  have htexts : Value.textsWith w.functionName (w.objectText (w.store.size + 1) opened) items =
      items.map (w.textIn opened) := by
    induction items with
    | nil => rfl
    | cons v rest ih => rw [Value.textsWith, ih, List.map_cons, textIn]
  rw [textIn, Value.textWith, htexts, listText]

theorem textIn_object_open {name : Option String} {members : FrameId} (h : members ∈ opened) :
    w.textIn opened (.object name members) = placeholder name := by
  rw [textIn, Value.textWith, objectText, if_pos h, placeholder]

theorem textIn_object {name : Option String} {members : FrameId} (h : members ∉ opened) :
    w.textIn opened (.object name members) =
      shownObject name (w.store.names members)
        ((w.memberValues members).map (w.textIn (members :: opened))) := by
  have htexts : ∀ b ∈ w.store.bindings members,
      b.2.textWith w.functionName (w.objectText w.store.size (members :: opened)) =
        w.textIn (members :: opened) b.2 := by
    intro b hb
    by_cases hsize : members < w.store.size
    · have hless := unopened_cons_lt hsize h
      have hle := w.unopened_le_size opened
      rw [textIn, objectText_eq (n := w.store.size) (by omega)]
      omega
    · rw [w.store.bindings_of_size_le (Nat.le_of_not_lt hsize)] at hb
      exact absurd hb List.not_mem_nil
  rw [textIn, Value.textWith, objectText, if_neg h, shownObject, memberValues, Store.names,
    List.map_map, List.zipWith_map, List.zipWith_self]
  rw [List.map_congr_left fun b hb => by rw [htexts b hb]]
  rfl

/-! ## Texts in texts -/

theorem partOf_listText {text : String} {texts : List String} (h : text ∈ texts) :
    PartOf text (listText texts) := (PartOf.intercalate h).around "[" "]"

theorem partOf_shownObject {name : Option String} {members : FrameId} {text : Value → String}
    {v : Value} (h : v ∈ w.memberValues members) :
    PartOf (text v)
      (shownObject name (w.store.names members) ((w.memberValues members).map text)) := by
  obtain ⟨b, hb, rfl⟩ := List.mem_map.mp h
  have hmember : b.1 ++ " = `" ++ text b.2 ++ "`" ∈
      (w.store.bindings members).map fun b => b.1 ++ " = `" ++ text b.2 ++ "`" :=
    List.mem_map_of_mem hb
  rw [shownObject, memberValues, Store.names, List.map_map, List.zipWith_map, List.zipWith_self]
  rw [if_neg (by simpa using List.ne_nil_of_mem hb)]
  exact ((PartOf.refl _).around _ _).trans ((PartOf.intercalate hmember).around _ _)

end World

end ObjectLang
