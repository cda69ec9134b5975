import ObjectLang.Program.Encode
import ObjectLang.Proofs.Json.RoundTrip

/-!
# Nested values and the limit of a reader

A reader with a limit stops where a text opens too many containers within one another. A value that
is read back by a reader without a limit is read back within a limit exactly if its own nesting is
not above it.
-/

namespace ObjectLang

namespace Json

mutual

/-- How many containers lie within one another. -/
def depth : Json → Nat
  | .array items => depthOfItems items + 1
  | .object members => depthOfMembers members + 1
  | _ => 0

def depthOfItems : List Json → Nat
  | [] => 0
  | j :: rest => max j.depth (depthOfItems rest)

def depthOfMembers : List (String × Json) → Nat
  | [] => 0
  | (_, j) :: rest => max j.depth (depthOfMembers rest)

end

/-- An object that names a kind of tree is one container around what it holds. -/
theorem depth_variant (tag : String) (payload : Json) :
    (variant tag payload).depth = payload.depth + 1 := by
  rw [variant, depth, depthOfMembers, depthOfMembers, Nat.max_zero]

theorem le_nesting (tokens : List JsonToken) : ∀ n, n ≤ nesting n tokens := by
  induction tokens with
  | nil => exact fun n => Nat.le_refl n
  | cons token rest ih =>
    intro n
    cases token with
    | mark c =>
      have hopened := ih (n + 1)
      have hsame := ih n
      rw [nesting]
      split_ifs <;> omega
    | string s => exact ih n
    | word cs => exact ih n

/-- After the end of a container one container less is open. -/
theorem nesting_close {c : Char} (h : c = ']' ∨ c = '\x7d') (n : Nat) (rest : List JsonToken) :
    nesting (n + 1) (.mark c :: rest) = max (n + 1) (nesting n rest) := by
  rcases h with rfl | rfl <;> rfl

theorem nesting_open {c : Char} (h : c = '[' ∨ c = '\x7b') (n : Nat) (rest : List JsonToken) :
    nesting n (.mark c :: rest) = nesting (n + 1) rest := by
  rw [nesting, if_pos h]

mutual

/-- The tokens of a value open what the value nests, and close all of it again. -/
theorem nesting_tokens : ∀ (j : Json) (n : Nat) (rest : List JsonToken),
    nesting n (j.tokens ++ rest) = max (n + j.depth) (nesting n rest)
  | .null, n, rest => (Nat.max_eq_right (le_nesting rest n)).symm
  | .bool true, n, rest => (Nat.max_eq_right (le_nesting rest n)).symm
  | .bool false, n, rest => (Nat.max_eq_right (le_nesting rest n)).symm
  | .number _, n, rest => (Nat.max_eq_right (le_nesting rest n)).symm
  | .string _, n, rest => (Nat.max_eq_right (le_nesting rest n)).symm
  | .array items, n, rest => by
    rw [tokens, List.cons_append, nesting_open (.inl rfl), List.append_assoc,
      nesting_tokensOfItems, List.singleton_append, nesting_close (.inl rfl), depth]
    omega
  | .object members, n, rest => by
    rw [tokens, List.cons_append, nesting_open (.inr rfl), List.append_assoc,
      nesting_tokensOfMembers, List.singleton_append, nesting_close (.inr rfl), depth]
    omega

theorem nesting_tokensOfItems : ∀ (items : List Json) (n : Nat) (rest : List JsonToken),
    nesting n (tokensOfItems items ++ rest) = max (n + depthOfItems items) (nesting n rest)
  | [], n, rest => (Nat.max_eq_right (le_nesting rest n)).symm
  | [j], n, rest => by
    rw [tokensOfItems, nesting_tokens j, depthOfItems, depthOfItems, Nat.max_zero]
  | j :: next :: items, n, rest => by
    have hrest := nesting_tokensOfItems (next :: items) n rest
    rw [tokensOfItems, List.append_assoc, nesting_tokens j, depthOfItems]
    show max _ (nesting n (tokensOfItems (next :: items) ++ rest)) = _
    omega

theorem nesting_tokensOfMembers :
    ∀ (members : List (String × Json)) (n : Nat) (rest : List JsonToken),
    nesting n (tokensOfMembers members ++ rest) = max (n + depthOfMembers members) (nesting n rest)
  | [], n, rest => (Nat.max_eq_right (le_nesting rest n)).symm
  | [(name, j)], n, rest => by
    show nesting n (j.tokens ++ rest) = _
    rw [nesting_tokens j, depthOfMembers, depthOfMembers, Nat.max_zero]
  | (name, j) :: next :: members, n, rest => by
    have hrest := nesting_tokensOfMembers (next :: members) n rest
    show nesting n ((j.tokens ++ .mark ',' :: tokensOfMembers (next :: members)) ++ rest) = _
    rw [List.append_assoc, nesting_tokens j, depthOfMembers]
    show max _ (nesting n (tokensOfMembers (next :: members) ++ rest)) = _
    omega

end

/-- A value is read back from its text exactly if it nests no deeper than the reader goes. -/
theorem parseWithin?_compact {j : Json} (h : j.Plain) (limit : Nat) :
    parseWithin? limit j.compact = if j.depth ≤ limit then some j else none := by
  have hdepth : nesting 0 j.tokens = j.depth := by
    have hnesting := nesting_tokens j 0 []
    rw [List.append_nil, nesting] at hnesting
    omega
  have hread := parse?_compact h
  rw [parse?, scan_compact h, Option.bind_some] at hread
  rw [parseWithin?, scan_compact h, Option.bind_some, hdepth, hread]

end Json

end ObjectLang
