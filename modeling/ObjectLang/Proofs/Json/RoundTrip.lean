import Mathlib.Data.List.Nodup
import ObjectLang.Proofs.Json.Scanning

/-!
# Reading back written values

A value is read back from its text if its numbers are whole numbers that readers keep whole, and if
no object repeats a name. The text is cut into the tokens of the value, and the tokens are put
together again: wherever a value is expected, its tokens place the value.
-/

namespace ObjectLang

/-! ## Numbers -/

/-- A number other than zero is written without leading zeros. -/
theorem head?_digits {n : Nat} (h : n ≠ 0) : (digits n).head? ≠ some '0' := by
  induction n using Nat.strong_induction_on with
  | _ n ih =>
    rw [digits, Nat.toDigits_eq_if (by decide)]
    by_cases hlt : n < 10
    · rw [if_pos hlt]
      intro hzero
      rw [List.head?_cons, Option.some.injEq, Nat.digitChar_eq_zero] at hzero
      exact h hzero
    · have hne : Nat.toDigits 10 (n / 10) ≠ [] := Nat.toDigits_ne_nil
      rw [if_neg hlt, List.head?_append_of_ne_nil _ hne]
      exact ih (n / 10) (by omega) (by omega)

namespace JsonNumber

/-- What is counted further from `init` is not below `init`. -/
theorem le_ofDigitChars (cs : List Char) (init : Nat) : init ≤ Nat.ofDigitChars 10 cs init := by
  rw [Nat.ofDigitChars_eq_ofDigitChars_zero]
  have hpos : 0 < 10 ^ cs.length := Nat.pow_pos (by decide)
  have hle : init * 1 ≤ init * 10 ^ cs.length := Nat.mul_le_mul_left init hpos
  rw [Nat.mul_comm (10 ^ cs.length)]
  omega

/-- Digits whose number fits in the word are all taken. -/
theorem takeDigits_eq {cs : List Char} {init : Nat}
    (h : Nat.ofDigitChars 10 cs init < significandBound) :
    takeDigits init cs = (Nat.ofDigitChars 10 cs init, 0) := by
  induction cs generalizing init with
  | nil => rw [takeDigits, Nat.ofDigitChars_nil]
  | cons c rest ih =>
    rw [Nat.ofDigitChars_cons, Nat.mul_comm 10 init] at h ⊢
    have hnext := (le_ofDigitChars rest _).trans_lt h
    rw [takeDigits, if_pos hnext, ih h]

theorem isWhole_digits (n : Nat) : isWhole (digits n) = true := by
  have hempty : (digits n).isEmpty = false := List.isEmpty_eq_false_iff.mpr (digits_ne_nil n)
  have hall : (digits n).all Char.isDigit = true :=
    List.all_eq_true.mpr fun c hc => isDigit_of_mem_digits hc
  have hhead : ((digits n).length == 1 || (digits n).head? != some '0') = true := by
    by_cases hn : n = 0
    · rw [hn]
      decide
    · simp [head?_digits hn]
  rw [isWhole, isDigits, hempty, hall, hhead]
  rfl

theorem takeWhile_digits (n : Nat) : (digits n).takeWhile Char.isDigit = digits n :=
  List.takeWhile_eq_self_iff.mpr fun _ hc => isDigit_of_mem_digits hc

theorem dropWhile_digits (n : Nat) : (digits n).dropWhile Char.isDigit = [] :=
  List.dropWhile_eq_nil_iff.mpr fun _ hc => isDigit_of_mem_digits hc

/-- Whole numbers that readers keep whole. -/
def IsExact (n : Int) : Prop := -(2 ^ 63) ≤ n ∧ n < 2 ^ 64

/-- The characters of a whole number. -/
theorem toList_text (n : Int) :
    (JsonNumber.integer n).text.toList =
      if n < 0 then '-' :: digits n.natAbs else digits n.natAbs := by
  rw [text, Int.toString_eq_repr, Int.repr_eq_if]
  by_cases hn : n < 0
  · have habs : (-n).toNat = n.natAbs := by omega
    rw [if_pos hn, if_neg (by omega), habs, String.toList_append, Nat.toList_repr]
    rfl
  · have habs : n.toNat = n.natAbs := by omega
    rw [if_neg hn, if_pos (by omega), habs, Nat.toList_repr]
    rfl

/-- Whole numbers are read back from their digits. -/
theorem ofChars?_text {n : Int} (h : IsExact n) :
    ofChars? (JsonNumber.integer n).text.toList = some (.integer n) := by
  obtain ⟨hlow, hhigh⟩ := h
  have hbound : Nat.ofDigitChars 10 (digits n.natAbs) 0 < significandBound := by
    rw [ofDigitChars_digits, significandBound]
    omega
  have htake := takeDigits_eq hbound
  rw [ofDigitChars_digits] at htake
  rw [toList_text]
  by_cases hn : n < 0
  · have hrange : 0 < n.natAbs ∧ n.natAbs ≤ 2 ^ 63 := by omega
    have hvalue : -(n.natAbs : Int) = n := by omega
    rw [if_pos hn, ofChars?, takeWhile_digits, dropWhile_digits, readUnsigned?, isWhole_digits,
      htake]
    show (if 0 < n.natAbs ∧ n.natAbs ≤ 2 ^ 63 then
      some (JsonNumber.integer (-(n.natAbs : Int))) else _) = _
    rw [if_pos hrange, hvalue]
  · have hvalue : (n.natAbs : Int) = n := by omega
    have hminus : ∀ rest, digits n.natAbs ≠ '-' :: rest := by
      intro rest heq
      have hdigit : Char.isDigit '-' = true :=
        isDigit_of_mem_digits (heq ▸ List.mem_cons_self : '-' ∈ digits n.natAbs)
      exact absurd hdigit (by decide)
    rw [if_neg hn, ofChars?.eq_def]
    split
    · next rest heq => exact absurd heq (hminus rest)
    · rw [takeWhile_digits, dropWhile_digits, readUnsigned?, isWhole_digits, htake]
      show some (JsonNumber.integer (n.natAbs : Int)) = _
      rw [hvalue]

theorem isWordChar_of_mem_text {n : Int} {c : Char}
    (h : c ∈ (JsonNumber.integer n).text.toList) : c = '-' ∨ c.isDigit = true := by
  rw [toList_text] at h
  split at h
  · rcases List.mem_cons.mp h with h | h
    · exact .inl h
    · exact .inr (isDigit_of_mem_digits h)
  · exact .inr (isDigit_of_mem_digits h)

end JsonNumber

namespace Json

/-! ## Values that are read back -/

mutual

/-- Numbers are whole and keep whole, and no object repeats a name. -/
def Plain : Json → Prop
  | .number (.integer n) => JsonNumber.IsExact n
  | .number (.binary _ _) => False
  | .array items => PlainItems items
  | .object members => (members.map Prod.fst).Nodup ∧ PlainMembers members
  | _ => True

def PlainItems : List Json → Prop
  | [] => True
  | j :: rest => j.Plain ∧ PlainItems rest

def PlainMembers : List (String × Json) → Prop
  | [] => True
  | (_, j) :: rest => j.Plain ∧ PlainMembers rest

end

/-! ## Tokens of written values -/

open JsonToken

theorem isWordChar_number {n : Int} {c : Char} (h : c ∈ (JsonNumber.integer n).text.toList) :
    IsWordChar c := by
  have hne (x : Char) (hminus : '-' ≠ x) (hdigit : x.isDigit = false) : c ≠ x := by
    rcases JsonNumber.isWordChar_of_mem_text h with rfl | hc
    · exact hminus
    · exact Decimal.ne_of_isDigit hc hdigit
  refine ⟨?_, ?_, hne _ (by decide) (by decide)⟩
  · simp [isBlank, hne ' ' (by decide) (by decide),
      hne '\n' (by decide) (by decide), hne '\r' (by decide) (by decide),
      hne '\t' (by decide) (by decide)]
  · simp [isMark, hne '[' (by decide) (by decide),
      hne ']' (by decide) (by decide), hne '\x7b' (by decide) (by decide),
      hne '\x7d' (by decide) (by decide), hne ',' (by decide) (by decide),
      hne ':' (by decide) (by decide)]

theorem text_ne_nil (n : Int) : (JsonNumber.integer n).text.toList ≠ [] := by
  rw [JsonNumber.toList_text]
  split
  · exact List.cons_ne_nil _ _
  · exact digits_ne_nil _

/-- A word can be checked character by character. -/
theorem scans_word_of_all {cs : List Char} (hne : cs ≠ [])
    (hcs : cs.all (fun c => decide (IsWordChar c)) = true) : Scans cs [.word cs] :=
  scans_word hne fun c hc => of_decide_eq_true (List.all_eq_true.mp hcs c hc)

mutual

/-- The text of a value is cut into the tokens of the value. -/
theorem scans_compact : ∀ {j : Json}, j.Plain → Scans j.compact.toList j.tokens
  | .null, _ => scans_word_of_all (by decide) (by decide)
  | .bool true, _ => scans_word_of_all (by decide) (by decide)
  | .bool false, _ => scans_word_of_all (by decide) (by decide)
  | .number (.integer n), _ => by
    rw [compact, tokens]
    exact scans_word (text_ne_nil n) fun c hc => isWordChar_number hc
  | .number (.binary _ _), h => by
    rw [Plain] at h
    exact h.elim
  | .string s, _ => by
    rw [compact, tokens]
    exact scans_jsonQuote s
  | .array items, h => by
    rw [Plain] at h
    have hitems := (scans_items h).enclosed '[' ']' rfl rfl
    rw [compact, tokens, String.toList_append, String.toList_append, String.toList_intercalate]
    exact hitems
  | .object members, h => by
    rw [Plain] at h
    have hmembers := (scans_members h.2).enclosed '\x7b' '\x7d' rfl rfl
    rw [compact, tokens, String.toList_append, String.toList_append, String.toList_intercalate]
    exact hmembers

theorem scans_items : ∀ {items : List Json}, PlainItems items →
    Scans (List.intercalate [','] ((compactItems items).map String.toList)) (tokensOfItems items)
  | [], _ => by
    rw [compactItems, tokensOfItems]
    exact scans_nil
  | [j], h => by
    rw [PlainItems] at h
    rw [compactItems, compactItems, tokensOfItems, List.map_singleton, List.intercalate_singleton]
    exact scans_compact h.1
  | j :: next :: rest, h => by
    rw [PlainItems] at h
    have hrest := scans_items h.2
    rw [compactItems, List.map_cons] at hrest
    rw [compactItems, compactItems, tokensOfItems, List.map_cons, List.map_cons,
      List.intercalate_cons_cons, List.append_assoc]
    exact (scans_compact h.1).separated rfl hrest

theorem scans_members : ∀ {members : List (String × Json)}, PlainMembers members →
    Scans (List.intercalate [','] ((compactMembers members).map String.toList))
      (tokensOfMembers members)
  | [], _ => by
    rw [compactMembers, tokensOfMembers]
    exact scans_nil
  | [(name, j)], h => by
    rw [PlainMembers] at h
    rw [compactMembers, compactMembers, tokensOfMembers, List.map_singleton,
      List.intercalate_singleton, String.toList_append, String.toList_append, List.append_assoc]
    exact (scans_jsonQuote name).separated rfl (scans_compact h.1)
  | (name, j) :: next :: rest, h => by
    rw [PlainMembers] at h
    obtain ⟨name', j'⟩ := next
    have hrest := scans_members h.2
    rw [compactMembers, List.map_cons] at hrest
    have hmember := (scans_compact h.1).separated (c := ',') rfl hrest
    rw [compactMembers, compactMembers, tokensOfMembers, List.map_cons, List.map_cons,
      List.intercalate_cons_cons, String.toList_append, String.toList_append, List.append_assoc,
      List.append_assoc, List.append_assoc]
    exact (scans_jsonQuote name).separated rfl hmember

end

/-! ## Values of tokens -/

/-- The word of a number means the number. -/
theorem ofWord?_text {n : Int} (h : JsonNumber.IsExact n) :
    ofWord? (JsonNumber.integer n).text.toList = some (.number (.integer n)) := by
  have hne {cs : List Char} {c : Char} (hmem : c ∈ cs) (hminus : c ≠ '-')
      (hdigit : c.isDigit = false) : (JsonNumber.integer n).text.toList ≠ cs := by
    intro heq
    rcases JsonNumber.isWordChar_of_mem_text (heq ▸ hmem) with hc | hc
    · exact hminus hc
    · rw [hdigit] at hc
      cases hc
  rw [ofWord?, if_neg (hne (c := 'n') (by decide) (by decide) (by decide)),
    if_neg (hne (c := 't') (by decide) (by decide) (by decide)),
    if_neg (hne (c := 'f') (by decide) (by decide) (by decide)), JsonNumber.ofChars?_text h]
  rfl

/-- No value starts with the end of an array. -/
theorem exists_tokens_eq_cons (j : Json) :
    ∃ token rest, j.tokens = token :: rest ∧ token ≠ .mark ']' := by
  cases j with
  | bool b => cases b <;> exact ⟨_, _, rfl, by decide⟩
  | _ => exact ⟨_, _, rfl, by simp⟩

theorem step_valueOrEnd (stack : List Open) {token : JsonToken} (h : token ≠ .mark ']') :
    State.step ⟨stack, .valueOrEnd⟩ token = State.step ⟨stack, .value⟩ token := by
  show (if token = .mark ']' then close stack ']' else startValue stack token) = _
  rw [if_neg h]
  rfl

theorem insertMember_of_notMem {members : List (String × Json)} {name : String}
    (h : name ∉ members.map Prod.fst) (j : Json) :
    insertMember members name j = (name, j) :: members := by
  have hany : members.any (·.1 == name) = false := by
    rw [List.any_eq_false]
    intro member hmember heq
    exact h (eq_of_beq heq ▸ List.mem_map_of_mem hmember)
  rw [insertMember, hany]
  rfl

mutual

/-- Where a value is expected, the tokens of a value place it. -/
theorem foldlM_tokens : ∀ {j : Json}, j.Plain → ∀ (stack : List Open) (rest : List JsonToken),
    (j.tokens ++ rest).foldlM State.step ⟨stack, .value⟩ =
      (place stack j).bind fun state => rest.foldlM State.step state
  | .null, _, _, _ => rfl
  | .bool true, _, _, _ => rfl
  | .bool false, _, _, _ => rfl
  | .number (.integer n), h, stack, rest => by
    rw [Plain] at h
    show ((ofWord? (JsonNumber.integer n).text.toList).bind (place stack)).bind _ = _
    rw [ofWord?_text h]
    rfl
  | .number (.binary _ _), h, _, _ => by
    rw [Plain] at h
    exact h.elim
  | .string _, _, _, _ => rfl
  | .array items, h, stack, rest => by
    rw [Plain] at h
    show List.foldlM State.step ⟨.array [] :: stack, .valueOrEnd⟩
      ((tokensOfItems items ++ [.mark ']']) ++ rest) = _
    rw [List.append_assoc]
    cases items with
    | nil => rfl
    | cons j items =>
      have hitems := foldlM_items (List.cons_ne_nil _ _) h [] stack (.mark ']' :: rest)
      have hfirst : ∃ token more, tokensOfItems (j :: items) = token :: more ∧
          token ≠ .mark ']' := by
        obtain ⟨token, more, htokens, hne⟩ := j.exists_tokens_eq_cons
        cases items with
        | nil => exact ⟨token, more, by rw [tokensOfItems, htokens], hne⟩
        | cons next items =>
          exact ⟨token, _, by rw [tokensOfItems, htokens]; rfl, hne⟩
      obtain ⟨token, more, htokens, hne⟩ := hfirst
      -- Only the end of the array would tell the first item from the others.
      rw [htokens] at hitems ⊢
      rw [List.cons_append, List.foldlM_cons] at hitems ⊢
      rw [step_valueOrEnd _ hne]
      refine hitems.trans ?_
      show (place stack (.array ((j :: items).reverse ++ []).reverse)).bind _ = _
      rw [List.append_nil, List.reverse_reverse]
  | .object members, h, stack, rest => by
    rw [Plain] at h
    show List.foldlM State.step ⟨.members [] :: stack, .nameOrEnd⟩
      ((tokensOfMembers members ++ [.mark '\x7d']) ++ rest) = _
    rw [List.append_assoc]
    cases members with
    | nil => rfl
    | cons member members =>
      have hseen : ∀ name ∈ (member :: members).map Prod.fst,
          name ∉ ([] : List (String × Json)).map Prod.fst := fun _ _ => List.not_mem_nil
      have hmembers := foldlM_members (List.cons_ne_nil _ _) h.2 h.1 hseen stack
        (.mark '\x7d' :: rest)
      have hfirst : ∃ more, tokensOfMembers (member :: members) = .string member.1 :: more := by
        cases members <;> exact ⟨_, rfl⟩
      obtain ⟨more, htokens⟩ := hfirst
      rw [htokens] at hmembers ⊢
      refine hmembers.trans ?_
      show (place stack (.object ((member :: members).reverse ++ []).reverse)).bind _ = _
      rw [List.append_nil, List.reverse_reverse]

theorem foldlM_items : ∀ {items : List Json}, items ≠ [] → PlainItems items →
    ∀ (seen : List Json) (stack : List Open) (rest : List JsonToken),
    (tokensOfItems items ++ rest).foldlM State.step ⟨.array seen :: stack, .value⟩ =
      rest.foldlM State.step ⟨.array (items.reverse ++ seen) :: stack, .commaOrEnd⟩
  | [], hne, _, _, _, _ => absurd rfl hne
  | [j], _, h, seen, stack, rest => by
    rw [PlainItems] at h
    rw [tokensOfItems, foldlM_tokens h.1]
    rfl
  | j :: next :: items, _, h, seen, stack, rest => by
    rw [PlainItems] at h
    have hitems := foldlM_items (List.cons_ne_nil _ _) h.2 (j :: seen) stack rest
    rw [tokensOfItems, List.append_assoc, foldlM_tokens h.1, List.reverse_cons, List.append_assoc]
    exact hitems

theorem foldlM_members : ∀ {members : List (String × Json)}, members ≠ [] →
    PlainMembers members → (members.map Prod.fst).Nodup → ∀ {seen : List (String × Json)},
    (∀ name ∈ members.map Prod.fst, name ∉ seen.map Prod.fst) →
    ∀ (stack : List Open) (rest : List JsonToken),
    (tokensOfMembers members ++ rest).foldlM State.step ⟨.members seen :: stack, .name⟩ =
      rest.foldlM State.step ⟨.members (members.reverse ++ seen) :: stack, .commaOrEnd⟩
  | [], hne, _, _, _, _, _, _ => absurd rfl hne
  | [(name, j)], _, h, _, seen, hseen, stack, rest => by
    rw [PlainMembers] at h
    have hnew : name ∉ seen.map Prod.fst := hseen name List.mem_cons_self
    show List.foldlM State.step ⟨.named seen name :: stack, .value⟩ (j.tokens ++ rest) = _
    rw [foldlM_tokens h.1, place, insertMember_of_notMem hnew]
    rfl
  | (name, j) :: next :: members, _, h, hnodup, seen, hseen, stack, rest => by
    rw [PlainMembers] at h
    rw [List.map_cons, List.nodup_cons] at hnodup
    have hnew : name ∉ seen.map Prod.fst := hseen name List.mem_cons_self
    -- No name is met twice, so no member takes the place of another one.
    have hseen' : ∀ name' ∈ (next :: members).map Prod.fst,
        name' ∉ ((name, j) :: seen).map Prod.fst := by
      intro name' hname' hmem
      rcases List.mem_cons.mp hmem with rfl | hmem
      · exact hnodup.1 hname'
      · exact hseen name' (List.mem_cons_of_mem name hname') hmem
    have hmembers := foldlM_members (List.cons_ne_nil _ _) h.2 hnodup.2 hseen' stack rest
    show List.foldlM State.step ⟨.named seen name :: stack, .value⟩
      ((j.tokens ++ .mark ',' :: tokensOfMembers (next :: members)) ++ rest) = _
    rw [List.append_assoc, foldlM_tokens h.1, place, insertMember_of_notMem hnew,
      List.reverse_cons, List.append_assoc]
    exact hmembers

end

theorem scan_compact {j : Json} (h : j.Plain) : JsonToken.scan j.compact.toList = some j.tokens := by
  have hscans := scans_compact h [] (by simp [Delimited])
  rw [List.append_nil] at hscans
  rw [scan_eq, hscans]
  show some (j.tokens ++ []) = _
  rw [List.append_nil]

/-- A value is read back from its text. -/
theorem parse?_compact {j : Json} (h : j.Plain) : parse? j.compact = some j := by
  have htokens := foldlM_tokens h [] []
  rw [List.append_nil] at htokens
  rw [parse?, scan_compact h, Option.bind_some, ofTokens?, htokens]
  rfl

end Json

end ObjectLang
