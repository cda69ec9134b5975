import ObjectLang.Json.Reader
import ObjectLang.Json.Writer
import ObjectLang.Proofs.Decimal.Reading

/-!
# Cutting written values into tokens

The text of a value is cut into the tokens of the value: a word for a number, `true`, `false` or
`null`, a string token for a string with its escapes undone, and marks between the parts of arrays
and objects. A word ends only at what follows it, so what is said of a text is said of the text
followed by another one, which has to be empty or start with a mark.
-/

namespace ObjectLang

/-! ## Tokens of values -/

namespace Json

mutual

/-- The tokens of a value. -/
def tokens : Json → List JsonToken
  | .null => [.word ['n', 'u', 'l', 'l']]
  | .bool true => [.word ['t', 'r', 'u', 'e']]
  | .bool false => [.word ['f', 'a', 'l', 's', 'e']]
  | .number n => [.word n.text.toList]
  | .string s => [.string s]
  | .array items => .mark '[' :: (tokensOfItems items ++ [.mark ']'])
  | .object members => .mark '\x7b' :: (tokensOfMembers members ++ [.mark '\x7d'])

/-- The tokens of the items of an array, with commas between the items. -/
def tokensOfItems : List Json → List JsonToken
  | [] => []
  | [j] => j.tokens
  | j :: next :: rest => j.tokens ++ .mark ',' :: tokensOfItems (next :: rest)

/-- The tokens of the members of an object, with commas between the members. -/
def tokensOfMembers : List (String × Json) → List JsonToken
  | [] => []
  | [(name, j)] => .string name :: .mark ':' :: j.tokens
  | (name, j) :: next :: rest =>
    .string name :: .mark ':' :: (j.tokens ++ .mark ',' :: tokensOfMembers (next :: rest))

end

end Json

namespace JsonToken

/-! ## Scanning from a state -/

/-- The tokens that are cut from the text on, in a state. -/
def scanFrom (state : State) : List Char → Option (List JsonToken)
  | [] => finish state
  | c :: cs => do
    let (state, tokens) ← step state c
    return tokens ++ (← scanFrom state cs)

/-- The tokens so far stay in front of the tokens that follow. -/
theorem foldlM_stepAll (cs : List Char) (state : State) (seen : List JsonToken) :
    (do let (state, tokens) ← cs.foldlM stepAll (state, seen)
        return tokens.reverse ++ (← finish state)) =
      (scanFrom state cs).map (seen.reverse ++ ·) := by
  induction cs generalizing state seen with
  | nil =>
    rw [scanFrom]
    show (finish state).bind (fun tokens => some (seen.reverse ++ tokens)) = _
    cases finish state <;> rfl
  | cons c rest ih =>
    rw [scanFrom, List.foldlM_cons, stepAll]
    cases step state c with
    | none => rfl
    | some result =>
      obtain ⟨state', tokens⟩ := result
      have hrest := ih state' (tokens.reverse ++ seen)
      rw [List.reverse_append, List.reverse_reverse] at hrest
      refine hrest.trans ?_
      show _ = Option.map _ ((scanFrom state' rest).bind fun more => some (tokens ++ more))
      cases scanFrom state' rest with
      | none => rfl
      | some more => exact congrArg some (List.append_assoc _ _ _)

theorem scan_eq (cs : List Char) : scan cs = scanFrom .between cs := by
  have h := foldlM_stepAll cs .between []
  rw [List.reverse_nil] at h
  refine h.trans ?_
  cases scanFrom .between cs <;> rfl

/-- A character that completes tokens. -/
theorem scanFrom_cons {state state' : State} {c : Char} {tokens : List JsonToken}
    (h : step state c = some (state', tokens)) (rest : List Char) :
    scanFrom state (c :: rest) = (scanFrom state' rest).map (tokens ++ ·) := by
  rw [scanFrom, h]
  show (scanFrom state' rest).bind (fun more => some (tokens ++ more)) = _
  cases scanFrom state' rest <;> rfl

/-- A character that completes no token. -/
theorem scanFrom_silent {state state' : State} {c : Char} (h : step state c = some (state', []))
    (rest : List Char) : scanFrom state (c :: rest) = scanFrom state' rest := by
  rw [scanFrom_cons h]
  cases scanFrom state' rest <;> rfl

/-- What may follow a word: nothing, or a mark. -/
def Delimited (rest : List Char) : Prop := ∀ c ∈ rest.head?, isMark c = true

theorem delimited_cons {c : Char} (h : isMark c = true) (rest : List Char) :
    Delimited (c :: rest) := by
  intro c' hc'
  cases hc'
  exact h

theorem isBlank_of_isMark {c : Char} (h : isMark c = true) : isBlank c = false := by
  by_contra hne
  have hblank : isBlank c = true := by simpa using hne
  simp only [isBlank, Bool.or_eq_true, beq_iff_eq] at hblank
  rcases hblank with ((rfl | rfl) | rfl) | rfl <;> exact absurd h (by decide)

theorem start_mark {c : Char} (h : isMark c = true) : start c = (.between, [.mark c]) := by
  rw [start, if_neg (by simp [isBlank_of_isMark h]), if_pos h]

/-- A mark is a token by itself. -/
theorem scanFrom_mark {c : Char} (h : isMark c = true) (rest : List Char) :
    scanFrom .between (c :: rest) = (scanFrom .between rest).map ([.mark c] ++ ·) :=
  scanFrom_cons (by rw [step, start_mark h]) rest

/-- The text is cut into the tokens, whatever follows it. -/
def Scans (cs : List Char) (tokens : List JsonToken) : Prop :=
  ∀ rest, Delimited rest →
    scanFrom .between (cs ++ rest) = (scanFrom .between rest).map (tokens ++ ·)

/-! ## Words -/

/-- What may stand in a word. -/
def IsWordChar (c : Char) : Prop := isBlank c = false ∧ isMark c = false ∧ c ≠ '\"'

instance (c : Char) : Decidable (IsWordChar c) := inferInstanceAs (Decidable (_ ∧ _ ∧ _))

theorem step_inWord {c : Char} (h : IsWordChar c) (seen : List Char) :
    step (.inWord seen) c = some (.inWord (c :: seen), []) := by
  obtain ⟨hblank, hmark, hquote⟩ := h
  rw [step, if_neg (by simp [hblank, hmark, hquote])]

theorem scanFrom_inWord {cs : List Char} (hcs : ∀ c ∈ cs, IsWordChar c) (seen : List Char)
    {rest : List Char} (hrest : Delimited rest) :
    scanFrom (.inWord seen) (cs ++ rest) =
      (scanFrom .between rest).map ([.word (seen.reverse ++ cs)] ++ ·) := by
  induction cs generalizing seen with
  | nil =>
    rw [List.nil_append, List.append_nil]
    cases rest with
    | nil => rfl
    | cons c rest =>
      have hmark : isMark c = true := hrest c rfl
      have hstep : step (.inWord seen) c =
          some (.between, [.word seen.reverse] ++ [.mark c]) := by
        rw [step, if_pos (.inr (.inl hmark)), start_mark hmark]
        rfl
      rw [scanFrom_cons hstep, scanFrom_mark hmark]
      cases scanFrom .between rest <;> rfl
  | cons c cs ih =>
    obtain ⟨hc, hcs⟩ := List.forall_mem_cons.mp hcs
    rw [List.cons_append, scanFrom_silent (step_inWord hc seen), ih hcs, List.reverse_cons,
      List.append_assoc, List.singleton_append]

/-- Characters that may stand in a word make up a word. -/
theorem scans_word {cs : List Char} (hne : cs ≠ []) (hcs : ∀ c ∈ cs, IsWordChar c) :
    Scans cs [.word cs] := by
  intro rest hrest
  obtain ⟨c, cs, rfl⟩ := List.exists_cons_of_ne_nil hne
  obtain ⟨⟨hblank, hmark, hquote⟩, hcs⟩ := List.forall_mem_cons.mp hcs
  have hstep : step .between c = some (.inWord [c], []) := by
    rw [step, start, if_neg (by simp [hblank]), if_neg (by simp [hmark]), if_neg hquote]
  rw [List.cons_append, scanFrom_silent hstep, scanFrom_inWord hcs [c] hrest]
  rfl

/-! ## Strings -/

theorem hexValue?_digitChar {n : Nat} (h : n < 16) : hexValue? (Nat.digitChar n) = some n := by
  have hall : ∀ n : Fin 16, hexValue? (Nat.digitChar n) = some n.val := by decide
  exact hall ⟨n, h⟩

theorem step_inCode {c : Char} {digit value missing : Nat} (h : hexValue? c = some digit)
    (hmissing : 1 < missing) (seen : List Char) :
    step (.inCode seen none value missing) c =
      some (.inCode seen none (value * 16 + digit) (missing - 1), []) := by
  rw [step, h]
  show (if missing ≤ 1 then _ else _) = _
  rw [if_neg (by omega)]
  rfl

/-- The escape of a control character stands for the character. -/
theorem scanFrom_control {c : Char} (h : c.toNat < 32) (seen rest : List Char) :
    scanFrom (.inString seen none) ('\\' :: 'u' :: '0' :: '0' :: (hexByte c.toNat ++ rest)) =
      scanFrom (.inString (c :: seen) none) rest := by
  have hhigh : hexValue? (Nat.digitChar (c.toNat / 16 % 16)) = some (c.toNat / 16 % 16) :=
    hexValue?_digitChar (Nat.mod_lt _ (by decide))
  have hlow : hexValue? (Nat.digitChar (c.toNat % 16)) = some (c.toNat % 16) :=
    hexValue?_digitChar (Nat.mod_lt _ (by decide))
  have hzero : hexValue? '0' = some 0 := by decide
  have hcode : (((0 * 16 + 0) * 16 + 0) * 16 + c.toNat / 16 % 16) * 16 + c.toNat % 16 =
      c.toNat := by
    omega
  -- Control characters are no surrogates, so the code ends the escape.
  have hend : endCode seen none c.toNat = some (.inString (c :: seen) none) := by
    unfold endCode
    rw [if_neg (by omega), if_neg (by omega), Char.ofNat_toNat]
  have hlast : step (.inCode seen none (((0 * 16 + 0) * 16 + 0) * 16 + c.toNat / 16 % 16) 1)
      (Nat.digitChar (c.toNat % 16)) = some (.inString (c :: seen) none, []) := by
    rw [step, hlow]
    show ((endCode seen none _).bind fun state => some (state, [])) = _
    rw [hcode, hend]
    rfl
  have hescape : step (.inString seen none) '\\' = some (.inEscape seen none, []) := rfl
  have hcodes : step (.inEscape seen none) 'u' = some (.inCode seen none 0 4, []) := rfl
  rw [hexByte, scanFrom_silent hescape, scanFrom_silent hcodes,
    scanFrom_silent (step_inCode hzero (by decide) seen),
    scanFrom_silent (step_inCode hzero (by decide) seen), List.cons_append,
    scanFrom_silent (step_inCode hhigh (by decide) seen), List.cons_append,
    scanFrom_silent hlast, List.nil_append]

/-- A short escape stands for one character. -/
theorem scanFrom_escaped {c e : Char} (h : escaped? c = some e) (hu : c ≠ 'u')
    (seen rest : List Char) :
    scanFrom (.inString seen none) ('\\' :: c :: rest) =
      scanFrom (.inString (e :: seen) none) rest := by
  have hescape : step (.inString seen none) '\\' = some (.inEscape seen none, []) := rfl
  have hstep : step (.inEscape seen none) c = some (.inString (e :: seen) none, []) := by
    rw [step, if_neg hu, h]
    rfl
  rw [scanFrom_silent hescape, scanFrom_silent hstep]

/-- What stands for a character in a string is read as the character. -/
theorem scanFrom_jsonCharEscape (c : Char) (seen rest : List Char) :
    scanFrom (.inString seen none) (jsonCharEscape c ++ rest) =
      scanFrom (.inString (c :: seen) none) rest := by
  unfold jsonCharEscape
  split
  · exact scanFrom_escaped rfl (by decide) seen rest
  · exact scanFrom_escaped rfl (by decide) seen rest
  · exact scanFrom_escaped rfl (by decide) seen rest
  · exact scanFrom_escaped rfl (by decide) seen rest
  · exact scanFrom_escaped rfl (by decide) seen rest
  · exact scanFrom_escaped rfl (by decide) seen rest
  · exact scanFrom_escaped rfl (by decide) seen rest
  · next hquote hbackslash _ _ _ _ _ =>
    by_cases hcontrol : c.toNat < 32
    · rw [if_pos hcontrol]
      exact scanFrom_control hcontrol seen rest
    · have hstep : step (.inString seen none) c = some (.inString (c :: seen) none, []) := by
        rw [step, if_neg hbackslash, if_neg (by decide), if_neg hquote, if_neg hcontrol]
      rw [if_neg hcontrol, List.singleton_append, scanFrom_silent hstep]

theorem scanFrom_inString (cs seen rest : List Char) :
    scanFrom (.inString seen none) (cs.flatMap jsonCharEscape ++ '\"' :: rest) =
      (scanFrom .between rest).map ([.string (String.ofList (seen.reverse ++ cs))] ++ ·) := by
  induction cs generalizing seen with
  | nil =>
    have hstep : step (.inString seen none) '\"' =
        some (.between, [.string (String.ofList seen.reverse)]) := rfl
    rw [List.flatMap_nil, List.nil_append, List.append_nil, scanFrom_cons hstep]
  | cons c cs ih =>
    rw [List.flatMap_cons, List.append_assoc, scanFrom_jsonCharEscape, ih, List.reverse_cons,
      List.append_assoc, List.singleton_append]

/-- A quoted string is one token, whatever stands in it and after it. -/
theorem scanFrom_jsonQuote (s : String) (rest : List Char) :
    scanFrom .between ((jsonQuote s).toList ++ rest) =
      (scanFrom .between rest).map ([.string s] ++ ·) := by
  have hchars : (jsonQuote s).toList ++ rest =
      '\"' :: (s.toList.flatMap jsonCharEscape ++ '\"' :: rest) := by
    rw [jsonQuote, String.toList_append, String.toList_append, String.toList_ofList]
    simp
  have hstep : step .between '\"' = some (.inString [] none, []) := rfl
  rw [hchars, scanFrom_silent hstep, scanFrom_inString, List.reverse_nil, List.nil_append,
    String.ofList_toList]

theorem scans_jsonQuote (s : String) : Scans (jsonQuote s).toList [.string s] :=
  fun rest _ => scanFrom_jsonQuote s rest

/-! ## Marks -/

section

variable {as bs : List Char} {ts us : List JsonToken}

theorem scans_nil : Scans [] [] := by
  intro rest _
  rw [List.nil_append]
  cases scanFrom .between rest <;> rfl

/-- Two texts with a mark between them. -/
theorem Scans.separated {c : Char} (hc : isMark c = true) (ha : Scans as ts) (hb : Scans bs us) :
    Scans (as ++ c :: bs) (ts ++ .mark c :: us) := by
  intro rest hrest
  have hfirst := ha (c :: (bs ++ rest)) (delimited_cons hc _)
  rw [List.append_assoc, List.cons_append, hfirst, scanFrom_mark hc, hb rest hrest]
  cases scanFrom .between rest with
  | none => rfl
  | some more => exact congrArg some (by simp)

/-- A text between two marks. -/
theorem Scans.enclosed (left right : Char) (hleft : isMark left = true)
    (hright : isMark right = true) (h : Scans as ts) :
    Scans (left :: (as ++ [right])) (.mark left :: (ts ++ [.mark right])) := by
  have hinner : Scans (as ++ [right]) (ts ++ [.mark right]) := h.separated hright scans_nil
  exact scans_nil.separated hleft hinner

end

end JsonToken

end ObjectLang
