import SdfShader.Json.Parser
import SdfShader.Proofs.Json.Grammar

/-!
# Parsing — the texts of a value

The text of a value is that of its tokens. No value has two numerals side by side, so the lexer
finds the tokens, and the parser builds the value from them; it takes the tokens of values and no
others. So a text has one value at most, and the parser finds it. Main statements:

* `tokens`, `IsText`: the tokens and the texts of a value;
* `parseValue_tokens`: the tokens of a value are parsed as the value;
* `eq_of_parseValue`: what is parsed as a value are its tokens;
* `parse?_eq_some_iff`: the value of a text.
-/

namespace SdfShader
namespace Json

/-! ## Tokens of a value -/

mutual

def tokens : Json → List Token
  | .null => [.null]
  | .bool b => [.bool b]
  | .number n => [.number n]
  | .string s => [.string s]
  | .array items => .openArray :: List.intercalate [.comma] (itemTokens items) ++ [.closeArray]
  | .object members =>
    .openObject :: List.intercalate [.comma] (memberTokens members) ++ [.closeObject]

def itemTokens : List Json → List (List Token)
  | [] => []
  | item :: items => tokens item :: itemTokens items

def memberTokens : List (Written × Json) → List (List Token)
  | [] => []
  | (key, value) :: members =>
    (.string key :: .colon :: tokens value) :: memberTokens members

end

/-- The texts of a value. -/
def IsText (value : Json) (text : String) : Prop :=
  Layout value.tokens text.toList

/-- Whether tokens can stand behind any value. -/
structure Follow (ts : List Token) : Prop where
  spaced : Spaced ts
  head : ∀ t ∈ ts.head?, t.isNumber = false

theorem Follow.nil : Follow [] where
  spaced := List.isChain_nil
  head := nofun

theorem Spaced.follow_cons {t : Token} {ts : List Token} (ht : t.isNumber = false)
    (h : Spaced ts) : Follow (t :: ts) where
  spaced := h.cons ht
  head := by
    rintro _ ⟨⟩
    exact ht

mutual

/-- What stands between two numerals of a value keeps them apart. -/
theorem spaced_tokens_append : ∀ (value : Json) {rest : List Token}, Follow rest →
    Spaced (value.tokens ++ rest)
  | .null, _, h | .bool _, _, h | .string _, _, h => by
      rw [tokens, List.singleton_append]
      exact h.spaced.cons rfl
  | .number n, _, h => by
      rw [tokens, List.singleton_append]
      -- The one token behind which not everything may stand.
      exact List.isChain_cons.2 ⟨fun next hnext _ => h.head next hnext, h.spaced⟩
  | .array items, _, h => by
      rw [tokens, List.cons_append, List.cons_append, List.append_assoc, List.singleton_append]
      exact (spaced_itemTokens_append items (h.spaced.follow_cons rfl)).cons rfl
  | .object members, _, h => by
      rw [tokens, List.cons_append, List.cons_append, List.append_assoc, List.singleton_append]
      exact (spaced_memberTokens_append members (h.spaced.follow_cons rfl)).cons rfl

theorem spaced_itemTokens_append : ∀ (items : List Json) {rest : List Token}, Follow rest →
    Spaced (List.intercalate [.comma] (itemTokens items) ++ rest)
  | [], _, h => by
      rw [itemTokens, List.intercalate_nil]
      exact h.spaced
  | [item], _, h => by
      rw [itemTokens, itemTokens, List.intercalate_singleton]
      exact spaced_tokens_append item h
  | item :: next :: items, _, h => by
      have hitems := spaced_itemTokens_append (next :: items) h
      rw [itemTokens] at hitems ⊢
      rw [itemTokens, List.intercalate_cons_cons, List.append_assoc, List.append_assoc]
      exact spaced_tokens_append item (hitems.follow_cons rfl)

theorem spaced_memberTokens_append : ∀ (members : List (Written × Json)) {rest : List Token},
    Follow rest → Spaced (List.intercalate [.comma] (memberTokens members) ++ rest)
  | [], _, h => by
      rw [memberTokens, List.intercalate_nil]
      exact h.spaced
  | [(key, value)], _, h => by
      rw [memberTokens, memberTokens, List.intercalate_singleton, List.cons_append,
        List.cons_append]
      exact ((spaced_tokens_append value h).cons rfl).cons rfl
  | (key, value) :: next :: members, _, h => by
      have hmembers := spaced_memberTokens_append (next :: members) h
      rw [memberTokens] at hmembers ⊢
      rw [memberTokens, List.intercalate_cons_cons, List.append_assoc, List.append_assoc,
        List.cons_append, List.cons_append]
      exact ((spaced_tokens_append value (hmembers.follow_cons rfl)).cons rfl).cons rfl

end

theorem spaced_tokens (value : Json) : Spaced value.tokens := by
  have happend := spaced_tokens_append value .nil
  rwa [List.append_nil] at happend

/-! ## The tokens of a value are parsed -/

theorem exists_tokens_eq (value : Json) : ∃ t ts, value.tokens = t :: ts ∧ t ≠ .closeArray := by
  cases value <;> simp [tokens]

/-- The first item begins what stands between the brackets. -/
theorem exists_intercalate_eq (item : Json) (items : List Json) :
    ∃ t ts, List.intercalate [.comma] (itemTokens (item :: items)) = t :: ts ∧
      t ≠ .closeArray := by
  rcases exists_tokens_eq item with ⟨t, ts, hts, hne⟩
  cases items with
  | nil =>
      exact ⟨t, ts, by simp [itemTokens, hts], hne⟩
  | cons next items =>
      exact ⟨t, _, by simp [itemTokens, hts]; rfl, hne⟩

theorem exists_memberTokens_eq (key : Written) (value : Json) (members : List (Written × Json)) :
    ∃ ts, List.intercalate [.comma] (memberTokens ((key, value) :: members))
      = .string key :: ts := by
  cases members with
  | nil =>
      exact ⟨_, by simp [memberTokens]; rfl⟩
  | cons next members =>
      exact ⟨_, by simp [memberTokens]; rfl⟩

/-- An array that does not end at once has items. -/
theorem parseValue_openArray {fuel : Nat} {t : Token} (ht : t ≠ .closeArray) (ts : List Token) :
    parseValue (fuel + 1) (.openArray :: t :: ts)
      = (parseItems fuel (t :: ts)).map fun (items, rest) => (.array items, rest) := by
  rw [parseValue]
  intro rest heq
  exact ht (List.cons.inj heq).1

/-- So does an object that begins with a key. -/
theorem parseValue_openObject {fuel : Nat} (key : Written) (ts : List Token) :
    parseValue (fuel + 1) (.openObject :: .string key :: ts)
      = (parseMembers fuel (.string key :: ts)).map fun (members, rest) =>
        (.object members, rest) := by
  rw [parseValue]
  intro rest heq
  exact nomatch heq

mutual

/-- Twice as much fuel as there are tokens is enough to parse a value from them. -/
theorem parseValue_tokens : ∀ (value : Json) (rest : List Token) (fuel : Nat),
    2 * value.tokens.length ≤ fuel → parseValue fuel (value.tokens ++ rest) = some (value, rest)
  | .null, rest, fuel + 1, _ => by
      rw [tokens, List.singleton_append, parseValue]
  | .bool b, rest, fuel + 1, _ => by
      rw [tokens, List.singleton_append, parseValue]
  | .number n, rest, fuel + 1, _ => by
      rw [tokens, List.singleton_append, parseValue]
  | .string s, rest, fuel + 1, _ => by
      rw [tokens, List.singleton_append, parseValue]
  | .array [], rest, fuel + 1, _ => by
      rw [tokens, itemTokens]
      rfl
  | .array (item :: items), rest, fuel + 1, h => by
      have hitems := parseItems_tokens (item :: items) rest fuel (by simp)
      rcases exists_intercalate_eq item items with ⟨t, ts, hts, hne⟩
      simp only [tokens, hts, List.length_append, List.length_cons, List.length_nil] at h hitems ⊢
      simp only [List.cons_append, List.append_assoc, List.nil_append]
      rw [List.cons_append] at hitems
      rw [parseValue_openArray hne, hitems (by omega)]
      rfl
  | .object [], rest, fuel + 1, _ => by
      rw [tokens, memberTokens]
      rfl
  | .object ((key, value) :: members), rest, fuel + 1, h => by
      have hmembers := parseMembers_tokens ((key, value) :: members) rest fuel (by simp)
      rcases exists_memberTokens_eq key value members with ⟨ts, hts⟩
      simp only [tokens, hts, List.length_append, List.length_cons, List.length_nil]
        at h hmembers ⊢
      simp only [List.cons_append, List.append_assoc, List.nil_append]
      rw [List.cons_append] at hmembers
      rw [parseValue_openObject, hmembers (by omega)]
      rfl

theorem parseItems_tokens : ∀ (items : List Json) (rest : List Token) (fuel : Nat), items ≠ [] →
    2 * (List.intercalate [.comma] (itemTokens items)).length + 1 ≤ fuel →
    parseItems fuel (List.intercalate [.comma] (itemTokens items) ++ .closeArray :: rest)
      = some (items, rest)
  | [], _, _, hne, _ => absurd rfl hne
  | [item], rest, fuel + 1, _, h => by
      simp only [itemTokens, List.intercalate_singleton] at h ⊢
      rw [parseItems, parseValue_tokens item _ fuel (by omega)]
  | item :: next :: items, rest, fuel + 1, _, h => by
      have hitem := parseValue_tokens item
      have hitems := parseItems_tokens (next :: items) rest fuel (by simp)
      simp only [itemTokens, List.intercalate_cons_cons, List.length_append, List.length_cons,
        List.length_nil] at h hitems ⊢
      simp only [List.append_assoc, List.cons_append, List.nil_append]
      rw [parseItems, hitem _ fuel (by omega)]
      dsimp only
      rw [hitems (by omega)]
      rfl

theorem parseMembers_tokens : ∀ (members : List (Written × Json)) (rest : List Token) (fuel : Nat),
    members ≠ [] → 2 * (List.intercalate [.comma] (memberTokens members)).length + 1 ≤ fuel →
    parseMembers fuel (List.intercalate [.comma] (memberTokens members) ++ .closeObject :: rest)
      = some (members, rest)
  | [], _, _, hne, _ => absurd rfl hne
  | [(key, value)], rest, fuel + 1, _, h => by
      simp only [memberTokens, List.intercalate_singleton, List.length_cons] at h ⊢
      rw [List.cons_append, List.cons_append, parseMembers,
        parseValue_tokens value _ fuel (by omega)]
  | (key, value) :: next :: members, rest, fuel + 1, _, h => by
      have hvalue := parseValue_tokens value
      have hmembers := parseMembers_tokens (next :: members) rest fuel (by simp)
      simp only [memberTokens, List.intercalate_cons_cons, List.length_append, List.length_cons,
        List.length_nil] at h hmembers ⊢
      simp only [List.append_assoc, List.cons_append, List.nil_append]
      rw [parseMembers, hvalue _ fuel (by omega)]
      dsimp only
      rw [hmembers (by omega)]
      rfl

end

/-- Every text of a value is read as the value. -/
theorem parse?_of_isText {value : Json} {text : String} (h : value.IsText text) :
    parse? text = some value := by
  have htokens : tokens? text.toList = some value.tokens :=
    Layout.scanTokens h (spaced_tokens value)
  have hvalue := parseValue_tokens value [] (2 * value.tokens.length) (Nat.le_refl _)
  rw [List.append_nil] at hvalue
  simp [parse?, htokens, hvalue]

/-! ## Nothing else is parsed -/

mutual

/-- What the parser takes off the tokens for a value are the tokens of the value. -/
theorem eq_of_parseValue : ∀ (fuel : Nat) {ts rest : List Token} {value : Json},
    parseValue fuel ts = some (value, rest) → ts = value.tokens ++ rest
  | 0, _, _, _, h => nomatch h
  | fuel + 1, ts, rest, value, h => by
      unfold parseValue at h
      split at h
      case h_1 =>
          exact nomatch h
      case h_7 heq =>
          -- An array that does not end at once.
          obtain rfl := Nat.succ.inj heq
          rcases Option.map_eq_some_iff.1 h with ⟨⟨items, more⟩, hitems, heq⟩
          cases heq
          rw [(eq_of_parseItems fuel hitems).2]
          simp [tokens]
      case h_9 heq =>
          -- An object that does not end at once.
          obtain rfl := Nat.succ.inj heq
          rcases Option.map_eq_some_iff.1 h with ⟨⟨members, more⟩, hmembers, heq⟩
          cases heq
          rw [(eq_of_parseMembers fuel hmembers).2]
          simp [tokens]
      case h_10 =>
          exact nomatch h
      -- What is left is one token, or two brackets with nothing between them.
      all_goals
        cases h
        rfl

theorem eq_of_parseItems : ∀ (fuel : Nat) {ts rest : List Token} {items : List Json},
    parseItems fuel ts = some (items, rest) → items ≠ [] ∧
      ts = List.intercalate [.comma] (itemTokens items) ++ .closeArray :: rest
  | 0, _, _, _, h => nomatch h
  | fuel + 1, ts, rest, items, h => by
      rw [parseItems] at h
      split at h
      case h_1 item more hitem =>
          cases h
          rw [eq_of_parseValue fuel hitem, itemTokens, itemTokens, List.intercalate_singleton]
          exact ⟨List.cons_ne_nil item [], rfl⟩
      case h_2 item more hitem =>
          -- Behind a comma there is at least one item more.
          rcases Option.map_eq_some_iff.1 h with ⟨⟨items, rest⟩, hitems, heq⟩
          cases heq
          rcases eq_of_parseItems fuel hitems with ⟨hne, hmore⟩
          rcases List.exists_cons_of_ne_nil hne with ⟨next, items, rfl⟩
          refine ⟨List.cons_ne_nil item _, ?_⟩
          rw [eq_of_parseValue fuel hitem, hmore]
          simp [itemTokens]
      case h_3 =>
          exact nomatch h

theorem eq_of_parseMembers : ∀ (fuel : Nat) {ts rest : List Token}
    {members : List (Written × Json)}, parseMembers fuel ts = some (members, rest) →
      members ≠ [] ∧
      ts = List.intercalate [.comma] (memberTokens members) ++ .closeObject :: rest
  | 0, _, _, _, h => nomatch h
  | fuel + 1, ts, rest, members, h => by
      unfold parseMembers at h
      split at h
      case h_1 key tokens heq =>
          obtain rfl := Nat.succ.inj heq
          split at h
          case h_1 value more hvalue =>
              cases h
              rw [eq_of_parseValue fuel hvalue, memberTokens, memberTokens,
                List.intercalate_singleton]
              exact ⟨List.cons_ne_nil (key, value) [], rfl⟩
          case h_2 value more hvalue =>
              -- Behind a comma there is at least one member more.
              rcases Option.map_eq_some_iff.1 h with ⟨⟨members, rest⟩, hmembers, heq⟩
              cases heq
              rcases eq_of_parseMembers fuel hmembers with ⟨hne, hmore⟩
              rcases List.exists_cons_of_ne_nil hne with ⟨⟨key', value'⟩, members, rfl⟩
              refine ⟨List.cons_ne_nil (key, value) _, ?_⟩
              rw [eq_of_parseValue fuel hvalue, hmore]
              simp [memberTokens]
          case h_3 =>
              exact nomatch h
      case h_2 =>
          exact nomatch h

end

/-- Only a text of a value is read as the value. -/
theorem isText_of_parse? {value : Json} {text : String} (h : parse? text = some value) :
    value.IsText text := by
  unfold parse? at h
  rcases Option.bind_eq_some_iff.1 h with ⟨ts, htokens, hparse⟩
  split at hparse
  case h_1 found hvalue =>
      cases hparse
      have hts := eq_of_parseValue _ hvalue
      rw [List.append_nil] at hts
      rw [IsText, ← hts]
      exact layout_of_scanTokens htokens
  case h_2 =>
      exact nomatch hparse

/-- The parser reads the texts of a value as the value, and no others. -/
theorem parse?_eq_some_iff {value : Json} {text : String} :
    parse? text = some value ↔ value.IsText text :=
  ⟨isText_of_parse?, parse?_of_isText⟩

end Json
end SdfShader
