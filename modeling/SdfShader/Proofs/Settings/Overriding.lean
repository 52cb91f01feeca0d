import SdfShader.Proofs.Json.Parsing
import SdfShader.Proofs.Settings.Members

/-!
# Overriding — settings are the default with the known members of a text

A text of an object gives the settings that its known members make of the default, or what
validation has against them. Where the known members stand, how their keys are written, and what
else there is makes no difference, but a key must have a text: a surrogate without its partner makes
the whole text useless, also in the key of a member that does not count. Main statement:
`settings_override_default`.
-/

namespace SdfShader
namespace Config

/-- What validation says of settings. -/
def judged (c : Config) : Except ParseError Config :=
  (c.validate.map fun _ => c).mapError .config

section Text

variable {text : String} {members : List (Json.Written × Json)}

theorem parse_eq_judged {c : Config} (htext : Json.IsText (.object members) text)
    (h : ofMembers? members = some c) : parse text = c.judged := by
  have hjson : (Json.parse? text).bind ofJson? = some c := by
    rw [Json.parse?_of_isText htext, Option.bind_some, ofJson?, h]
  rw [parse, hjson, judged]
  dsimp only
  cases c.validate <;> rfl

theorem parse_eq_error (htext : Json.IsText (.object members) text)
    (h : ¬ (KeysHaveText members ∧ Proper (known members))) : parse text = .error .json := by
  have hnone : ofMembers? members = none := by
    refine Option.eq_none_iff_forall_ne_some.2 fun c hc => h ?_
    rcases ofMembers?_eq_some_iff.1 hc with ⟨hkeys, hproper, -⟩
    exact ⟨hkeys, hproper⟩
  rw [parse, Json.parse?_of_isText htext, Option.bind_some, ofJson?, hnone]

end Text

theorem exists_ofMembers? {members : List (Json.Written × Json)} (hkeys : KeysHaveText members)
    (hproper : Proper (known members)) :
    ∃ c, Overrides (known members) c ∧ ofMembers? members = some c := by
  have hoverrides := overrides_foldl hproper
  exact ⟨_, hoverrides, ofMembers?_eq_some_iff.2 ⟨hkeys, hproper, hoverrides⟩⟩

/-- Take any text of an object. If no key has a surrogate without its partner, and each known member
occurs once with a value of its kind, then there is one configuration that overrides the default
with the known members, and the text gives what validation says of it. If a known member occurs
twice or its value is not of its kind, wherever it stands, there are no settings, and none either
with a key that has no text. Any other text of an object with the same known members, in any order,
gives the same: blanks, the spelling of keys, and unknown members, whatever their values and however
often they occur, make no difference. A text that is no text of a JSON value gives no settings. -/
theorem settings_override_default (text : String) :
    (∀ members, Json.IsText (.object members) text →
      (KeysHaveText members → Proper (known members) →
        ∃ c, Overrides (known members) c ∧ (∀ d, Overrides (known members) d → d = c) ∧
          parse text = c.judged) ∧
      (¬ Proper (known members) → parse text = .error .json) ∧
      (¬ KeysHaveText members → parse text = .error .json) ∧
      ∀ other members', Json.IsText (.object members') other → KeysHaveText members →
        KeysHaveText members' → (known members).Perm (known members') →
          parse other = parse text) ∧
    ((∀ value, ¬ Json.IsText value text) → parse text = .error .json) := by
  refine ⟨fun members htext => ⟨?_, ?_, ?_, ?_⟩, ?_⟩
  · intro hkeys hproper
    rcases exists_ofMembers? hkeys hproper with ⟨c, hoverrides, hc⟩
    exact ⟨c, hoverrides, fun d hd => hd.unique hproper hoverrides, parse_eq_judged htext hc⟩
  · exact fun hproper => parse_eq_error htext fun h => hproper h.2
  · exact fun hkeys => parse_eq_error htext fun h => hkeys h.1
  · intro other members' hother hkeys hkeys' hperm
    by_cases hproper : Proper (known members)
    · rcases exists_ofMembers? hkeys hproper with ⟨c, hoverrides, hc⟩
      -- No other configuration overrides the default with the same known members.
      have hc' : ofMembers? members' = some c :=
        ofMembers?_eq_some_iff.2 ⟨hkeys', hproper.perm hperm, hoverrides.perm hperm⟩
      exact (parse_eq_judged hother hc').trans (parse_eq_judged htext hc).symm
    · have hrefused : parse text = .error .json := parse_eq_error htext fun h => hproper h.2
      have hrefused' : parse other = .error .json :=
        parse_eq_error hother fun h => hproper (h.2.perm hperm.symm)
      exact hrefused'.trans hrefused.symm
  · intro h
    -- The parser reads nothing but texts of values.
    have hnone : Json.parse? text = none :=
      Option.eq_none_iff_forall_ne_some.2 fun value hvalue => h value (Json.isText_of_parse? hvalue)
    rw [parse, hnone, Option.bind_none]

section Scattered

open Json (Written)

/-- Two known members between unknown ones, with an escape in the key of the first. -/
def scattered : String :=
  " \x7b \"a\" : [ \x7b \"\\udc00\" : 1e999 \x7d , null ] ,\n"
    ++ "\"\\u0067amma\":2e0,\"a\":\"\",\"max_steps\" : 5 \x7d "

def scatteredMembers : List (Written × Json) :=
  [([.char 'a'], .array
      [.object [([.unit 0xdc00], .number ⟨false, ['1'], none, some 999⟩)], .null]),
   (.unit 0x67 :: Written.ofString "amma", .number ⟨false, ['2'], none, some 0⟩),
   ([.char 'a'], .string []),
   (Written.ofString "max_steps", .number ⟨false, ['5'], none, none⟩)]

/-- The known members alone, in the other order. -/
def gathered : String :=
  "\x7b\"max_steps\":5,\"gamma\":2E+0\x7d"

def gatheredMembers : List (Written × Json) :=
  [(Written.ofString "max_steps", .number ⟨false, ['5'], none, none⟩),
   (Written.ofString "gamma", .number ⟨false, ['2'], none, some 0⟩)]

def gatheredSettings : Config :=
  { default with gamma := 2, maxSteps := 5 }

theorem known_scatteredMembers : known scatteredMembers =
    [(.gamma, .number ⟨false, ['2'], none, some 0⟩),
     (.maxSteps, .number ⟨false, ['5'], none, none⟩)] := by
  have hkey : Written.text? [.char 'a'] = some "a" := by decide +kernel
  have hunknown : Field.ofKey? "a" = none := by decide +kernel
  have hgamma : Written.text? (.unit 0x67 :: Written.ofString "amma") = some "gamma" := by
    decide +kernel
  have hsteps : Written.text? (Written.ofString "max_steps") = some "max_steps" := by
    decide +kernel
  rw [scatteredMembers, known_cons_of_ofKey?_eq_none hkey _ _ hunknown,
    known_cons_of_ofKey?_eq_some hgamma _ _ (Field.ofKey?_key .gamma),
    known_cons_of_ofKey?_eq_none hkey _ _ hunknown,
    known_cons_of_ofKey?_eq_some hsteps _ _ (Field.ofKey?_key .maxSteps)]
  rfl

theorem known_gatheredMembers : known gatheredMembers = (known scatteredMembers).reverse := by
  have hsteps : Written.text? (Written.ofString "max_steps") = some "max_steps" := by
    decide +kernel
  have hgamma : Written.text? (Written.ofString "gamma") = some "gamma" := by decide +kernel
  rw [gatheredMembers, known_cons_of_ofKey?_eq_some hsteps _ _ (Field.ofKey?_key .maxSteps),
    known_cons_of_ofKey?_eq_some hgamma _ _ (Field.ofKey?_key .gamma), known_scatteredMembers]
  rfl

theorem proper_scatteredMembers : Proper (known scatteredMembers) ∧
    Overrides (known scatteredMembers) gatheredSettings := by
  have hgamma : Means .scalar (.number ⟨false, ['2'], none, some 0⟩) (2 : Single) := by
    have hnumber : (⟨false, ['2'], none, some 0⟩ : Numeral).number? = some (.double 2) := by
      decide +kernel
    have hvalue : (Json.Number.double 2).toSingle = 2 := by decide +kernel
    exact hvalue ▸ Means.scalar hnumber
  have hsteps : Means .count (.number ⟨false, ['5'], none, none⟩) (5 : UInt32) :=
    Means.count (show Nat.ofDigitChars 10 ['5'] 0 < UInt32.size by decide)
  rw [known_scatteredMembers]
  refine ⟨⟨by decide, ?_⟩, ?_⟩
  · rw [List.forall_mem_cons, List.forall_mem_singleton]
    exact ⟨⟨_, hgamma⟩, ⟨_, hsteps⟩⟩
  · intro field
    cases field with
    | gamma =>
        exact .inl ⟨_, List.mem_cons_self, hgamma⟩
    | maxSteps =>
        exact .inl ⟨_, List.mem_cons_of_mem _ List.mem_cons_self, hsteps⟩
    | _ =>
        exact .inr ⟨by decide, rfl⟩

/-- Both texts give the settings. -/
theorem settings_override_default_scattered :
    Json.IsText (.object scatteredMembers) scattered ∧ KeysHaveText scatteredMembers ∧
    Proper (known scatteredMembers) ∧ parse scattered = .ok gatheredSettings ∧
    Json.IsText (.object gatheredMembers) gathered ∧ parse gathered = .ok gatheredSettings := by
  have htokens : Json.tokens? scattered.toList = some (Json.object scatteredMembers).tokens := by
    decide +kernel
  have htokens' : Json.tokens? gathered.toList = some (Json.object gatheredMembers).tokens := by
    decide +kernel
  have htext : Json.IsText (.object scatteredMembers) scattered := Json.layout_of_scanTokens htokens
  have htext' : Json.IsText (.object gatheredMembers) gathered := Json.layout_of_scanTokens htokens'
  have hkeys : KeysHaveText scatteredMembers := by decide +kernel
  have hkeys' : KeysHaveText gatheredMembers := by decide +kernel
  rcases proper_scatteredMembers with ⟨hproper, hoverrides⟩
  rcases (settings_override_default scattered).1 scatteredMembers htext
    with ⟨hread, -, -, hsame⟩
  rcases hread hkeys hproper with ⟨c, -, hunique, hparse⟩
  have hjudged : gatheredSettings.judged = .ok gatheredSettings := by decide +kernel
  rw [← hunique gatheredSettings hoverrides, hjudged] at hparse
  have hperm : (known scatteredMembers).Perm (known gatheredMembers) := by
    rw [known_gatheredMembers]
    exact (List.reverse_perm _).symm
  refine ⟨htext, hkeys, hproper, hparse, htext', ?_⟩
  rw [hsame gathered gatheredMembers htext' hkeys hkeys' hperm, hparse]

end Scattered

/-- An object with one unknown member, whose key is a surrogate without its partner. -/
def unpaired : List (Json.Written × Json) :=
  [([.unit 0xdc00], .number ⟨false, ['1'], none, none⟩)]

/-- It has a text, and no known member, so that only the default settings override the default with
its known members. These are valid, but the text is refused. -/
theorem unpaired_key_refused :
    Json.IsText (.object unpaired) "\x7b\"\\udc00\":1\x7d" ∧ Proper (known unpaired) ∧
    Overrides (known unpaired) default ∧ default.judged = .ok default ∧
    parse "\x7b\"\\udc00\":1\x7d" = .error .json := by
  have htokens : Json.tokens? "\x7b\"\\udc00\":1\x7d".toList
      = some (Json.object unpaired).tokens := by
    decide +kernel
  have hknown : known unpaired = [] := by
    have hkey : Json.Written.text? [.unit 0xdc00] = none := by decide +kernel
    simp [known, unpaired, hkey]
  rw [hknown]
  refine ⟨Json.layout_of_scanTokens htokens, ⟨List.nodup_nil, List.forall_mem_nil _⟩, ?_, ?_, ?_⟩
  · exact fun field => .inr ⟨List.not_mem_nil, rfl⟩
  · decide +kernel
  · decide +kernel

end Config
end SdfShader
