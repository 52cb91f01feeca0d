import SdfShader.Proofs.Shader.Assembly
import SdfShader.Proofs.Shading.Commands

/-!
# Constants — what a shader takes its constants for

The declarations of constants are read by the rules of the shading language. A numeral of digits
alone is of type `int`: its value becomes a word of 32 bits, and the first of these bits is the sign.
A numeral with a point is of type `float` and is read as the nearest number of single precision.

* `readConstants?`, the reader, and `Constant`, what it gives for each name;
* `Config.readConstants?_declarations`: every constant is read with the bits of its field;
* `Config.declarations_read_back`: so the numbers and vectors are those of the configuration, and so
  are the counts, but for a limit of the steps that needs the bit of the sign.
-/

namespace SdfShader

namespace Shading

/-! ## Reading -/

/-- A value of one of the types that constants have. -/
inductive Constant
  | int (value : Int32)
  | float (value : Single)
  | vec3 (value : Vec3 Single)
  deriving DecidableEq

/-- The value of a numeral of type `int`. A further zero in front would make it octal, and the value
has to fit into the word; the bits are taken as they are, so half of the values come out negative. -/
def wholeNumeral? (cs : List Char) : Option Int32 :=
  let n := Nat.ofDigitChars 10 cs 0
  if cs.all Char.isDigit ∧ (cs = ['0'] ∨ cs.head? ≠ some '0') ∧ n < UInt32.size then
    some (UInt32.ofNat n).toInt32
  else none

/-- The value of a literal of type `float`. -/
def Expression.float? : Expression → Option Single
  | .number text =>
    match Json.scanNumeral text.toList with
    | some (n, []) => some (n.nearest .single)
    | _ => none
  | .negation e => e.float?.map (-·)
  | _ => none

def Expression.vec3? : Expression → Option (Vec3 Single)
  | .call "vec3" [x, y, z] => do
    let x ← x.float?
    let y ← y.float?
    let z ← z.float?
    return ⟨x, y, z⟩
  | _ => none

/-- Reads a literal of a type. -/
def readLiteral (fuel : Nat) : String → List Token → Option (Constant × List Token)
  | "int", .numeral text :: ts => do
    let value ← wholeNumeral? text.toList
    return (.int value, ts)
  | "float", ts => do
    let (e, ts) ← readExpression fuel ts
    let value ← e.float?
    return (.float value, ts)
  | "vec3", ts => do
    let (e, ts) ← readExpression fuel ts
    let value ← e.vec3?
    return (.vec3 value, ts)
  | _, _ => none

/-- Reads the declaration of one constant, its name and its value. -/
def readConstant (fuel : Nat) : List Token → Option ((String × Constant) × List Token)
  | .word "const" :: .word type :: .word name :: .operator "=" :: ts => do
    let (value, ts) ← readLiteral fuel type ts
    match ts with
    | .punctuation ';' :: ts => return ((name, value), ts)
    | _ => none
  | _ => none

def readConstants : Nat → List Token → Option (List (String × Constant))
  | _, [] => some []
  | 0, _ => none
  | fuel + 1, ts => do
    let (c, ts) ← readConstant fuel ts
    let cs ← readConstants fuel ts
    return c :: cs

/-- The constants that a text declares, in their order. -/
def readConstants? (text : String) : Option (List (String × Constant)) :=
  let ts := scan [] text.toList
  readConstants (2 * ts.length + 1) ts

/-! ## Values of literals -/

theorem float?_numberExpression {x : Single} (h : x.isFinite = true) :
    (numberExpression x).float? = some x := by
  rcases x.scanNumeral_unsignedLiteral h with ⟨n, hscan, hnearest⟩
  have hmagnitude : (Expression.number x.unsignedLiteral).float?
      = some ⟨false, x.code, x.code_lt⟩ := by
    simp [Expression.float?, hscan, hnearest]
  have hx : (⟨x.negative, x.code, x.code_lt⟩ : Single) = x := rfl
  cases hsign : x.negative with
  | false =>
      rw [hsign] at hx
      rw [numberExpression, hsign, if_neg Bool.false_ne_true, hmagnitude, hx]
  | true =>
      rw [hsign] at hx
      -- A minus turns the sign round and nothing else.
      have hnegated : -(⟨false, x.code, x.code_lt⟩ : Single) = x := hx
      rw [numberExpression, hsign, if_pos rfl, Expression.float?, hmagnitude, Option.map_some,
        hnegated]

theorem vec3?_vectorExpression {v : Vec3 Single} (h : v.isFinite = true) :
    (vectorExpression v).vec3? = some v := by
  rw [Vec3.isFinite, Bool.and_eq_true, Bool.and_eq_true] at h
  simp [vectorExpression, Expression.vec3?, float?_numberExpression h.1.1,
    float?_numberExpression h.1.2, float?_numberExpression h.2]

theorem toList_toString (n : UInt32) : (toString n).toList = Nat.toDigits 10 n.toNat := by
  rw [show toString n = toString n.toNat from rfl, Nat.toString_eq_ofList_toDigits,
    String.toList_ofList]

/-- Every count is read as the signed word with the same bits. -/
theorem wholeNumeral?_toString (n : UInt32) :
    wholeNumeral? (toString n).toList = some n.toInt32 := by
  have hdigits : (Nat.toDigits 10 n.toNat).all Char.isDigit = true :=
    List.all_eq_true.2 fun _ => isDigit_of_mem_toDigits
  have hvalue : Nat.ofDigitChars 10 (Nat.toDigits 10 n.toNat) 0 = n.toNat :=
    Nat.ofDigitChars_ten_toDigits
  rw [toList_toString, wholeNumeral?, hvalue,
    if_pos ⟨hdigits, head?_toDigits_eq_or n.toNat, n.toNat_lt⟩, UInt32.ofNat_toNat]

/-- The first bit of a count stands for `-2 ^ 31` in a signed word, not for `2 ^ 31`. -/
theorem toInt_toInt32 (n : UInt32) :
    n.toInt32.toInt = if n.toNat < 2 ^ 31 then (n.toNat : Int) else n.toNat - 2 ^ 32 := by
  have hbits : n.toInt32.toInt = n.toBitVec.toInt := rfl
  have hhalf : 2 * n.toNat < 2 ^ 32 ↔ n.toNat < 2 ^ 31 := by omega
  rw [hbits, BitVec.toInt_eq_toNat_cond, UInt32.toNat_toBitVec]
  simp only [hhalf]
  rfl

theorem pos_toInt32_iff {n : UInt32} (h : n ≠ 0) : 0 < n.toInt32 ↔ n.toNat < 2 ^ 31 := by
  have hne : n.toNat ≠ 0 := fun hzero => h (UInt32.toNat_inj.1 hzero)
  have hlt := n.toNat_lt
  rw [Int32.lt_iff_toInt_lt, toInt_toInt32, Int32.toInt_zero]
  split <;> omega

end Shading

/-! ## Text of a declaration -/

namespace Config

open Shading

variable {c : Config}

namespace Kind

/-- The type of the constants that hold such values. -/
def type : Kind → String
  | count => "int"
  | scalar => "float"
  | vector => "vec3"

/-- A value as it is written. -/
def expression : (kind : Kind) → kind.Value → Expression
  | count, n => .number (toString n)
  | scalar, x => numberExpression x
  | vector, v => vectorExpression v

/-- The constant with the bits of a value. -/
def constant : (kind : Kind) → kind.Value → Constant
  | count, n => .int n.toInt32
  | scalar, x => .float x
  | vector, v => .vec3 v

end Kind

theorem spells_toString (n : UInt32) : Spells (toString n) (.number (toString n)) := by
  intro cs hcs
  cases hlist : Nat.toDigits 10 n.toNat with
  | nil =>
      exact absurd hlist Nat.toDigits_ne_nil
  | cons first more =>
      have hdigits : ∀ c ∈ first :: more, c.isDigit = true := by
        intro c hc
        rw [← hlist] at hc
        exact isDigit_of_mem_toDigits hc
      refine scan_digits ((toList_toString n).trans hlist) (hdigits first List.mem_cons_self) ?_ hcs
      exact fun d hd => .inl (hdigits d (List.mem_cons_of_mem first hd))

theorem spells_constantLiteral {kind : Kind} {value : kind.Value} {type text : String}
    (h : constantLiteral kind value = .ok (type, text)) :
    type = kind.type ∧ Spells text (kind.expression value) := by
  cases kind with
  | count =>
      cases h
      exact ⟨rfl, spells_toString value⟩
  | scalar =>
      rcases map_eq_ok_iff.1 h with ⟨literal, hliteral, heq⟩
      cases heq
      exact ⟨rfl, spells_literal hliteral⟩
  | vector =>
      rcases map_eq_ok_iff.1 h with ⟨literal, hliteral, heq⟩
      cases heq
      exact ⟨rfl, spells_vector hliteral⟩

/-- The tokens of the declaration of a field. -/
def constantTokens (c : Config) (field : Field) : List Token :=
  .word "const" :: .word field.kind.type :: .word field.constant :: .operator "=" ::
    ((field.kind.expression (c.get field)).tokens ++ [.punctuation ';'])

theorem isWord_type (kind : Kind) : IsWord kind.type.toList := by
  cases kind <;> exact ⟨_, _, rfl, rfl, List.all_eq_true.1 rfl⟩

theorem isWord_constant (field : Field) : IsWord field.constant.toList := by
  cases field <;> exact ⟨_, _, rfl, rfl, List.all_eq_true.1 rfl⟩

theorem scan_declaration {field : Field} {text : String} (h : c.declaration field = .ok text)
    (cs : List Char) :
    scan [] (text.toList ++ cs) = c.constantTokens field ++ scan [] cs := by
  simp only [declaration, bind_eq_ok_iff, pure_eq_ok_iff] at h
  rcases h with ⟨⟨type, value⟩, hliteral, rfl⟩
  rcases spells_constantLiteral hliteral with ⟨rfl, hvalue⟩
  have hconst : ∀ more, scan [] ("const ".toList ++ more) = .word "const" :: scan [] more :=
    fun _ => rfl
  have hblank : ∀ more, scan [] (' ' :: more) = scan [] more := fun _ => rfl
  have htext : s!"const {field.kind.type} {field.constant} = {value};\n"
      = "const " ++ field.kind.type ++ " " ++ field.constant ++ " = " ++ value ++ ";\n" := rfl
  calc scan [] ((s!"const {field.kind.type} {field.constant} = {value};\n").toList ++ cs)
      = scan [] ("const ".toList ++ (field.kind.type.toList ++ ' ' :: (field.constant.toList
          ++ (" = ".toList ++ (value.toList ++ (";\n".toList ++ cs)))))) := by
        rw [htext]
        simp
    _ = .word "const" :: .word field.kind.type :: .word field.constant :: scan []
          (" = ".toList ++ (value.toList ++ (";\n".toList ++ cs))) := by
        rw [hconst, scan_word (isWord_type _) ⟨' ', _, rfl, rfl⟩, hblank,
          scan_word (isWord_constant field) (breaks_value value cs)]
    _ = c.constantTokens field ++ scan [] cs := by
        rw [scan_value hvalue]
        simp [constantTokens]

/-! ## Reading the declarations -/

theorem readLiteral_expression {kind : Kind} {value : kind.Value} {type text : String}
    (h : constantLiteral kind value = .ok (type, text)) {fuel : Nat}
    (hfuel : 2 * (kind.expression value).tokens.length ≤ fuel) (rest : List Token) :
    readLiteral fuel kind.type ((kind.expression value).tokens ++ .punctuation ';' :: rest)
      = some (kind.constant value, .punctuation ';' :: rest) := by
  cases kind with
  | count =>
      simp [Kind.type, Kind.expression, Kind.constant, Expression.tokens, readLiteral,
        wholeNumeral?_toString]
  | scalar =>
      rcases map_eq_ok_iff.1 h with ⟨literal, hliteral, -⟩
      have hfinite := (Binary.literal_eq_ok_iff.1 hliteral).1
      have hread := readExpression_tokens (readable_numberExpression value) hfuel ';' (by simp) rest
      simp [Kind.type, Kind.expression, Kind.constant, readLiteral, hread,
        float?_numberExpression hfinite]
  | vector =>
      rcases map_eq_ok_iff.1 h with ⟨literal, hliteral, -⟩
      have hread := readExpression_tokens (readable_vectorExpression value) hfuel ';' (by simp) rest
      simp [Kind.type, Kind.expression, Kind.constant, readLiteral, hread,
        vec3?_vectorExpression (Vec3.isFinite_of_literal hliteral)]

theorem readConstant_tokens {field : Field} {text : String} (h : c.declaration field = .ok text)
    {fuel : Nat} (hfuel : 2 * (c.constantTokens field).length ≤ fuel) (rest : List Token) :
    readConstant fuel (c.constantTokens field ++ rest)
      = some ((field.constant, field.kind.constant (c.get field)), rest) := by
  simp only [declaration, bind_eq_ok_iff, pure_eq_ok_iff] at h
  rcases h with ⟨⟨type, value⟩, hliteral, -⟩
  simp only [constantTokens, List.length_cons, List.length_append] at hfuel
  have hread := readLiteral_expression hliteral
    (show 2 * (field.kind.expression (c.get field)).tokens.length ≤ fuel by omega) rest
  simp [constantTokens, readConstant, hread]

/-- The texts of fields are read as their tokens, one after the other. -/
theorem scan_mapM_declaration {fields : List Field} {texts : List String}
    (h : fields.mapM c.declaration = .ok texts) :
    scan [] (String.join texts).toList = fields.flatMap c.constantTokens := by
  induction fields generalizing texts with
  | nil =>
      cases h
      rfl
  | cons field fields ih =>
      simp only [List.mapM_cons, bind_eq_ok_iff, pure_eq_ok_iff] at h
      rcases h with ⟨first, hfirst, rest, hrest, rfl⟩
      rw [String.join_cons, String.toList_append, scan_declaration hfirst, ih hrest,
        List.flatMap_cons]

theorem readConstants_tokens {fields : List Field} {texts : List String}
    (h : fields.mapM c.declaration = .ok texts) {fuel : Nat}
    (hfuel : 2 * (fields.flatMap c.constantTokens).length < fuel) :
    readConstants fuel (fields.flatMap c.constantTokens)
      = some (fields.map fun field => (field.constant, field.kind.constant (c.get field))) := by
  induction fields generalizing texts fuel with
  | nil =>
      cases fuel <;> rfl
  | cons field fields ih =>
      simp only [List.mapM_cons, bind_eq_ok_iff, pure_eq_ok_iff] at h
      rcases h with ⟨first, hfirst, rest, hrest, -⟩
      cases fuel with
      | zero =>
          exact absurd hfuel (Nat.not_lt_zero _)
      | succ fuel =>
          rw [List.flatMap_cons, List.length_append] at hfuel
          -- There is at least one token, so the text does not end here.
          have hword : ∃ ts, c.constantTokens field = .word "const" :: ts := ⟨_, rfl⟩
          rcases hword with ⟨ts, hts⟩
          have hpos : 0 < (c.constantTokens field).length := by
            simp [hts]
          have hone := readConstant_tokens hfirst
            (show 2 * (c.constantTokens field).length ≤ fuel by omega)
            (fields.flatMap c.constantTokens)
          have hmore := ih hrest
            (show 2 * (fields.flatMap c.constantTokens).length < fuel by omega)
          rw [List.flatMap_cons]
          simp only [hts, List.cons_append] at hone ⊢
          simp [readConstants, hone, hmore]

/-- The shader reads each constant with the bits of its field. -/
theorem readConstants?_declarations {text : String} (h : c.declarations = .ok text) :
    readConstants? text
      = some (Field.all.map fun field => (field.constant, field.kind.constant (c.get field))) := by
  rcases map_eq_ok_iff.1 h with ⟨texts, htexts, rfl⟩
  -- The reader may take two steps for each token, and needs no more.
  rw [readConstants?, scan_mapM_declaration htexts]
  exact readConstants_tokens htexts (Nat.lt_succ_self _)

/-! ## Values of the constants -/

/-- Whether a constant has a value: the same number for a count, the same bits for a number of
single precision. -/
def Kind.HasValue : (kind : Kind) → Constant → kind.Value → Prop
  | .count, .int m, n => m.toInt = n.toNat
  | .scalar, .float y, x => y = x
  | .vector, .vec3 w, v => w = v
  | _, _, _ => False

/-- There are at most four samples per axis, and no other count but the limit of the steps. -/
theorem Valid.hasValue_constant (h : c.Valid) {field : Field} (hne : field ≠ .maxSteps) :
    field.kind.HasValue (field.kind.constant (c.get field)) (c.get field) := by
  cases field with
  | maxSteps =>
      exact absurd rfl hne
  | supersample =>
      have hle : c.supersample.toNat ≤ 4 := UInt32.le_iff_toNat_le.1 h.supersample.2
      exact (toInt_toInt32 c.supersample).trans (if_pos (by omega))
  | _ =>
      rfl

/-- With valid constants there is a text of declarations, and the shader reads in it the ten
constants in their order. Numbers and vectors have the bits of their fields, and the number of
samples its value. The limit of the steps has its value below `2 ^ 31`; from there on it is negative,
and a loop that counts up from zero is not even entered. -/
theorem declarations_read_back (c : Config) (valid : c.validate = .ok ()) :
    ∃ text, c.declarations = .ok text ∧ ∃ read : Field → Constant,
      readConstants? text = some (Field.all.map fun field => (field.constant, read field)) ∧
      (∀ field : Field, field ≠ .maxSteps → field.kind.HasValue (read field) (c.get field)) ∧
      ∃ limit : Int32, read .maxSteps = .int limit ∧
        limit.toInt = (if c.maxSteps.toNat < 2 ^ 31 then (c.maxSteps.toNat : Int)
          else c.maxSteps.toNat - 2 ^ 32) ∧
        (0 < limit ↔ c.maxSteps.toNat < 2 ^ 31) := by
  have hvalid : c.Valid := validate_eq_ok_iff.1 valid
  rcases hvalid.exists_declarations with ⟨text, htext⟩
  exact ⟨text, htext, fun field => field.kind.constant (c.get field),
    readConstants?_declarations htext, fun _ => hvalid.hasValue_constant, c.maxSteps.toInt32, rfl,
    toInt_toInt32 c.maxSteps, pos_toInt32_iff hvalid.maxSteps⟩

theorem declarations_read_back_default :
    Config.default.validate = .ok () ∧ ∃ text, Config.default.declarations = .ok text ∧
      ∃ read : Field → Constant,
        readConstants? text = some (Field.all.map fun field => (field.constant, read field)) ∧
        (∀ field : Field, field ≠ .maxSteps →
          field.kind.HasValue (read field) (Config.default.get field)) ∧
        read .maxSteps = .int 256 := by
  have hvalid : Config.default.validate = .ok () := by decide +kernel
  rcases declarations_read_back Config.default hvalid with
    ⟨text, htext, read, hread, hvalues, limit, hlimit, hvalue, -⟩
  have hlimit' : limit = 256 := Int32.toInt_inj.1 hvalue
  exact ⟨hvalid, text, htext, read, hread, hvalues, hlimit' ▸ hlimit⟩

/-- A limit that needs the first bit of the word is accepted, and then the shader takes no step. -/
theorem declarations_negative_limit :
    let c : Config := { Config.default with maxSteps := 3000000000 }
    c.validate = .ok () ∧ ∃ text constants, c.declarations = .ok text ∧
      readConstants? text = some constants ∧
      constants.lookup "MAX_STEPS" = some (.int (-1294967296)) := by
  intro c
  have hvalid : c.validate = .ok () := by decide +kernel
  rcases (validate_eq_ok_iff.1 hvalid).exists_declarations with ⟨text, htext⟩
  exact ⟨hvalid, text, _, htext, readConstants?_declarations htext, rfl⟩

end Config
end SdfShader
