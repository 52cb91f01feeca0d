import SdfShader.Proofs.Settings.Scalar

/-!
# Members — what the members of an object say of settings

Of the members of an object only those count whose key is that of a field. If each of these keys
occurs once, and with a value of its kind, the settings are the default ones with these fields
replaced; otherwise the object gives no settings. Main statements:

* `Means`: the values of a kind that JSON values stand for;
* `known`: the members that count;
* `Proper`, `Overrides`: the condition on them, and what they make of the default settings;
* `ofMembers?_eq_some_iff`: the settings that an object gives.
-/

namespace SdfShader
namespace Config

/-! ## Values -/

/-- What JSON values stand for in settings: a count is written with digits only and fits into 32
bits, a scalar is any number that a double can hold, and a vector is an array of three scalars. -/
inductive Means : (kind : Kind) → Json → kind.Value → Prop
  | count {digits : List Char} (h : Nat.ofDigitChars 10 digits 0 < UInt32.size) :
      Means .count (.number ⟨false, digits, none, none⟩) (.ofNat (Nat.ofDigitChars 10 digits 0))
  | scalar {n : Numeral} {x : Json.Number} (h : n.number? = some x) :
      Means .scalar (.number n) x.toSingle
  | vector {x y z : Json} {a b c : Single} (hx : Means .scalar x a) (hy : Means .scalar y b)
      (hz : Means .scalar z c) : Means .vector (.array [x, y, z]) ⟨a, b, c⟩

theorem number?_eq_some_integer_iff {n : Numeral} {i : Int} :
    n.number? = some (.integer i) ↔ n.integer? = some i := by
  unfold Numeral.number?
  cases n.integer? with
  | none =>
      cases n.double? <;> simp
  | some j =>
      simp

/-- An integer that is not negative is written with digits only; a minus would give a double. -/
theorem eq_of_integer?_eq_some {n : Numeral} {i : Int} (h : n.integer? = some i) (hi : 0 ≤ i) :
    n = ⟨false, n.whole, none, none⟩ ∧ i = Nat.ofDigitChars 10 n.whole 0 := by
  simp only [Numeral.integer?, Option.ite_none_right_eq_some, Option.some.injEq, Numeral.isInteger,
    Bool.and_eq_true, Option.isNone_iff_eq_none] at h
  rcases h with ⟨⟨⟨hfraction, hexponent⟩, hzero, -⟩, hvalue⟩
  have hsignificand : n.significand = Nat.ofDigitChars 10 n.whole 0 := by
    simp [Numeral.significand, hfraction]
  cases hsign : n.negative with
  | true =>
      -- Only zero is not negative with a minus, and that is no integer.
      rw [hsign, if_pos rfl] at hvalue
      have hnone : n.significand = 0 := by omega
      simp [hsign, hnone] at hzero
  | false =>
      rw [hsign, if_neg Bool.false_ne_true, hsignificand] at hvalue
      exact ⟨by rw [← hsign, ← hfraction, ← hexponent], hvalue.symm⟩

theorem decodeCount_eq_some_iff {json : Json} {n : UInt32} :
    decodeCount json = some n ↔ Means .count json n := by
  constructor
  · intro h
    unfold decodeCount at h
    split at h
    case h_1 m =>
        split at h
        case h_1 i hnumber =>
            rw [Option.ite_none_right_eq_some, Option.some.injEq] at h
            rcases h with ⟨⟨hnonneg, hsize⟩, rfl⟩
            rcases eq_of_integer?_eq_some (number?_eq_some_integer_iff.1 hnumber) hnonneg
              with ⟨hm, rfl⟩
            rw [hm, Int.toNat_natCast]
            exact .count (Int.ofNat_lt.1 hsize)
        case h_2 =>
            exact nomatch h
    case h_2 =>
        exact nomatch h
  · intro h
    cases h with
    | count h =>
        have hword : UInt32.size ≤ UInt64.size := by decide
        have hnumber := number?_eq_some_integer_iff.2 (Numeral.integer?_of_lt (h.trans_le hword))
        rw [decodeCount, hnumber]
        dsimp only
        rw [if_pos ⟨Int.natCast_nonneg _, Int.ofNat_lt.2 h⟩, Int.toNat_natCast]

theorem decodeScalar_eq_some_iff {json : Json} {x : Single} :
    decodeScalar json = some x ↔ Means .scalar json x := by
  constructor
  · intro h
    unfold decodeScalar at h
    split at h
    case h_1 n =>
        rcases Option.map_eq_some_iff.1 h with ⟨y, hy, rfl⟩
        exact .scalar hy
    case h_2 =>
        exact nomatch h
  · intro h
    cases h with
    | scalar h =>
        rw [decodeScalar, h, Option.map_some]

theorem decodeVector_eq_some_iff {json : Json} {v : Vec3 Single} :
    decodeVector json = some v ↔ Means .vector json v := by
  constructor
  · intro h
    unfold decodeVector at h
    split at h
    case h_1 x y z =>
        simp only [Option.bind_eq_bind, Option.bind_eq_some_iff, Option.pure_def,
          Option.some.injEq] at h
        rcases h with ⟨a, ha, b, hb, c, hc, rfl⟩
        exact .vector (decodeScalar_eq_some_iff.1 ha) (decodeScalar_eq_some_iff.1 hb)
          (decodeScalar_eq_some_iff.1 hc)
    case h_2 =>
        exact nomatch h
  · intro h
    cases h with
    | vector hx hy hz =>
        rw [decodeVector, decodeScalar_eq_some_iff.2 hx, decodeScalar_eq_some_iff.2 hy,
          decodeScalar_eq_some_iff.2 hz]
        rfl

theorem decodeValue_eq_some_iff : ∀ {kind : Kind} {json : Json} {value : kind.Value},
    decodeValue kind json = some value ↔ Means kind json value
  | .count, _, _ => decodeCount_eq_some_iff
  | .scalar, _, _ => decodeScalar_eq_some_iff
  | .vector, _, _ => decodeVector_eq_some_iff

/-- A JSON value stands for one value at most. -/
theorem Means.unique {kind : Kind} {json : Json} {v w : kind.Value} (hv : Means kind json v)
    (hw : Means kind json w) : v = w := by
  have heq := (decodeValue_eq_some_iff.2 hv).symm.trans (decodeValue_eq_some_iff.2 hw)
  exact Option.some.inj heq

/-! ## Known members -/

/-- The members that count, each with its field. -/
def known (members : List (Json.Written × Json)) : List (Field × Json) :=
  members.filterMap fun (key, value) => (key.text?.bind Field.ofKey?).map (·, value)

/-- Whether each known member occurs once, with a value of its kind. -/
structure Proper (entries : List (Field × Json)) : Prop where
  once : (entries.map Prod.fst).Nodup
  typed : ∀ entry ∈ entries, ∃ value, Means entry.1.kind entry.2 value

/-- Whether a configuration is the default one with the fields of known members replaced. -/
def Overrides (entries : List (Field × Json)) (c : Config) : Prop :=
  ∀ field : Field, (∃ json, (field, json) ∈ entries ∧ Means field.kind json (c.get field)) ∨
    field ∉ entries.map Prod.fst ∧ c.get field = default.get field

/-- No other configuration is that. -/
theorem Overrides.unique {entries : List (Field × Json)} (h : Proper entries) {c d : Config}
    (hc : Overrides entries c) (hd : Overrides entries d) : c = d := by
  refine ext_get fun field => ?_
  rcases hc field with ⟨json, hjson, hmeans⟩ | ⟨hmissing, hdefault⟩
  -- The field is known to both or to neither, and its member is the only one.
  · rcases hd field with ⟨json', hjson', hmeans'⟩ | ⟨hmissing, -⟩
    · have hsame : (field, json) = (field, json') :=
        List.inj_on_of_nodup_map h.once hjson hjson' rfl
      cases hsame
      exact hmeans.unique hmeans'
    · exact absurd (List.mem_map_of_mem hjson) hmissing
  · rcases hd field with ⟨json, hjson, -⟩ | ⟨-, hdefault'⟩
    · exact absurd (List.mem_map_of_mem hjson) hmissing
    · exact hdefault.trans hdefault'.symm

section Permutation

variable {entries others : List (Field × Json)} (h : entries.Perm others)
include h

theorem Proper.perm (hentries : Proper entries) : Proper others where
  once := (h.map Prod.fst).nodup_iff.1 hentries.once
  typed := fun entry hentry => hentries.typed entry (h.mem_iff.2 hentry)

theorem Overrides.perm {c : Config} (hc : Overrides entries c) : Overrides others c := by
  intro field
  rcases hc field with ⟨json, hjson, hmeans⟩ | ⟨hmissing, hdefault⟩
  · exact .inl ⟨json, h.mem_iff.1 hjson, hmeans⟩
  · exact .inr ⟨fun hmem => hmissing ((h.map Prod.fst).mem_iff.2 hmem), hdefault⟩

end Permutation

/-! ## Assignments -/

/-- What the known members assign. -/
def assignments (entries : List (Field × Json)) : List Assignment :=
  entries.filterMap fun (field, json) => (decodeValue field.kind json).map (⟨field, ·⟩)

theorem mem_assignments_iff {entries : List (Field × Json)} {a : Assignment} :
    a ∈ assignments entries ↔
      ∃ json, (a.field, json) ∈ entries ∧ Means a.field.kind json a.value := by
  obtain ⟨field, value⟩ := a
  simp only [assignments, List.mem_filterMap, Option.map_eq_some_iff]
  constructor
  · rintro ⟨⟨field', json⟩, hmem, value', hdecode, heq⟩
    cases heq
    exact ⟨json, hmem, decodeValue_eq_some_iff.1 hdecode⟩
  · rintro ⟨json, hmem, hmeans⟩
    exact ⟨(field, json), hmem, value, decodeValue_eq_some_iff.2 hmeans, rfl⟩

theorem assignments_cons {field : Field} {json : Json} {value : field.kind.Value}
    (h : Means field.kind json value) (entries : List (Field × Json)) :
    assignments ((field, json) :: entries) = ⟨field, value⟩ :: assignments entries := by
  simp [assignments, decodeValue_eq_some_iff.2 h]

/-- Where all values are of their kinds, each known member assigns its field. -/
theorem map_field_assignments {entries : List (Field × Json)}
    (h : ∀ entry ∈ entries, ∃ value, Means entry.1.kind entry.2 value) :
    (assignments entries).map (·.field) = entries.map Prod.fst := by
  induction entries with
  | nil =>
      rfl
  | cons entry entries ih =>
      rcases h entry List.mem_cons_self with ⟨value, hvalue⟩
      have hrest := ih fun other hother => h other (List.mem_cons_of_mem entry hother)
      rw [assignments_cons hvalue, List.map_cons, List.map_cons, hrest]

theorem get_foldl_of_notMem {as : List Assignment} {field : Field} (h : field ∉ as.map (·.field))
    (c : Config) : (as.foldl assign c).get field = c.get field := by
  induction as generalizing c with
  | nil =>
      rfl
  | cons a as ih =>
      rw [List.map_cons, List.mem_cons, not_or] at h
      rw [List.foldl_cons, ih h.2, assign, get_set_of_ne _ _ h.1]

theorem get_foldl_of_mem {as : List Assignment} (hnodup : (as.map (·.field)).Nodup) {a : Assignment}
    (h : a ∈ as) (c : Config) : (as.foldl assign c).get a.field = a.value := by
  induction as generalizing c with
  | nil =>
      exact nomatch h
  | cons b as ih =>
      rw [List.map_cons, List.nodup_cons] at hnodup
      rw [List.foldl_cons]
      rcases List.mem_cons.1 h with rfl | h
      · -- What is assigned later goes to other fields.
        rw [get_foldl_of_notMem hnodup.1, assign, get_set]
      · exact ih hnodup.2 h _

/-- The assignments of proper members override the default. -/
theorem overrides_foldl {entries : List (Field × Json)} (h : Proper entries) :
    Overrides entries ((assignments entries).foldl assign default) := by
  have hfields := map_field_assignments h.typed
  have hnodup : ((assignments entries).map (·.field)).Nodup := hfields ▸ h.once
  intro field
  by_cases hmem : field ∈ entries.map Prod.fst
  · rcases List.mem_map.1 hmem with ⟨⟨field, json⟩, hentry, rfl⟩
    rcases h.typed _ hentry with ⟨value, hvalue⟩
    have hassigned : (⟨field, value⟩ : Assignment) ∈ assignments entries :=
      mem_assignments_iff.2 ⟨json, hentry, hvalue⟩
    refine .inl ⟨json, hentry, ?_⟩
    rw [get_foldl_of_mem hnodup hassigned default]
    exact hvalue
  · exact .inr ⟨hmem, get_foldl_of_notMem (hfields ▸ hmem) default⟩

/-! ## Objects -/

/-- Whether all keys denote texts: no surrogate is without its partner. -/
def KeysHaveText (members : List (Json.Written × Json)) : Prop :=
  ∀ member ∈ members, member.1.text? ≠ none

instance (members : List (Json.Written × Json)) : Decidable (KeysHaveText members) :=
  inferInstanceAs (Decidable (∀ member ∈ members, member.1.text? ≠ none))

section Member

variable {key : Json.Written} {text : String} (htext : key.text? = some text) (value : Json)
  (members : List (Json.Written × Json))
include htext

theorem known_cons_of_ofKey?_eq_none (h : Field.ofKey? text = none) :
    known ((key, value) :: members) = known members := by
  simp [known, htext, h]

theorem known_cons_of_ofKey?_eq_some {field : Field} (h : Field.ofKey? text = some field) :
    known ((key, value) :: members) = (field, value) :: known members := by
  simp [known, htext, h]

theorem assignment?_of_ofKey?_eq_none (h : Field.ofKey? text = none) :
    assignment? (key, value) = some none := by
  simp [assignment?, htext, h]

theorem assignment?_of_ofKey?_eq_some {field : Field} (h : Field.ofKey? text = some field) :
    assignment? (key, value)
      = (decodeValue field.kind value).map fun value => some ⟨field, value⟩ := by
  simp [assignment?, htext, h]

end Member

/-- Where all members can be read, all keys have texts, and the known members make assignments. -/
theorem of_mapM_assignment? {members : List (Json.Written × Json)} {as : List (Option Assignment)}
    (h : members.mapM assignment? = some as) : KeysHaveText members ∧
      (∀ entry ∈ known members, ∃ value, Means entry.1.kind entry.2 value) ∧
      as.filterMap id = assignments (known members) := by
  induction members generalizing as with
  | nil =>
      cases h
      exact ⟨List.forall_mem_nil _, List.forall_mem_nil _, rfl⟩
  | cons member members ih =>
      obtain ⟨key, value⟩ := member
      simp only [List.mapM_cons, Option.bind_eq_bind, Option.bind_eq_some_iff, Option.pure_def,
        Option.some.injEq] at h
      rcases h with ⟨a, ha, as, has, rfl⟩
      rcases ih has with ⟨hkeys, htyped, hassignments⟩
      cases htext : key.text? with
      | none =>
          -- Without a text of its key a member cannot be read.
          rw [assignment?] at ha
          simp [htext] at ha
      | some text =>
          have hkeys' : KeysHaveText ((key, value) :: members) :=
            List.forall_mem_cons.2 ⟨by simp [htext], hkeys⟩
          cases hfield : Field.ofKey? text with
          | none =>
              -- An unknown member assigns nothing, whatever its value.
              rw [assignment?_of_ofKey?_eq_none htext value hfield] at ha
              cases ha
              rw [known_cons_of_ofKey?_eq_none htext value members hfield]
              exact ⟨hkeys', htyped, hassignments⟩
          | some field =>
              -- A known one assigns what its value stands for.
              rw [assignment?_of_ofKey?_eq_some htext value hfield] at ha
              rcases Option.map_eq_some_iff.1 ha with ⟨v, hv, rfl⟩
              have hmeans := decodeValue_eq_some_iff.1 hv
              rw [known_cons_of_ofKey?_eq_some htext value members hfield]
              refine ⟨hkeys', List.forall_mem_cons.2 ⟨⟨v, hmeans⟩, htyped⟩, ?_⟩
              rw [assignments_cons hmeans, ← hassignments]
              rfl

/-- All members can be read if all keys have texts and the known members have values of their
kinds. -/
theorem exists_mapM_assignment? {members : List (Json.Written × Json)}
    (hkeys : KeysHaveText members)
    (htyped : ∀ entry ∈ known members, ∃ value, Means entry.1.kind entry.2 value) :
    ∃ as, members.mapM assignment? = some as := by
  induction members with
  | nil =>
      exact ⟨[], rfl⟩
  | cons member members ih =>
      obtain ⟨key, value⟩ := member
      rcases List.forall_mem_cons.1 hkeys with ⟨hkey, hkeys⟩
      rcases Option.ne_none_iff_exists'.1 hkey with ⟨text, htext⟩
      cases hfield : Field.ofKey? text with
      | none =>
          rw [known_cons_of_ofKey?_eq_none htext value members hfield] at htyped
          rcases ih hkeys htyped with ⟨as, has⟩
          have hmember := assignment?_of_ofKey?_eq_none htext value hfield
          exact ⟨none :: as, by rw [List.mapM_cons, hmember, has]; rfl⟩
      | some field =>
          rw [known_cons_of_ofKey?_eq_some htext value members hfield] at htyped
          rcases List.forall_mem_cons.1 htyped with ⟨⟨v, hv⟩, htyped⟩
          rcases ih hkeys htyped with ⟨as, has⟩
          have hmember := assignment?_of_ofKey?_eq_some htext value hfield
          rw [decodeValue_eq_some_iff.2 hv, Option.map_some] at hmember
          exact ⟨some ⟨field, v⟩ :: as, by rw [List.mapM_cons, hmember, has]; rfl⟩

/-- The settings that an object gives. -/
theorem ofMembers?_eq_some_iff {members : List (Json.Written × Json)} {c : Config} :
    ofMembers? members = some c ↔
      KeysHaveText members ∧ Proper (known members) ∧ Overrides (known members) c := by
  unfold ofMembers?
  constructor
  · intro h
    rcases Option.bind_eq_some_iff.1 h with ⟨as, has, hc⟩
    rcases of_mapM_assignment? has with ⟨hkeys, htyped, hassignments⟩
    rw [Option.ite_none_right_eq_some, hassignments, map_field_assignments htyped,
      Option.some.injEq] at hc
    rcases hc with ⟨honce, rfl⟩
    exact ⟨hkeys, ⟨honce, htyped⟩, overrides_foldl ⟨honce, htyped⟩⟩
  · rintro ⟨hkeys, hproper, hoverrides⟩
    rcases exists_mapM_assignment? hkeys hproper.typed with ⟨as, has⟩
    rcases of_mapM_assignment? has with ⟨-, htyped, hassignments⟩
    -- The assignments are the ones made above, and what they give is `c`.
    have heq : (assignments (known members)).foldl assign default = c :=
      (overrides_foldl hproper).unique hproper hoverrides
    rw [has, Option.bind_eq_bind, Option.bind_some]
    dsimp only
    rw [hassignments, map_field_assignments htyped, if_pos hproper.once, heq]

end Config
end SdfShader
