import SdfShader.Proofs.Json.RoundTrip
import SdfShader.Proofs.Settings.Members
import SdfShader.Proofs.Settings.Saving
import SdfShader.Proofs.Shader.Assembly

/-!
# RoundTrip — saved settings load back as they are

Each field of settings with finite numbers is read back from its member, every key occurs once, and
so the fields that are assigned to the default settings give the settings themselves, zeros with
their signs and the least numbers included. Main statements:

* `ofJson?_toJson`: the members of settings give the settings;
* `saved_settings_load_back`: the text of valid settings, and the file that holds it.
-/

namespace SdfShader
namespace Config

/-! ## Values -/

/-- Whether all numbers of a field are finite. -/
def Kind.IsFinite : (kind : Kind) → kind.Value → Prop
  | .count, _ => True
  | .scalar, x => x.isFinite = true
  | .vector, v => v.isFinite = true

theorem Valid.isFinite {c : Config} (h : c.Valid) (field : Field) :
    field.kind.IsFinite (c.get field) := by
  cases field with
  | maxSteps | supersample =>
      exact trivial
  | maxDistance =>
      exact h.maxDistance.1
  | hitEpsilon =>
      exact h.hitEpsilon.1
  | normalEpsilon =>
      exact h.normalEpsilon.1
  | gamma =>
      exact h.gamma.1
  | fogDensity =>
      exact h.fogDensity.1
  | lightDirection =>
      exact h.lightDirection
  | lightColor =>
      exact h.lightColor
  | backgroundColor =>
      exact h.backgroundColor

theorem decodeCount_encodeCount (n : UInt32) : decodeCount (encodeCount n) = some n := by
  have hsize : n.toNat < UInt32.size := n.toNat_lt_size
  have hword : UInt32.size ≤ UInt64.size := by decide
  have hcount : (0 : Int) ≤ n.toNat ∧ (n.toNat : Int) < UInt32.size := by omega
  rw [encodeCount, decodeCount, Numeral.number?, Numeral.integer?_toDigits (hsize.trans_le hword)]
  dsimp only
  rw [if_pos hcount, Int.toNat_natCast, UInt32.ofNat_toNat]

theorem decodeVector_encodeVector {v : Vec3 Single} (h : v.isFinite = true) :
    decodeVector (encodeVector v) = some v := by
  obtain ⟨x, y, z⟩ := v
  have hall : x.isFinite = true ∧ y.isFinite = true ∧ z.isFinite = true := by
    simpa [Vec3.isFinite, Vec3.toList, and_assoc] using h
  simp [encodeVector, Vec3.toList, decodeVector, decodeScalar_encodeScalar hall.1,
    decodeScalar_encodeScalar hall.2.1, decodeScalar_encodeScalar hall.2.2]

theorem decodeValue_encodeValue : ∀ {kind : Kind} {value : kind.Value},
    kind.IsFinite value → decodeValue kind (encodeValue kind value) = some value
  | .count, n, _ => decodeCount_encodeCount n
  | .scalar, _, h => decodeScalar_encodeScalar h
  | .vector, _, h => decodeVector_encodeVector h

/-! ## Members -/

/-- All members of settings are known. -/
theorem known_members (c : Config) (fields : List Field) :
    known (fields.map fun field =>
        (Json.Written.ofString field.key, encodeValue field.kind (c.get field)))
      = fields.map fun field => (field, encodeValue field.kind (c.get field)) := by
  induction fields with
  | nil =>
      rfl
  | cons field fields ih =>
      have hkey := Json.Written.text?_ofString field.key
      rw [List.map_cons, known_cons_of_ofKey?_eq_some hkey _ _ field.ofKey?_key, ih, List.map_cons]

theorem ofJson?_toJson {c : Config} (h : ∀ field : Field, field.kind.IsFinite (c.get field)) :
    ofJson? c.toJson = some c := by
  have hmeans : ∀ field : Field,
      Means field.kind (encodeValue field.kind (c.get field)) (c.get field) := fun field =>
    decodeValue_eq_some_iff.1 (decodeValue_encodeValue (h field))
  rw [toJson, ofJson?, ofMembers?_eq_some_iff, known_members]
  refine ⟨?_, ⟨?_, ?_⟩, ?_⟩
  · refine List.forall_mem_map.2 fun field _ => ?_
    rw [Json.Written.text?_ofString]
    exact Option.some_ne_none _
  · rw [List.map_map]
    exact (show Field.all.Nodup by decide).map fun _ _ => id
  · exact List.forall_mem_map.2 fun field _ => ⟨c.get field, hmeans field⟩
  · -- Every field has its member, so nothing is left of the default settings.
    exact fun field => .inl ⟨_, List.mem_map_of_mem field.mem_all, hmeans field⟩

/-! ## Text -/

theorem readable_encodeScalar (x : Single) : (encodeScalar x).Readable := by
  unfold encodeScalar
  split
  · rw [Json.Readable]
    exact x.readable_settingsNumeral
  · trivial

theorem readable_encodeValue : ∀ (kind : Kind) (value : kind.Value),
    (encodeValue kind value).Readable
  | .count, n => by
      rw [encodeValue, encodeCount, Json.Readable]
      exact Numeral.readable_toDigits _
  | .scalar, x => readable_encodeScalar x
  | .vector, v => by
      rw [encodeValue, encodeVector, Json.Readable, Json.readableItems_iff]
      intro item hitem
      rcases List.mem_map.1 hitem with ⟨x, -, rfl⟩
      exact readable_encodeScalar x

theorem Field.readable_key (field : Field) :
    ∀ p ∈ Json.Written.ofString field.key, p.Readable := by
  have hprintable : field.key.toList.all (fun c => 0x20 ≤ c.toNat) = true := by
    cases field <;> rfl
  intro p hp
  rcases List.mem_map.1 hp with ⟨c, hc, rfl⟩
  exact .inl (of_decide_eq_true (List.all_eq_true.1 hprintable c hc))

theorem readable_toJson (c : Config) : c.toJson.Readable := by
  rw [toJson, Json.Readable, Json.readableMembers_iff]
  intro member hmember
  rcases List.mem_map.1 hmember with ⟨field, -, rfl⟩
  exact ⟨field.readable_key, readable_encodeValue _ _⟩

/-- The text of valid settings stands for the settings. -/
theorem parse_pretty {c : Config} (h : c.Valid) : parse c.pretty = .ok c := by
  have hvalid : c.validate = .ok () := validate_eq_ok_iff.2 h
  have hjson : Json.parse? c.pretty = some c.toJson := Json.parse?_pretty c.readable_toJson
  rw [parse, hjson, Option.bind_some, ofJson?_toJson h.isFinite]
  simp [hvalid]

end Config

namespace Settings

/-- Valid settings load back bit for bit, from their text and from the file in which they have been
saved, and saving what has been loaded gives the same text and leaves the file as it is. -/
theorem saved_settings_load_back {c : Config} (hvalid : c.validate = .ok ()) :
    Config.parse c.pretty = .ok c ∧
      (∀ loaded, Config.parse c.pretty = .ok loaded → loaded.pretty = c.pretty) ∧
      ∀ (directory file : Option String) (before after : FileTree) (path : String),
        (save (m := StateM FileTree) directory c file).run before = (.ok path, after) →
          after.read? path = some c.pretty ∧
          (loadFrom (m := StateM FileTree) path).run after = (.ok c, after) ∧
          (save (m := StateM FileTree) directory c (some path)).run after = (.ok path, after) := by
  have hparse : Config.parse c.pretty = .ok c :=
    Config.parse_pretty (Config.validate_eq_ok_iff.1 hvalid)
  refine ⟨hparse, ?_, ?_⟩
  · intro loaded hloaded
    rw [hparse, Except.ok.injEq] at hloaded
    rw [hloaded]
  · intro directory file before after path hsave
    rcases read?_of_save hsave with ⟨hread, hagain⟩
    refine ⟨hread, ?_, hagain⟩
    rw [run_loadFrom, hread]
    dsimp only
    rw [hparse]
    rfl

/-- Settings at the ends of what is accepted: zeros with a sign, the least and the greatest numbers,
and one whose decimal stands close to the middle between two numbers. -/
def extremes : Config where
  maxSteps := 4294967295
  maxDistance := ⟨false, 0x7f7fffff, by decide⟩
  hitEpsilon := ⟨false, 1, by decide⟩
  normalEpsilon := ⟨false, 0x15ae43fd, by decide⟩
  lightDirection := ⟨.zero true, ⟨true, 1, by decide⟩, ⟨true, 0x7f7fffff, by decide⟩⟩
  lightColor := ⟨.zero true, .zero false, ⟨false, 0x4e6e6b28, by decide⟩⟩
  backgroundColor := .splat 1
  gamma := ⟨false, 0x00800000, by decide⟩
  fogDensity := .zero true
  supersample := 4

/-- They load back from a file in a directory that saving has made. -/
theorem saved_settings_load_back_extremes :
    extremes.validate = .ok () ∧ Config.parse extremes.pretty = .ok extremes ∧
      ∃ after, (save (m := StateM FileTree) none extremes (some "kiln/settings.json")).run
          (FileTree.empty "/home") = (.ok "kiln/settings.json", after) ∧
        (loadFrom (m := StateM FileTree) "kiln/settings.json").run after = (.ok extremes, after) := by
  have hvalid : extremes.validate = .ok () := by decide +kernel
  rcases saved_settings_load_back hvalid with ⟨hparse, -, hfile⟩
  -- The tree in which the file is written, once its directory has been made.
  set made : FileTree := ⟨"/home", [(["kiln"], .directory)]⟩
  have hmake : (FileTree.empty "/home").makeParents "kiln/settings.json" = (made, true) := by
    decide +kernel
  have hlocate : made.locate? "kiln/settings.json" = some ["kiln", "settings.json"] := by
    decide +kernel
  have hwrite : made.write? "kiln/settings.json" extremes.pretty
      = some (made.put ["kiln", "settings.json"] (.file extremes.pretty)) :=
    FileTree.write?_eq_some_iff.2 ⟨_, hlocate, by decide +kernel, rfl⟩
  have hsave : (save (m := StateM FileTree) none extremes (some "kiln/settings.json")).run
      (FileTree.empty "/home") = (.ok "kiln/settings.json", made.put ["kiln", "settings.json"]
        (.file extremes.pretty)) :=
    run_save_eq_ok_iff.2 ⟨rfl, made, hmake, hwrite⟩
  exact ⟨hvalid, hparse, _, hsave, (hfile none _ _ _ _ hsave).2.1⟩

end Settings
end SdfShader
