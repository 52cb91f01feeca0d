import Mathlib.Data.List.Forall2
import SdfShader.Text.Lines

/-!
# Spelling — the characters of long texts

A long text is given line by line. To compute with its characters they are needed as lists:
`Spelled` pairs each line with the list of its characters, which are compared without decoding the
line. Where a computed text is only searched for a character, its bytes are enough
(`notMem_toList_of_byte`), and where all its characters are of one byte, the bytes give them
(`toList_of_asciiChars?`).
-/

namespace SdfShader.Text

/-! ## Lines -/

/-- Each line with its characters. -/
def Spelled (ls : List String) (css : List (List Char)) : Prop :=
  List.Forall₂ (fun l cs => l = String.ofList cs) ls css

theorem toList_unlines (ls : List String) :
    (unlines ls).toList = ls.flatMap fun l => l.toList ++ ['\n'] := by
  induction ls with
  | nil =>
      rfl
  | cons l ls ih =>
      have hcons : unlines (l :: ls) = l ++ "\n" ++ unlines ls := by
        simp [unlines]
      rw [hcons, String.toList_append, ih]
      simp

theorem Spelled.toList_unlines {ls : List String} {css : List (List Char)} (h : Spelled ls css) :
    (unlines ls).toList = css.flatMap (· ++ ['\n']) := by
  rw [Text.toList_unlines]
  induction h with
  | nil =>
      rfl
  | cons hline _ ih =>
      rw [List.flatMap_cons, List.flatMap_cons, ih, hline, String.toList_ofList]

/-! ## Bytes -/

theorem bytes_eq_flatMap (s : String) :
    s.toByteArray.data.toList = s.toList.flatMap String.utf8EncodeChar := by
  rw [← String.utf8Encode_toList, List.utf8Encode, List.toList_data_toByteArray]

theorem notMem_toList_of_byte {s : String} {c : Char} {b : UInt8}
    (hb : b ∈ String.utf8EncodeChar c) (h : b ∉ s.toByteArray.data.toList) : c ∉ s.toList := by
  intro hc
  rw [bytes_eq_flatMap] at h
  exact h (List.mem_flatMap.2 ⟨c, hc, hb⟩)

/-- The characters of a text, if all of them are of one byte. -/
def asciiChars? (s : String) : Option (List Char) :=
  let bytes := s.toByteArray.data.toList
  if bytes.all (· < 128) then some (bytes.map fun b => Char.ofNat b.toNat) else none

/-- The last byte of a character of several bytes is not a character of its own. -/
theorem lastByte_mem_utf8EncodeChar {c : Char} (h : ¬ c.val.toNat ≤ 127) :
    UInt8.ofNat (c.val.toNat % 64 + 128) ∈ String.utf8EncodeChar c := by
  unfold String.utf8EncodeChar
  dsimp only
  rw [if_neg h]
  split
  · simp
  · split <;> simp

theorem map_utf8EncodeChar {c : Char} (h : ∀ b ∈ String.utf8EncodeChar c, b < 128) :
    (String.utf8EncodeChar c).map (fun b => Char.ofNat b.toNat) = [c] := by
  have hcode : c.val.toNat ≤ 127 := by
    by_contra hlarge
    have hlast := UInt8.lt_iff_toNat_lt.1 (h _ (lastByte_mem_utf8EncodeChar hlarge))
    have hsize : c.val.toNat % 64 + 128 < 256 := by omega
    have hvalue : (UInt8.ofNat (c.val.toNat % 64 + 128)).toNat = c.val.toNat % 64 + 128 :=
      UInt8.toNat_ofNat_of_lt' hsize
    rw [hvalue] at hlast
    exact absurd hlast (Nat.not_lt.2 (Nat.le_add_left 128 _))
  have hbyte : String.utf8EncodeChar c = [UInt8.ofNat c.toNat] := if_pos hcode
  have hvalue : (UInt8.ofNat c.toNat).toNat = c.toNat :=
    UInt8.toNat_ofNat_of_lt' (Nat.lt_of_le_of_lt hcode (by decide))
  rw [hbyte, List.map_singleton, hvalue, Char.ofNat_toNat]

theorem toList_of_asciiChars? {s : String} {cs : List Char} (h : asciiChars? s = some cs) :
    s.toList = cs := by
  have hmap : ∀ cs : List Char, (∀ b ∈ cs.flatMap String.utf8EncodeChar, b < 128) →
      (cs.flatMap String.utf8EncodeChar).map (fun b => Char.ofNat b.toNat) = cs := by
    intro cs
    induction cs with
    | nil =>
        exact fun _ => rfl
    | cons c cs ih =>
        intro hbytes
        rw [List.flatMap_cons] at hbytes ⊢
        rw [List.map_append, map_utf8EncodeChar fun b hb => hbytes b (List.mem_append_left _ hb),
          ih fun b hb => hbytes b (List.mem_append_right _ hb)]
        rfl
  unfold asciiChars? at h
  rw [bytes_eq_flatMap] at h
  dsimp only at h
  split at h
  case isTrue hall =>
      have hbytes : ∀ b ∈ s.toList.flatMap String.utf8EncodeChar, b < 128 := fun b hb =>
        of_decide_eq_true (List.all_eq_true.1 hall b hb)
      rw [← Option.some.inj h, hmap s.toList hbytes]
  case isFalse =>
      exact nomatch h

end SdfShader.Text
