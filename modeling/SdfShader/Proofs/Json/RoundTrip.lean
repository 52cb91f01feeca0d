import Mathlib.Data.List.Forall2
import SdfShader.Proofs.Json.Parsing

/-!
# RoundTrip — a printed value is read back

What the printer writes is a text of the value, whatever the indentation, so the value is read from
it again. Main statements:

* `Readable`: the values whose numerals and strings are read as they are written;
* `layout_prettyChars`: the printed text has the tokens of the value;
* `parse?_pretty`: it is read as the value.
-/

namespace SdfShader
namespace Json

/-! ## Values -/

mutual

/-- The values whose numerals and strings are read as they are written. -/
def Readable : Json → Prop
  | .null => True
  | .bool _ => True
  | .number n => n.Readable
  | .string s => ∀ p ∈ s, p.Readable
  | .array items => ReadableItems items
  | .object members => ReadableMembers members

def ReadableItems : List Json → Prop
  | [] => True
  | item :: items => Readable item ∧ ReadableItems items

def ReadableMembers : List (Written × Json) → Prop
  | [] => True
  | (key, value) :: members =>
    (∀ p ∈ key, p.Readable) ∧ Readable value ∧ ReadableMembers members

end

theorem readableItems_iff {items : List Json} :
    ReadableItems items ↔ ∀ item ∈ items, item.Readable := by
  induction items with
  | nil =>
      simp [ReadableItems]
  | cons item items ih =>
      simp [ReadableItems, ih]

theorem readableMembers_iff {members : List (Written × Json)} :
    ReadableMembers members ↔ ∀ m ∈ members, (∀ p ∈ m.1, p.Readable) ∧ m.2.Readable := by
  induction members with
  | nil =>
      simp [ReadableMembers]
  | cons m members ih =>
      rw [ReadableMembers, ih, List.forall_mem_cons, and_assoc]

/-! ## Printed texts -/

theorem Layout.append {ts us : List Token} {cs ds : List Char} (h : Layout ts cs)
    (h' : Layout us ds) : Layout (ts ++ us) (cs ++ ds) := by
  induction h with
  | nil =>
      exact h'
  | blank hc _ ih =>
      exact .blank hc ih
  | token ht _ ih =>
      rw [List.cons_append, List.append_assoc]
      exact .token ht ih

theorem layout_token {t : Token} {cs : List Char} (h : t.SpelledAs cs) : Layout [t] cs := by
  have htoken := Layout.token h .nil
  rwa [List.append_nil] at htoken

theorem layout_newline (depth : Nat) : Layout [] ('\n' :: indentation depth) := by
  have hblanks : ∀ n, Layout [] (List.replicate n ' ') := by
    intro n
    induction n with
    | zero =>
        exact .nil
    | succ n ih =>
        exact .blank (by decide) ih
  exact .blank (by decide) (hblanks _)

theorem layout_intercalate {separator : List Char} {lines : List (List Char)}
    {tokens : List (List Token)} (hseparator : Layout [.comma] separator)
    (h : List.Forall₂ Layout tokens lines) :
    Layout (List.intercalate [.comma] tokens) (List.intercalate separator lines) := by
  induction h with
  | nil =>
      exact .nil
  | cons hline hlines ih =>
      cases hlines with
      | nil =>
          simpa using hline
      | cons hline' hlines =>
          rw [List.intercalate_cons_cons, List.intercalate_cons_cons]
          exact (hline.append hseparator).append ih

theorem layout_bracketed {depth : Nat} {opening closing : Char} {first last : Token}
    {lines : List (List Char)} {tokens : List (List Token)} (hopening : Layout [first] [opening])
    (hclosing : Layout [last] [closing]) (h : List.Forall₂ Layout tokens lines) :
    Layout (first :: List.intercalate [.comma] tokens ++ [last])
      (bracketed depth opening closing lines) := by
  have hseparator : Layout [.comma] (',' :: '\n' :: indentation (depth + 1)) :=
    (layout_token .comma).append (layout_newline _)
  have hbody := layout_intercalate hseparator h
  have hclose : Layout [last] ('\n' :: indentation depth ++ [closing]) :=
    (layout_newline depth).append hclosing
  unfold bracketed
  cases h with
  | nil =>
      exact hopening.append hclosing
  | cons hline hlines =>
      have hopen := hopening.append (layout_newline (depth + 1))
      simpa using (hopen.append hbody).append hclose

mutual

/-- The text of a value has its tokens, at any depth. -/
theorem layout_prettyChars (depth : Nat) :
    ∀ value : Json, value.Readable → Layout value.tokens (prettyChars depth value)
  | .null, _ => by
      rw [prettyChars, tokens]
      exact layout_token .null
  | .bool true, _ => by
      rw [prettyChars, tokens]
      exact layout_token .trueWord
  | .bool false, _ => by
      rw [prettyChars, tokens]
      exact layout_token .falseWord
  | .number n, h => by
      rw [prettyChars, tokens]
      exact layout_token (.number (spelledAs_toList (by rwa [Readable] at h)))
  | .string s, h => by
      rw [prettyChars, tokens]
      exact layout_token (.string (spelledAs_flatMap (by rwa [Readable] at h)))
  | .array items, h => by
      rw [prettyChars, tokens]
      exact layout_bracketed (layout_token .openArray) (layout_token .closeArray)
        (layout_prettyItems (depth + 1) items (by rwa [Readable] at h))
  | .object members, h => by
      rw [prettyChars, tokens]
      exact layout_bracketed (layout_token .openObject) (layout_token .closeObject)
        (layout_prettyMembers (depth + 1) members (by rwa [Readable] at h))

theorem layout_prettyItems (depth : Nat) : ∀ items : List Json, ReadableItems items →
    List.Forall₂ Layout (itemTokens items) (prettyItems depth items)
  | [], _ => by
      rw [prettyItems, itemTokens]
      exact .nil
  | item :: items, h => by
      rw [ReadableItems] at h
      rw [prettyItems, itemTokens]
      exact .cons (layout_prettyChars depth item h.1) (layout_prettyItems depth items h.2)

theorem layout_prettyMembers (depth : Nat) : ∀ members : List (Written × Json),
    ReadableMembers members →
    List.Forall₂ Layout (memberTokens members) (prettyMembers depth members)
  | [], _ => by
      rw [prettyMembers, memberTokens]
      exact .nil
  | (key, value) :: members, h => by
      rw [ReadableMembers] at h
      rw [prettyMembers, memberTokens]
      have hkey : Layout [.string key] key.quoted :=
        layout_token (.string (spelledAs_flatMap h.1))
      have hcolon : Layout [.colon] [':', ' '] :=
        (layout_token .colon).append (.blank (by decide) .nil)
      have hvalue := layout_prettyChars depth value h.2.1
      refine .cons ?_ (layout_prettyMembers depth members h.2.2)
      simpa using (hkey.append hcolon).append hvalue

end

/-- A printed value is read back. -/
theorem parse?_pretty {value : Json} (h : value.Readable) : parse? value.pretty = some value := by
  refine parse?_of_isText ?_
  rw [IsText, pretty, String.toList_ofList]
  exact layout_prettyChars 0 value h

end Json
end SdfShader
