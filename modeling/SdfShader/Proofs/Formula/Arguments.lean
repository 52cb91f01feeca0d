import SdfShader.Proofs.Decimal.Notation
import SdfShader.Proofs.Formula.Filling
import SdfShader.Proofs.Text.Separation

/-!
# Arguments — numbered placeholders of test vectors

The arguments of a test vector are filled in one after the other, each as a literal of the host. A
literal has no brace, and with its underscore it is no part of a numbered name, so no pass makes a
placeholder or takes one away: the passes are one substitution, in whatever order they are made.

* `Independent`: fields that can be filled in in any order;
* `independent_argumentEntries`: the arguments of every test vector are such fields;
* `arguments_filled_at_once`: what the passes over the arguments make of a text.
-/

namespace SdfShader.Formula

open Text

variable {entries order : List (String × String)}

/-! ## Fields in any order -/

/-- Whether fields can be filled in in any order: their names differ, and no value has a part in any
of the placeholders. -/
structure Independent (entries : List (String × String)) : Prop where
  nodup : (entries.map Prod.fst).Nodup
  plain : ∀ name ∈ entries.map Prod.fst, Plain name
  inert : ∀ filled ∈ entries, ∀ entry ∈ entries,
    Inert (placeholder entry.1).toList filled.2.toList

/-- The placeholders of some fields and what stands for them, by their characters. -/
def charTable (entries : List (String × String)) : Table :=
  (placeholders entries).map fun (pattern, new) => (pattern.toList, new.toList)

theorem substitute_placeholders (entries : List (String × String)) (text : String) :
    substitute (placeholders entries) text
      = String.ofList (substituteFrom (charTable entries) 0 text.toList) :=
  rfl

theorem forall_mem_charTable {P : List Char × List Char → Prop} :
    (∀ filled ∈ charTable entries, P filled) ↔
      ∀ entry ∈ entries, P ((placeholder entry.1).toList, entry.2.toList) := by
  rw [charTable, List.forall_mem_map, forall_mem_placeholders]

namespace Independent

theorem perm (h : Independent entries) (horder : order.Perm entries) : Independent order where
  nodup := (horder.map Prod.fst).nodup_iff.2 h.nodup
  plain name hname := h.plain name ((horder.map Prod.fst).mem_iff.1 hname)
  inert filled hfilled entry hentry :=
    h.inert filled (horder.mem_iff.1 hfilled) entry (horder.mem_iff.1 hentry)

/-- The passes make one substitution. -/
theorem fill_eq_substitute (h : Independent entries) (text : String) :
    fill text entries = substitute (placeholders entries) text :=
  Formula.fill_eq_substitute h.nodup h.plain (List.pairwise_of_forall_mem_list h.inert) text

theorem separate (h : Independent entries) : Separate (charTable entries) where
  ne_nil := forall_mem_charTable.2 fun entry _ => placeholder_ne_nil entry.1
  apart := by
    refine forall_mem_charTable.2 fun entry hentry =>
      forall_mem_charTable.2 fun found hfound hne => ?_
    have hnames : entry.1 ≠ found.1 := by
      intro hsame
      have hentries : entry = found := List.inj_on_of_nodup_map h.nodup hentry hfound hsame
      exact hne (by rw [hentries])
    exact apart_placeholder (h.plain _ (List.mem_map_of_mem hentry))
      (h.plain _ (List.mem_map_of_mem hfound)) hnames

/-- The order of the table does not matter. -/
theorem substitute_perm (h : Independent entries) (horder : order.Perm entries) (text : String) :
    substitute (placeholders order) text = substitute (placeholders entries) text := by
  have hsame : ∀ entry, entry ∈ charTable order ↔ entry ∈ charTable entries := fun entry =>
    ((horder.map _).map _).mem_iff
  rw [substitute_placeholders, substitute_placeholders, h.separate.substituteFrom_congr hsame]

/-- The order of the passes does not matter. -/
theorem fill_perm (h : Independent entries) (horder : order.Perm entries) (text : String) :
    fill text order = fill text entries := by
  calc fill text order
      = substitute (placeholders order) text := (h.perm horder).fill_eq_substitute text
    _ = substitute (placeholders entries) text := h.substitute_perm horder text
    _ = fill text entries := (h.fill_eq_substitute text).symm

/-- The text in front of a placeholder is filled in on its own. -/
theorem fill_append (h : Independent entries) (name before after : String) :
    fill (before ++ placeholder name ++ after) entries
      = fill before entries ++ fill (placeholder name ++ after) entries := by
  -- Names have no brace, so no placeholder reaches over the beginning of another one.
  have hbrace : ∀ filled ∈ charTable entries, '\x7b' ∉ filled.1.tail := by
    refine forall_mem_charTable.2 fun entry hentry => ?_
    have hplain : Plain entry.1 := h.plain _ (List.mem_map_of_mem hentry)
    rw [toList_placeholder, List.tail_cons]
    simpa using hplain.1
  have hcut := substituteFrom_append_cons h.separate.ne_nil hbrace before.toList
    (name.toList ++ '\x7d' :: after.toList)
  rw [h.fill_eq_substitute, h.fill_eq_substitute, h.fill_eq_substitute, substitute_placeholders,
    substitute_placeholders, substitute_placeholders, ← String.ofList_append]
  simp only [String.toList_append, toList_placeholder, List.cons_append, List.append_assoc,
    List.nil_append]
  rw [hcut]

/-- A placeholder is replaced by what stands for it. -/
theorem fill_placeholder_of_mem (h : Independent entries) {name value : String}
    (hmem : (name, value) ∈ entries) (after : String) :
    fill (placeholder name ++ after) entries = value ++ fill after entries := by
  have hentry : ((placeholder name).toList, value.toList) ∈ charTable entries :=
    List.mem_map_of_mem (List.mem_map_of_mem hmem)
  have hfind := h.separate.find?_eq_some hentry (List.prefix_append _ after.toList)
  rw [h.fill_eq_substitute, h.fill_eq_substitute, substitute_placeholders, substitute_placeholders,
    String.toList_append, substituteFrom_of_find? hfind (placeholder_ne_nil name),
    String.ofList_append, String.ofList_toList]

/-- Other placeholders stay. -/
theorem fill_placeholder_of_notMem (h : Independent entries) {name : String} (hname : Plain name)
    (hmem : name ∉ entries.map Prod.fst) (after : String) :
    fill (placeholder name ++ after) entries = placeholder name ++ fill after entries := by
  have hapart : ∀ filled ∈ charTable entries, Apart filled.1 (placeholder name).toList := by
    refine forall_mem_charTable.2 fun entry hentry => ?_
    have hentryName : entry.1 ∈ entries.map Prod.fst := List.mem_map_of_mem hentry
    refine apart_placeholder (h.plain _ hentryName) hname ?_
    rintro rfl
    exact hmem hentryName
  rw [h.fill_eq_substitute, h.fill_eq_substitute, substitute_placeholders, substitute_placeholders,
    String.toList_append, substituteFrom_append hapart, String.ofList_append, String.ofList_toList]

end Independent

/-! ## Arguments of a test vector -/

namespace Spec

/-- The name of an argument in a template. -/
def argumentName (i : Nat) : String :=
  s!"arg{i}"

theorem toList_argumentName (i : Nat) :
    (argumentName i).toList = ['a', 'r', 'g'] ++ Nat.toDigits 10 i := by
  have hname : argumentName i = String.ofList ['a', 'r', 'g'] ++ toString i := rfl
  rw [hname, Nat.toString_eq_ofList_toDigits, String.toList_append, String.toList_ofList,
    String.toList_ofList]

/-- Digits determine the number, so different arguments have different names. -/
theorem argumentName_injective : Function.Injective argumentName := by
  intro i j h
  have hdigits : Nat.toDigits 10 i = Nat.toDigits 10 j := by
    simpa [toList_argumentName] using congrArg String.toList h
  rw [← Nat.ofDigitChars_ten_toDigits (n := i), hdigits, Nat.ofDigitChars_ten_toDigits]

theorem isAlphanum_of_mem_argumentName {i : Nat} {c : Char} (h : c ∈ (argumentName i).toList) :
    c.isAlphanum = true := by
  rw [toList_argumentName, List.mem_append] at h
  rcases h with hletter | hdigit
  · exact List.all_eq_true.1 (show ['a', 'r', 'g'].all Char.isAlphanum = true from rfl) c hletter
  · rw [Char.isAlphanum, isDigit_of_mem_toDigits hdigit, Bool.or_true]

theorem plain_argumentName (i : Nat) : Plain (argumentName i) :=
  ⟨fun h => absurd (isAlphanum_of_mem_argumentName h) (by decide),
    fun h => absurd (isAlphanum_of_mem_argumentName h) (by decide)⟩

/-- The characters of a literal of the host: those of the number, and the underscore behind it. -/
theorem mem_hostLiteral {x : Double} {c : Char} (h : c ∈ (hostLiteral x).toList) :
    c.isAlphanum = true ∨ c = '-' ∨ c = '.' ∨ c = '_' := by
  rw [hostLiteral, String.toList_append, List.mem_append] at h
  rcases h with hnumber | hsuffix
  · rcases Binary.mem_fixedText hnumber with halphanum | hminus | hpoint
    · exact .inl halphanum
    · exact .inr (.inl hminus)
    · exact .inr (.inr (.inl hpoint))
  · have hall : ("_f32".toList.all fun c => c.isAlphanum || c == '_') = true := rfl
    have hchar := List.all_eq_true.1 hall c hsuffix
    rw [Bool.or_eq_true, beq_iff_eq] at hchar
    exact hchar.imp_right fun hunderscore => .inr (.inr hunderscore)

/-- A literal of the host has no part in the placeholder of an argument. -/
theorem inert_hostLiteral (x : Double) (i : Nat) :
    Inert (placeholder (argumentName i)).toList (hostLiteral x).toList := by
  have hopen : '\x7b' ∉ (hostLiteral x).toList := fun h => absurd (mem_hostLiteral h) (by decide)
  have hclose : '\x7d' ∉ (hostLiteral x).toList := fun h => absurd (mem_hostLiteral h) (by decide)
  -- Without the underscore, a literal of digits only could stand for the number of an argument.
  have hvalue : '_' ∈ (hostLiteral x).toList := by
    rw [hostLiteral, String.toList_append]
    exact List.mem_append_right _ (by decide)
  have hname : '_' ∉ (argumentName i).toList := fun h =>
    absurd (isAlphanum_of_mem_argumentName h) (by decide)
  rw [toList_placeholder]
  exact inert_of_notMem hopen hclose hvalue hname

theorem mem_argumentEntries_iff {args : List Double} {entry : String × String} :
    entry ∈ argumentEntries args ↔
      ∃ i x, args[i]? = some x ∧ (argumentName i, hostLiteral x) = entry := by
  rw [argumentEntries, List.mem_reverse, List.mem_map]
  constructor
  · rintro ⟨⟨x, i⟩, hmem, hentry⟩
    exact ⟨i, x, List.mk_mem_zipIdx_iff_getElem?.1 hmem, hentry⟩
  · rintro ⟨i, x, hx, hentry⟩
    exact ⟨(x, i), List.mk_mem_zipIdx_iff_getElem?.2 hx, hentry⟩

/-- The names count down. -/
theorem map_fst_argumentEntries (args : List Double) :
    (argumentEntries args).map Prod.fst = ((List.range args.length).map argumentName).reverse := by
  have hentries : argumentEntries args
      = (args.zipIdx.map fun entry => (argumentName entry.2, hostLiteral entry.1)).reverse := rfl
  have hnames : (args.zipIdx.map fun entry => (argumentName entry.2, hostLiteral entry.1)).map
      Prod.fst = (args.zipIdx.map Prod.snd).map argumentName := by
    rw [List.map_map, List.map_map]
    rfl
  rw [hentries, List.map_reverse, hnames, List.zipIdx_map_snd, List.range_eq_range']

theorem argumentName_mem_iff {args : List Double} {i : Nat} :
    argumentName i ∈ (argumentEntries args).map Prod.fst ↔ i < args.length := by
  rw [map_fst_argumentEntries, List.mem_reverse, List.mem_map_of_injective argumentName_injective,
    List.mem_range]

theorem independent_argumentEntries (args : List Double) : Independent (argumentEntries args) where
  nodup := by
    rw [map_fst_argumentEntries, List.nodup_reverse]
    exact List.nodup_range.map argumentName_injective
  plain := by
    rw [map_fst_argumentEntries]
    simp [plain_argumentName]
  inert := by
    intro filled hfilled entry hentry
    rcases mem_argumentEntries_iff.1 hfilled with ⟨i, x, -, rfl⟩
    rcases mem_argumentEntries_iff.1 hentry with ⟨j, y, -, rfl⟩
    exact inert_hostLiteral x j

/-- A placeholder is replaced by the argument with its number, and stays if there is none. -/
theorem fill_argument (args : List Double) (i : Nat) (after : String) :
    fill (placeholder (argumentName i) ++ after) (argumentEntries args)
      = (args[i]?.map hostLiteral).getD (placeholder (argumentName i))
        ++ fill after (argumentEntries args) := by
  have hindependent := independent_argumentEntries args
  cases hx : args[i]? with
  | some x =>
      have hmem : (argumentName i, hostLiteral x) ∈ argumentEntries args :=
        mem_argumentEntries_iff.2 ⟨i, x, hx, rfl⟩
      exact hindependent.fill_placeholder_of_mem hmem after
  | none =>
      have hname : argumentName i ∉ (argumentEntries args).map Prod.fst := by
        rw [argumentName_mem_iff, Nat.not_lt]
        exact List.getElem?_eq_none_iff.1 hx
      exact hindependent.fill_placeholder_of_notMem (plain_argumentName i) hname after

/-- The arguments are filled in last. -/
theorem testCode_eq_fill (spec : Spec) (test : TestVector) : spec.testCode test
    = fill (fill spec.testTemplate (spec.testEntries test)) (argumentEntries test.args) :=
  List.foldl_append

/-- The passes over the arguments are one substitution in the original text, in whatever order the
passes are made and the table is written. Whatever stands around a placeholder, it is replaced by
the argument with its number, and it stays if there is no such argument. So the code of a test
vector is what the other fields leave of the template, with all arguments put in at once. -/
theorem arguments_filled_at_once (args : List Double) {order : List (String × String)}
    (horder : order.Perm (argumentEntries args)) :
    (∀ text, fill text (argumentEntries args) = substitute (placeholders order) text) ∧
    (∀ text, fill text order = fill text (argumentEntries args)) ∧
    (∀ i before after,
      fill (before ++ placeholder (argumentName i) ++ after) (argumentEntries args)
        = fill before (argumentEntries args)
          ++ (args[i]?.map hostLiteral).getD (placeholder (argumentName i))
          ++ fill after (argumentEntries args)) ∧
    ∀ (spec : Spec) (test : TestVector), spec.testCode { test with args }
      = substitute (placeholders order) (fill spec.testTemplate (spec.testEntries test)) := by
  have hindependent := independent_argumentEntries args
  have hsubstitute : ∀ text,
      fill text (argumentEntries args) = substitute (placeholders order) text := by
    intro text
    calc fill text (argumentEntries args)
        = substitute (placeholders (argumentEntries args)) text :=
          hindependent.fill_eq_substitute text
      _ = substitute (placeholders order) text := (hindependent.substitute_perm horder text).symm
  refine ⟨hsubstitute, hindependent.fill_perm horder, fun i before after => ?_, fun spec test => ?_⟩
  · rw [hindependent.fill_append, fill_argument, String.append_assoc]
  · rw [testCode_eq_fill]
    exact hsubstitute _

/-- Eleven arguments, two of which are not finite. -/
def elevenArguments : List Double :=
  .nan :: .infinity true :: (List.range 9).map .ofNat

/-- Placeholders in and next to each other, one of them without an argument. -/
def crowdedText : String :=
  "{arg10}{arg1}{arg11}{arg{arg0}}{{arg2}}"

/-- Filled in with the first argument in front. -/
theorem arguments_filled_at_once_crowded :
    (argumentEntries elevenArguments).reverse.Perm (argumentEntries elevenArguments) ∧
    fill crowdedText (argumentEntries elevenArguments).reverse
      = fill crowdedText (argumentEntries elevenArguments) ∧
    fill crowdedText (argumentEntries elevenArguments)
      = substitute (placeholders (argumentEntries elevenArguments).reverse) crowdedText ∧
    fill crowdedText (argumentEntries elevenArguments)
      = "8.000000_f32-inf_f32{arg11}{argNaN_f32}{0.000000_f32}" := by
  have horder : (argumentEntries elevenArguments).reverse.Perm (argumentEntries elevenArguments) :=
    List.reverse_perm _
  rcases arguments_filled_at_once elevenArguments horder with ⟨hsubstitute, horders, -⟩
  refine ⟨horder, horders crowdedText, hsubstitute crowdedText, ?_⟩
  rw [hsubstitute]
  decide +kernel

end Spec

end SdfShader.Formula
