import SdfShader.FileTree

/-!
# Saving — settings that have been written are in their file

A file takes the place of something that is no directory, so the path that led to it leads there
still, and the directories on its way are there when they are asked for again. Nothing is said here
about what settings look like. Main statements:

* `FileTree.read?_of_write?`, `FileTree.makeDirectories_again`: files and directories that are made;
* `Settings.run_save_eq_ok_iff`: when saving succeeds, and what tree it leaves;
* `Settings.read?_of_save`: what has been saved is read, and saving it again changes nothing.
-/

namespace SdfShader

namespace FileTree

variable {t u : FileTree}

/-! ## Entries -/

theorem lookup_filter_ne (l k : Location) (entries : List (Location × FileEntry)) :
    (entries.filter (·.1 ≠ l)).lookup k = if k = l then none else entries.lookup k := by
  induction entries with
  | nil =>
      simp
  | cons entry entries ih =>
      obtain ⟨m, e⟩ := entry
      rw [List.filter_cons]
      by_cases hm : m = l
      · -- An entry that is dropped would only be found at its own place.
        rw [if_neg (by simp [hm]), ih, List.lookup_cons]
        by_cases hk : k = l
        · simp [hk]
        · have hne : (k == m) = false := beq_false_of_ne (hm ▸ hk)
          simp [hk, hne]
      · rw [if_pos (by simp [hm]), List.lookup_cons, List.lookup_cons, ih]
        by_cases hk : k = l
        · have hne : (k == m) = false := beq_false_of_ne (hk ▸ Ne.symm hm)
          simp [hk ▸ hne, hk]
        · simp [hk]

theorem find?_put (t : FileTree) {l : Location} (hl : l ≠ []) (e : FileEntry) (k : Location) :
    (t.put l e).find? k = if k = l then some e else t.find? k := by
  unfold find?
  rw [put, List.lookup_append, lookup_filter_ne]
  by_cases hk : k = l
  · simp [hk, hl]
  · have hother : [(l, e)].lookup k = none := by simp [hk]
    simp [hk, hother]

/-- What is put twice is put once. -/
theorem put_put (t : FileTree) (l : Location) (e : FileEntry) : (t.put l e).put l e = t.put l e := by
  simp [put, List.filter_append]

theorem isDirectory_nil (t : FileTree) : t.isDirectory [] = true := by
  simp [isDirectory, find?]

/-! ## Walking -/

/-- Two trees with one root and the same directories. -/
structure Agrees (t u : FileTree) : Prop where
  root : t.root = u.root
  isDirectory : t.isDirectory = u.isDirectory

theorem Agrees.move (h : Agrees t u) : t.move = u.move := by
  funext l step
  simp [FileTree.move, h.isDirectory]

theorem Agrees.relative? (h : Agrees t u) : t.relative? = u.relative? := by
  funext path
  simp [FileTree.relative?, h.root]

theorem Agrees.locate? (h : Agrees t u) : t.locate? = u.locate? := by
  funext path
  simp [FileTree.locate?, h.move, h.relative?]

/-- A file in the place of something that is no directory changes no way. -/
theorem agrees_put_file {l : Location} (h : t.isDirectory l = false) (text : String) :
    Agrees (t.put l (.file text)) t where
  root := rfl
  isDirectory := by
    have hl : l ≠ [] := by
      rintro rfl
      simp [isDirectory_nil] at h
    funext k
    by_cases hk : k = l
    · rw [hk, h]
      simp [isDirectory, find?_put t hl]
    · simp [isDirectory, find?_put t hl, hk]

/-- Whether the steps lead from a location to a directory. -/
def Leads (t : FileTree) (l : Location) (steps : List String) : Prop :=
  ∃ m, steps.foldlM t.move l = some m ∧ t.isDirectory m = true

theorem Agrees.leads (h : Agrees t u) {l : Location} {steps : List String} :
    t.Leads l steps ↔ u.Leads l steps := by
  simp [Leads, h.move, h.isDirectory]

theorem isDirectory_of_move {l next : Location} {step : String}
    (h : t.move l step = some next) : t.isDirectory l = true := by
  cases hl : t.isDirectory l with
  | true => rfl
  | false => simp [move, hl] at h

theorem leads_cons_iff {l : Location} {step : String} {steps : List String} :
    t.Leads l (step :: steps) ↔ ∃ next, t.move l step = some next ∧ t.Leads next steps := by
  simp only [Leads, List.foldlM_cons, Option.bind_eq_bind, Option.bind_eq_some_iff]
  constructor
  · rintro ⟨m, ⟨next, hnext, hsteps⟩, hm⟩
    exact ⟨next, hnext, m, hsteps, hm⟩
  · rintro ⟨next, hnext, m, hsteps, hm⟩
    exact ⟨m, ⟨next, hnext, hsteps⟩, hm⟩

theorem Leads.isDirectory {l : Location} {steps : List String} (h : t.Leads l steps) :
    t.isDirectory l = true := by
  cases steps with
  | nil =>
      rcases h with ⟨m, hm, hdirectory⟩
      cases hm
      exact hdirectory
  | cons step steps =>
      rcases leads_cons_iff.1 h with ⟨next, hnext, -⟩
      exact isDirectory_of_move hnext

theorem Leads.dropLast {l : Location} {steps : List String} (h : t.Leads l steps) :
    t.Leads l steps.dropLast := by
  induction steps generalizing l with
  | nil =>
      exact h
  | cons step steps ih =>
      cases steps with
      | nil =>
          exact ⟨l, rfl, h.isDirectory⟩
      | cons second rest =>
          rcases leads_cons_iff.1 h with ⟨next, hnext, hrest⟩
          exact leads_cons_iff.2 ⟨next, hnext, ih hrest⟩

/-! ## Making directories -/

/-- No directory gets lost. -/
structure Extends (t u : FileTree) : Prop where
  root : u.root = t.root
  isDirectory : ∀ {k}, t.isDirectory k = true → u.isDirectory k = true

theorem Extends.refl (t : FileTree) : Extends t t :=
  ⟨rfl, id⟩

theorem Extends.trans {v : FileTree} (h : Extends t u) (h' : Extends u v) : Extends t v :=
  ⟨h'.root.trans h.root, fun hk => h'.isDirectory (h.isDirectory hk)⟩

theorem extends_put_directory {l : Location} (hl : l ≠ []) : Extends t (t.put l .directory) where
  root := rfl
  isDirectory := by
    intro k hk
    by_cases heq : k = l <;> simp_all [FileTree.isDirectory, find?_put t hl]

theorem Extends.move (h : Extends t u) {l next : Location} {step : String}
    (hmove : t.move l step = some next) : u.move l step = some next := by
  have hl := isDirectory_of_move hmove
  simpa [FileTree.move, hl, h.isDirectory hl] using hmove

theorem ne_nil_of_find?_eq_none {l : Location} (h : t.find? l = none) : l ≠ [] := by
  rintro rfl
  simp [find?] at h

/-- Making directories keeps those that were there, and if all could be made the way is there. -/
theorem go_spec (steps : List String) {t : FileTree} {l : Location} (h : t.isDirectory l = true) :
    Extends t (makeDirectory.go t l steps).1 ∧
      ((makeDirectory.go t l steps).2 = true → (makeDirectory.go t l steps).1.Leads l steps) := by
  induction steps generalizing t l with
  | nil =>
      exact ⟨.refl t, fun _ => ⟨l, rfl, h⟩⟩
  | cons step steps ih =>
      unfold makeDirectory.go
      cases hmove : t.move l step with
      | none =>
          exact ⟨.refl t, fun hfalse => nomatch hfalse⟩
      | some next =>
          cases hfind : t.find? next with
          | none =>
              -- The directory is made, and the rest of the way in the tree that has it.
              simp only [hfind]
              have hput := extends_put_directory (t := t) (ne_nil_of_find?_eq_none hfind)
              have hnext : (t.put next .directory).isDirectory next = true := by
                simp [FileTree.isDirectory, find?_put t (ne_nil_of_find?_eq_none hfind)]
              rcases ih hnext with ⟨hextends, hleads⟩
              exact ⟨hput.trans hextends, fun hmade =>
                leads_cons_iff.2 ⟨next, (hput.trans hextends).move hmove, hleads hmade⟩⟩
          | some entry =>
              cases entry with
              | file text =>
                  simp only [hfind]
                  exact ⟨.refl t, fun hfalse => nomatch hfalse⟩
              | directory =>
                  simp only [hfind]
                  have hnext : t.isDirectory next = true := by
                    simp [FileTree.isDirectory, hfind]
                  rcases ih hnext with ⟨hextends, hleads⟩
                  exact ⟨hextends, fun hmade =>
                    leads_cons_iff.2 ⟨next, hextends.move hmove, hleads hmade⟩⟩

/-- Where all directories are there, nothing is made. -/
theorem go_of_leads {l : Location} {steps : List String} (h : t.Leads l steps) :
    makeDirectory.go t l steps = (t, true) := by
  induction steps generalizing l with
  | nil =>
      rfl
  | cons step steps ih =>
      rcases leads_cons_iff.1 h with ⟨next, hnext, hrest⟩
      have hfind : t.find? next = some .directory := of_decide_eq_true hrest.isDirectory
      rw [makeDirectory.go, hnext]
      simp only [hfind]
      exact ih hrest

/-- Where directories have been made, the way to them is there. -/
theorem leads_of_makeDirectories {path : String} (h : t.makeDirectories path = (u, true)) :
    ∃ below, Path.isValid path = true ∧ t.relative? path = some below ∧ Extends t u ∧
      u.Leads [] (Path.moves below) := by
  unfold makeDirectories at h
  split at h
  case h_1 =>
      exact nomatch h
  case h_2 below hbelow =>
      rw [Option.ite_none_right_eq_some] at hbelow
      refine ⟨below, hbelow.1, hbelow.2, ?_⟩
      have hspec := fun steps => go_spec steps t.isDirectory_nil
      dsimp only at h
      split at h
      case isTrue =>
          -- Behind a final dot it is asked at the end whether the directory is there.
          rw [Prod.mk.injEq, Option.any_eq_true] at h
          rcases h with ⟨rfl, hleads⟩
          exact ⟨(hspec _).1, hleads⟩
      case isFalse =>
          have hmade := hspec (Path.moves below)
          rw [show makeDirectory.go t [] (Path.moves below) = (u, true) from h] at hmade
          exact ⟨hmade.1, hmade.2 rfl⟩

theorem makeDirectories_of_leads {path below : String} (hvalid : Path.isValid path = true)
    (hbelow : t.relative? path = some below) (h : t.Leads [] (Path.moves below)) :
    t.makeDirectories path = (t, true) := by
  have hall : t.makeDirectory (Path.moves below) = (t, true) := go_of_leads h
  have hbut : t.makeDirectory (Path.moves below).dropLast = (t, true) := go_of_leads h.dropLast
  have hthere : ((Path.moves below).foldlM t.move []).any t.isDirectory = true :=
    (Option.any_eq_true ..).2 h
  simp [makeDirectories, hvalid, hbelow, hall, hbut, hthere]

/-- Directories that have been made need not be made again, also in a tree with other files. -/
theorem makeDirectories_again {made : FileTree} {path : String}
    (h : t.makeDirectories path = (made, true)) (hagrees : Agrees u made) :
    u.makeDirectories path = (u, true) := by
  rcases leads_of_makeDirectories h with ⟨below, hvalid, hbelow, hextends, hleads⟩
  refine makeDirectories_of_leads hvalid ?_ (hagrees.leads.2 hleads)
  rw [← hbelow]
  simp [FileTree.relative?, hagrees.root, hextends.root]

/-! ## Writing -/

theorem write?_eq_some_iff {path text : String} :
    t.write? path text = some u ↔
      ∃ l, t.locate? path = some l ∧ t.isDirectory l = false ∧ t.put l (.file text) = u := by
  simp [write?, Option.bind_eq_some_iff]

/-- A file that has been written is read, and writing it once more changes nothing. -/
theorem read?_of_write? {path text : String} (h : t.write? path text = some u) :
    Agrees u t ∧ u.read? path = some text ∧ u.write? path text = some u := by
  rcases write?_eq_some_iff.1 h with ⟨l, hlocate, hdirectory, rfl⟩
  have hagrees := agrees_put_file hdirectory text
  have hl : l ≠ [] := by
    rintro rfl
    simp [isDirectory_nil] at hdirectory
  refine ⟨hagrees, ?_, ?_⟩
  · simp [read?, hagrees.locate?, hlocate, find?_put t hl]
  · rw [write?_eq_some_iff]
    refine ⟨l, by rw [hagrees.locate?, hlocate], ?_, put_put t l _⟩
    rw [hagrees.isDirectory, hdirectory]

end FileTree

/-! ## Saving -/

namespace Settings

open FileTree

/-- What saving gives and leaves behind. -/
theorem run_save (directory : Option String) (c : Config) (file : Option String) (t : FileTree) :
    (save (m := StateM FileTree) directory c file).run t =
      match file.or (directory.map defaultPath) with
      | none => (.error .noDirectory, t)
      | some path =>
        match t.makeParents path with
        | (made, false) => (.error .cannotCreateDirectory, made)
        | (made, true) =>
          match made.write? path c.pretty with
          | none => (.error .cannotWrite, made)
          | some u => (.ok path, u) := by
  unfold save
  cases file.or (directory.map defaultPath) with
  | none => rfl
  | some path =>
      rcases hmake : t.makeParents path with ⟨made, ok⟩
      cases hwrite : made.write? path c.pretty <;> cases ok <;>
        simp [FileAccess.makeParents, FileAccess.write, hmake, hwrite] <;> rfl

theorem run_save_eq_ok_iff {directory : Option String} {c : Config} {file : Option String}
    {t u : FileTree} {path : String} :
    (save (m := StateM FileTree) directory c file).run t = (.ok path, u) ↔
      file.or (directory.map defaultPath) = some path ∧
        ∃ made, t.makeParents path = (made, true) ∧ made.write? path c.pretty = some u := by
  rw [run_save]
  constructor
  · intro h
    split at h
    case h_1 =>
        exact nomatch h
    case h_2 path' hpath =>
        split at h
        case h_1 =>
            exact nomatch h
        case h_2 made hmake =>
            split at h
            case h_1 =>
                exact nomatch h
            case h_2 v hwrite =>
                cases h
                exact ⟨hpath, made, hmake, hwrite⟩
  · rintro ⟨hpath, made, hmake, hwrite⟩
    simp only [hpath, hmake, hwrite]

theorem run_loadFrom (path : String) (t : FileTree) :
    (loadFrom (m := StateM FileTree) path).run t =
      match t.read? path with
      | none => (.error (.unreadable path), t)
      | some text => ((Config.parse text).mapError (.invalid path), t) := by
  unfold loadFrom
  cases hread : t.read? path <;> simp [FileAccess.read, hread] <;> rfl

/-- Saved settings are in the file that is named, and saving them there once more changes nothing. -/
theorem read?_of_save {directory : Option String} {c : Config} {file : Option String}
    {t u : FileTree} {path : String}
    (h : (save (m := StateM FileTree) directory c file).run t = (.ok path, u)) :
    u.read? path = some c.pretty ∧
      (save (m := StateM FileTree) directory c (some path)).run u = (.ok path, u) := by
  rcases run_save_eq_ok_iff.1 h with ⟨-, made, hmake, hwrite⟩
  rcases read?_of_write? hwrite with ⟨hagrees, hread, hagain⟩
  exact ⟨hread, run_save_eq_ok_iff.2 ⟨rfl, u, makeDirectories_again hmake hagrees, hagain⟩⟩

end Settings
end SdfShader
