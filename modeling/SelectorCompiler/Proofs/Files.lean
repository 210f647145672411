import SelectorCompiler.Files

/-!
# Files are read back

Writing a text to a path puts it at the place where the path leads, and the path leads there again
afterwards: no folder on the way has changed. So the text is read back, and the next text can be
written in the same way. Nothing else changes, and nothing is refused after it that was not before.
The main statements are `Files.Usable.exists_writeText` and `Files.get?_of_writeText`.
-/

namespace SelectorCompiler

/-- The place of the file that a text can be written to. -/
def Target.place? : Target → Option Location
  | .file place _ => some place
  | .free place false => some place
  | _ => none

namespace Files

variable {files : Files} {folder place : Location} {components : List String} {target : Target}

/-- Something put at a place where no folder stands is there afterwards, and all else stays. -/
theorem get?_put (hplace : files.get? place ≠ some .folder) (node : Node) (other : Location) :
    (files.put place node).get? other = if other = place then some node else files.get? other := by
  have hoff : place.names.isPrefixOf files.here.names = false := by
    apply Bool.eq_false_iff.mpr
    intro hon
    exact hplace (if_pos hon)
  unfold get? put
  by_cases hother : other = place
  · simp [hother, hoff, OrderedMap.get?_insert]
  · simp [hother, OrderedMap.get?_insert]

/-- The components lead from a folder, through folders, to a place where no folder stands. -/
inductive Leads (files : Files) : Location → List String → Location → Prop where
  /-- Without a name, or with a dot, the folder stays. -/
  | stay {folder place : Location} {name : String} {rest : List String}
    (hname : name = "" ∨ name = ".") (hrest : Leads files folder rest place) :
    Leads files folder (name :: rest) place
  /-- Two dots are the folder around. -/
  | up {folder place : Location} {rest : List String}
    (hrest : Leads files folder.parent rest place) : Leads files folder (".." :: rest) place
  /-- The way goes on in a folder. -/
  | down {folder place : Location} {name : String} {rest : List String}
    (hname : ¬(name = "" ∨ name = ".")) (hup : name ≠ "..")
    (hfolder : files.get? (folder.enter name) = some .folder)
    (hrest : Leads files (folder.enter name) rest place) : Leads files folder (name :: rest) place
  /-- The last name is free or a file. -/
  | last {folder : Location} {name : String} (hname : ¬(name = "" ∨ name = "."))
    (hup : name ≠ "..") (hplace : files.get? (folder.enter name) ≠ some .folder) :
    Leads files folder [name] (folder.enter name)

/-- A path that leads to a file or a free name leads through folders. -/
theorem leads_of_follow (h : files.follow folder components = .ok target)
    (hplace : target.place? = some place) : files.Leads folder components place := by
  induction components generalizing folder with
  | nil =>
    cases h
    cases hplace
  | cons name rest ih =>
    rw [follow] at h
    by_cases hname : name = "" ∨ name = "."
    · rw [if_pos hname] at h
      exact .stay hname (ih h)
    rw [if_neg hname] at h
    by_cases hup : name = ".."
    · rw [if_pos hup] at h
      subst hup
      exact .up (ih h)
    rw [if_neg hup] at h
    cases hnode : files.get? (folder.enter name) with
    | none =>
      simp only [hnode] at h
      split at h
      · cases h
        cases rest with
        | nil =>
          cases hplace
          exact .last hname hup (by simp [hnode])
        | cons next later => cases hplace
      · cases h
    | some node =>
      cases node with
      | folder =>
        simp only [hnode] at h
        exact .down hname hup hnode (ih h)
      | file content =>
        simp only [hnode] at h
        split at h
        · next hlast =>
          cases h
          cases hplace
          rw [hlast]
          exact .last hname hup (by simp [hnode])
        · cases h

namespace Leads

theorem get?_ne_folder (h : files.Leads folder components place) :
    files.get? place ≠ some .folder := by
  induction h with
  | stay hname hrest ih => exact ih
  | up hrest ih => exact ih
  | down hname hup hfolder hrest ih => exact ih
  | last hname hup hplace => exact hplace

/-- After a file is put where a path leads, the path leads to that file: the folders on the way are
other places. -/
theorem follow_put (h : files.Leads folder components place) (content : ByteArray) :
    (files.put place (.file content)).follow folder components = .ok (.file place content) := by
  induction h with
  | stay hname hrest ih =>
    rw [follow, if_pos hname]
    exact ih
  | up hrest ih =>
    rw [follow, if_neg (by decide), if_pos rfl]
    exact ih
  | @down folder place name rest hname hup hfolder hrest ih =>
    have hne : folder.enter name ≠ place := by
      rintro rfl
      exact hrest.get?_ne_folder hfolder
    rw [follow, if_neg hname, if_neg hup]
    simp only [get?_put hrest.get?_ne_folder, if_neg hne, hfolder]
    exact ih
  | @last folder name hname hup hplace =>
    rw [follow, if_neg hname, if_neg hup]
    simp [get?_put hplace]

end Leads

/-- After a text is put where a path leads, the path leads to it. -/
theorem resolve_put {path : String} (h : files.resolve path = .ok target)
    (hplace : target.place? = some place) (content : ByteArray) :
    (files.put place (.file content)).resolve path = .ok (.file place content) :=
  (leads_of_follow h hplace).follow_put content

theorem place_of_place? (h : target.place? = some place) : target.place = place := by
  match target, h with
  | .file _ _, rfl => rfl
  | .free _ false, rfl => rfl

/-! ## Writing -/

/-- A text can be written to the path. -/
def Writable (files : Files) (path : String) : Prop :=
  ∃ target place, files.resolve path = .ok target ∧ target.place? = some place ∧
    files.refusal? .write place = none

/-- A text is written to the place where the path leads. -/
theorem writeText_eq_ok_iff {path text : String} {later : Files} :
    files.writeText path text = .ok later ↔
      ∃ target place, files.resolve path = .ok target ∧ target.place? = some place ∧
        files.refusal? .write place = none ∧ later = files.put place (.file text.toUTF8) := by
  rw [writeText]
  cases hresolve : files.resolve path with
  | error fault => simp
  | ok target =>
    constructor
    · intro h
      cases hrefusal : files.refusal? .write target.place with
      | some reason => simp [hrefusal] at h
      | none =>
        simp only [hrefusal] at h
        match target, h with
        | .file place content, h => exact ⟨_, place, rfl, rfl, hrefusal, (Except.ok.inj h).symm⟩
        | .free place false, h => exact ⟨_, place, rfl, rfl, hrefusal, (Except.ok.inj h).symm⟩
    · rintro ⟨_, place, htarget, hplace, hrefusal, rfl⟩
      cases htarget
      simp only [place_of_place? hplace, hrefusal]
      match target, hplace with
      | .file _ _, rfl => rfl
      | .free _ false, rfl => rfl

/-- Whether a text can be written does not depend on the text. -/
theorem writable_iff_writeText (files : Files) (path text : String) :
    files.Writable path ↔ ∃ later, files.writeText path text = .ok later := by
  simp only [writeText_eq_ok_iff]
  constructor
  · rintro ⟨target, place, hresolve, hplace, hrefusal⟩
    exact ⟨_, target, place, hresolve, hplace, hrefusal, rfl⟩
  · rintro ⟨later, target, place, hresolve, hplace, hrefusal, -⟩
    exact ⟨target, place, hresolve, hplace, hrefusal⟩

/-- Writing changes nothing at any place but the one where the path leads. -/
theorem get?_of_writeText {path text : String} {later : Files}
    (h : files.writeText path text = .ok later) {other : Location}
    (hother : ∀ target, files.resolve path = .ok target → target.place? ≠ some other) :
    later.get? other = files.get? other := by
  rcases writeText_eq_ok_iff.mp h with ⟨target, place, hresolve, hplace, -, rfl⟩
  have hne : other ≠ place := by
    rintro rfl
    exact hother target hresolve hplace
  rw [get?_put (leads_of_follow hresolve hplace).get?_ne_folder, if_neg hne]

/-! ## Reading -/

/-- A file that may be read gives the text it holds. -/
theorem readText_of_resolve_eq_file {path text : String}
    (h : files.resolve path = .ok (.file place text.toUTF8))
    (hrefusal : files.refusal? .read place = none) : files.readText path = .ok text := by
  have htext : String.fromUTF8? text.toUTF8 = some text :=
    dif_pos text.isValidUTF8
  rw [readText, h]
  simp only [Target.place, hrefusal, htext]

/-- A text that was written is read back, unless the system has refused to read there before. -/
theorem readText_of_writeText {path text : String} {later : Files}
    (h : files.writeText path text = .ok later)
    (hread : ∀ reason, files.readText path ≠ .error (.other reason)) :
    later.readText path = .ok text := by
  rcases writeText_eq_ok_iff.mp h with ⟨target, place, hresolve, hplace, -, rfl⟩
  apply readText_of_resolve_eq_file (resolve_put hresolve hplace text.toUTF8)
  change files.refusal? .read place = none
  cases hrefusal : files.refusal? .read place with
  | none => rfl
  | some reason =>
    have hrefused : files.readText path = .error (.other reason) := by
      rw [readText, hresolve]
      simp only [place_of_place? hplace, hrefusal]
    exact absurd hrefused (hread reason)

/-- The path leads to a file or to a free name, and nothing is refused there. -/
def Usable (files : Files) (path : String) : Prop :=
  ∃ target place, files.resolve path = .ok target ∧ target.place? = some place ∧
    ∀ access, files.refusal? access place = none

/-- A text that is written to a usable path is read back, and the path stays usable. -/
theorem Usable.exists_writeText {path : String} (h : files.Usable path) (text : String) :
    ∃ later, files.writeText path text = .ok later ∧ later.readText path = .ok text ∧
      later.Usable path := by
  rcases h with ⟨target, place, hresolve, hplace, hrefusal⟩
  have hagain := resolve_put hresolve hplace text.toUTF8
  refine ⟨files.put place (.file text.toUTF8), ?_, ?_, _, place, hagain, rfl, hrefusal⟩
  · exact writeText_eq_ok_iff.mpr ⟨target, place, hresolve, hplace, hrefusal .write, rfl⟩
  · exact readText_of_resolve_eq_file hagain (hrefusal .read)

/-- A free name where nothing is refused is usable, and there is nothing to read. -/
theorem usable_of_resolve_eq_free {path : String}
    (h : files.resolve path = .ok (.free place false))
    (hrefusal : ∀ access, files.refusal? access place = none) :
    files.Usable path ∧ files.readText path = .error .missing := by
  refine ⟨⟨_, place, h, rfl, hrefusal⟩, ?_⟩
  rw [readText, h]
  simp only [Target.place, hrefusal]

end Files

end SelectorCompiler
