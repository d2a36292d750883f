import ApiDescription.CommandLine.Directory
import ApiDescription.Proofs.Traversal

/-!
# Writing to directories

A text can be written where a path leads to a file or to a free name, whatever the text. Writing changes
nothing on the way there: the folders that the path goes through have other names than the file, and they
stay folders. So the path leads to the file afterwards, and reading it gives the text back.

Results:
* `write?_eq_some_iff`, `exists_write?_iff`: what writing does, and when it can be done.
* `step_cases`: what a step of a path does, and what of it depends on the files.
* `foldlM_step_insert`, `step_insert`: a written file is not in the way of a path, and at its end.
* `read_write?`: what was written is read back.
-/

namespace ApiDescription.CommandLine.Directory

variable {dir : Directory} {path text : String} {names : List String} {place place' : Place}

/-- A path leads to a file or to a name that is free. -/
def LeadsTo (dir : Directory) (path : String) (names : List String) : Prop :=
  dir.locate path = .ok (.file names) ∨ dir.locate path = .ok (.free names)

/-- The directory with a text at a path of names. -/
def insert (dir : Directory) (names : List String) (text : String) : Directory :=
  ⟨dir.files.insert (join names) text⟩

theorem write?_eq_some_iff {dir' : Directory} :
    dir.write? path text = some dir' ↔
      ∃ names, dir.LeadsTo path names ∧ dir' = dir.insert names text := by
  unfold write? LeadsTo
  split
  · next names h => simp [h, insert, eq_comm]
  · next names h => simp [h, insert, eq_comm]
  · next hfile hfree =>
    have hnone : ∀ names, ¬ (dir.locate path = .ok (.file names) ∨
        dir.locate path = .ok (.free names)) := by
      rintro names (h | h)
      · exact hfile names h
      · exact hfree names h
    simp [hnone]

theorem exists_write?_iff :
    (∃ dir', dir.write? path text = some dir') ↔ ∃ names, dir.LeadsTo path names := by
  simp only [write?_eq_some_iff]
  constructor
  · rintro ⟨_, names, h, -⟩
    exact ⟨names, h⟩
  · rintro ⟨names, h⟩
    exact ⟨_, names, h, rfl⟩

/-- A place where a text can be written. -/
def Place.EndsAt (place : Place) (names : List String) : Prop :=
  place = .file names ∨ place = .free names

theorem leadsTo_iff :
    dir.LeadsTo path names ↔ ∃ place, dir.locate path = .ok place ∧ place.EndsAt names := by
  constructor
  · rintro (h | h)
    · exact ⟨_, h, .inl rfl⟩
    · exact ⟨_, h, .inr rfl⟩
  · rintro ⟨place, h, rfl | rfl⟩
    · exact .inl h
    · exact .inr h

/-! ## Following paths -/

/-- A place that a path can go on from. -/
def Place.isDirectory : Place → Bool
  | .above _ | .folder _ => true
  | .file _ | .free _ => false

/-- What a list of names leads to when they are followed down. -/
def below (dir : Directory) (names : List String) : Place :=
  if dir.files.contains (join names) then .file names
  else if dir.isFolder names then .folder names
  else .free names

/-- A step goes on from a directory. It either ends in a directory whatever the files are, or goes down
by one name. -/
theorem step_cases {name : String} (h : dir.step place name = .ok place') :
    place.isDirectory = true ∧
      ((place'.isDirectory = true ∧ ∀ dir' : Directory, dir'.step place name = .ok place') ∨
        ∃ next, place' = dir.below next ∧
          ∀ dir' : Directory, dir'.step place name = .ok (dir'.below next)) := by
  cases place with
  | file path => cases h
  | free path => cases h
  | above levels =>
    refine ⟨rfl, .inl ⟨?_, fun _ => h⟩⟩
    simp only [step] at h
    split at h
    · cases h
      rfl
    · split at h
      · cases h
        rfl
      · cases h
  | folder path =>
    refine ⟨rfl, ?_⟩
    by_cases hstay : name = "" ∨ name = "."
    · have hstep : ∀ dir' : Directory, dir'.step (.folder path) name = .ok (.folder path) :=
        fun dir' => if_pos hstay
      cases (hstep dir).symm.trans h
      exact .inl ⟨rfl, hstep⟩
    by_cases hup : name = ".."
    · have hstep : ∀ dir' : Directory, dir'.step (.folder path) name =
          .ok (if path = [] then .above 1 else .folder path.dropLast) :=
        fun dir' => (if_neg hstay).trans (if_pos hup)
      cases (hstep dir).symm.trans h
      refine .inl ⟨?_, hstep⟩
      split <;> rfl
    by_cases hlong : name.utf8ByteSize > 255
    · have hstep : dir.step (.folder path) name = .error .nameTooLong :=
        (if_neg hstay).trans ((if_neg hup).trans (if_pos hlong))
      cases hstep.symm.trans h
    have hstep : ∀ dir' : Directory,
        dir'.step (.folder path) name = .ok (dir'.below (path ++ [name])) :=
      fun dir' => (if_neg hstay).trans ((if_neg hup).trans (if_neg hlong))
    cases (hstep dir).symm.trans h
    exact .inr ⟨_, rfl, hstep⟩

theorem isDirectory_of_foldlM {parts : List String} (h : parts.foldlM dir.step place = .ok place')
    (hplace' : place'.isDirectory = true) : place.isDirectory = true := by
  cases parts with
  | nil => exact Except.ok.inj h ▸ hplace'
  | cons name rest =>
    obtain ⟨next, hstep, -⟩ := bind_eq_ok_iff.mp h
    exact (step_cases hstep).1

/-! ## Following paths after a file is written -/

/-- There is a file at a list of names, or at least no folder. -/
def HasRoom (dir : Directory) (names : List String) : Prop :=
  dir.files.contains (join names) = true ∨ dir.isFolder names = false

theorem contains_insert {other : List String} :
    (dir.insert names text).files.contains (join other) =
      (decide (join names = join other) || dir.files.contains (join other)) := by
  rw [insert, Std.ExtTreeMap.contains_insert]
  by_cases h : join names = join other <;> simp [h]

theorem below_insert_self : (dir.insert names text).below names = .file names := by
  simp [below, contains_insert]

/-- A folder stays one when a file is written. -/
theorem isFolder_insert {other : List String} (h : dir.isFolder other = true) :
    (dir.insert names text).isFolder other = true := by
  unfold isFolder at h ⊢
  obtain ⟨file, hfile, hprefix⟩ := List.any_eq_true.mp h
  refine List.any_eq_true.mpr ⟨file, ?_, hprefix⟩
  rw [Std.ExtTreeMap.mem_keys] at hfile ⊢
  exact Std.ExtTreeMap.mem_insert.mpr (.inr hfile)

/-- A written file is not in the way down to a folder, which has another name than the file. -/
theorem below_insert (hroom : dir.HasRoom names) {other : List String}
    (h : (dir.below other).isDirectory = true) :
    (dir.insert names text).below other = dir.below other := by
  unfold below at h
  split at h
  · cases h
  · next hfile =>
    split at h
    · next hfolder =>
      have hne : join names ≠ join other := by
        intro he
        rcases hroom with hcontains | hnone
        · exact hfile (he ▸ hcontains)
        · rw [isFolder, he] at hnone
          rw [isFolder, hnone] at hfolder
          cases hfolder
      simp [below, contains_insert, hne, hfile, hfolder, isFolder_insert hfolder]
    · cases h

theorem foldlM_step_insert (hroom : dir.HasRoom names) {parts : List String}
    (h : parts.foldlM dir.step place = .ok place') (hplace' : place'.isDirectory = true) :
    parts.foldlM (dir.insert names text).step place = .ok place' := by
  induction parts generalizing place with
  | nil => exact h
  | cons name rest ih =>
    obtain ⟨next, hstep, hrest⟩ := bind_eq_ok_iff.mp h
    refine bind_eq_ok_iff.mpr ⟨next, ?_, ih hrest⟩
    have hnext : next.isDirectory = true := isDirectory_of_foldlM hrest hplace'
    rcases (step_cases hstep).2 with ⟨-, hsame⟩ | ⟨other, rfl, hdown⟩
    · exact hsame _
    · rw [hdown, below_insert hroom hnext]

/-- What ends a path, found on the way down, has room for a file. -/
theorem hasRoom_of_below {other : List String} (h : (dir.below other).EndsAt names) :
    other = names ∧ dir.HasRoom names := by
  unfold below at h
  split at h
  · next hfile =>
    obtain rfl : other = names := by simpa [Place.EndsAt] using h
    exact ⟨rfl, .inl hfile⟩
  · split at h
    · simp [Place.EndsAt] at h
    · next hfolder =>
      obtain rfl : other = names := by simpa [Place.EndsAt] using h
      exact ⟨rfl, .inr (by simpa using hfolder)⟩

/-- A step to a file, or to a free name, leads to the file once it is written. -/
theorem step_insert {name : String} (h : dir.step place name = .ok place')
    (hend : place'.EndsAt names) :
    dir.HasRoom names ∧ (dir.insert names text).step place name = .ok (.file names) := by
  rcases (step_cases h).2 with ⟨hdirectory, -⟩ | ⟨other, rfl, hdown⟩
  · rcases hend with rfl | rfl
    · cases hdirectory
    · cases hdirectory
  · obtain ⟨rfl, hroom⟩ := hasRoom_of_below hend
    exact ⟨hroom, (hdown _).trans (congrArg Except.ok below_insert_self)⟩

/-! ## Reading what was written -/

theorem split_ne_nil (path : List Char) : split path ≠ [] := by
  unfold split
  cases path with
  | nil => simp
  | cons c path =>
    rw [List.foldr_cons]
    split
    · simp
    · split <;> simp

/-- Where a path leads to a file or to a free name, it leads to the file once it is written. -/
theorem foldlM_insert {parts : List String} (hparts : parts ≠ [])
    (h : parts.foldlM dir.step place = .ok place') (hend : place'.EndsAt names) :
    parts.foldlM (dir.insert names text).step place = .ok (.file names) := by
  obtain ⟨before, name, rfl⟩ : ∃ before name, parts = before ++ [name] :=
    ⟨_, _, (List.dropLast_concat_getLast hparts).symm⟩
  simp only [List.foldlM_append, List.foldlM_cons, List.foldlM_nil, bind_pure] at h ⊢
  obtain ⟨folder, hbefore, hstep⟩ := bind_eq_ok_iff.mp h
  have hinsert : dir.HasRoom names ∧ (dir.insert names text).step folder name = .ok (.file names) :=
    step_insert hstep hend
  obtain ⟨hroom, hfile⟩ := hinsert
  exact bind_eq_ok_iff.mpr
    ⟨folder, foldlM_step_insert hroom hbefore (step_cases hstep).1, hfile⟩

theorem locate_insert (h : dir.LeadsTo path names) :
    (dir.insert names text).locate path = .ok (.file names) := by
  have hfold : ∀ (dir : Directory) (place : Place) (parts : List (List Char)),
      parts.foldlM (fun place name => dir.step place (String.ofList name)) place =
        (parts.map String.ofList).foldlM dir.step place := by
    intro dir place parts
    rw [List.foldlM_map]
  have hparts : (split path.toList).map String.ofList ≠ [] := by
    simpa using split_ne_nil path.toList
  obtain ⟨place, hlocate, hend⟩ := leadsTo_iff.mp h
  unfold locate at hlocate ⊢
  by_cases hnul : path.toList.contains '\x00' = true
  · simp [hnul, -List.contains_eq_mem] at hlocate
  by_cases hempty : path = ""
  · simp [hempty] at hlocate
  by_cases hlong : path.utf8ByteSize ≥ 4096
  · simp [hnul, hempty, hlong, -List.contains_eq_mem] at hlocate
  simp only [hnul, hempty, hlong, if_false, hfold, Bool.false_eq_true] at hlocate ⊢
  exact foldlM_insert hparts hlocate hend

/-- **What was written is read back.** -/
theorem read_write? {dir' : Directory} (h : dir.write? path text = some dir') :
    dir'.read path = .ok text := by
  obtain ⟨names, hleads, rfl⟩ := write?_eq_some_iff.mp h
  refine bind_eq_ok_iff.mpr ⟨_, locate_insert hleads, ?_⟩
  simp [insert]

end ApiDescription.CommandLine.Directory
