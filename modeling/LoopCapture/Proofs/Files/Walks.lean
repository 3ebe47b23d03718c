import LoopCapture.Files.FileTree
import Mathlib.Data.List.Basic

/-!
# Walks of directories

A walk of a directory should list the names that lead to every file below it. What is below a
directory is told by what is at the paths below it, so two walks of the same files can differ in
their order only. The walk of a file tree does list every file, where no file stands in the way of
another.
-/

namespace LoopCapture.Files

/-- A name that an entry of a directory can have. -/
structure IsName (s : String) : Prop where
  notFiller : isFiller s = false
  notUp : s ≠ ".."
  noSlash : '/' ∉ s.toList

instance (s : String) : Decidable (IsName s) :=
  decidable_of_iff (isFiller s = false ∧ s ≠ ".." ∧ '/' ∉ s.toList)
    ⟨fun ⟨notFiller, notUp, noSlash⟩ => ⟨notFiller, notUp, noSlash⟩,
      fun name => ⟨name.notFiller, name.notUp, name.noSlash⟩⟩

/-- The names lead from a directory to a file below it. -/
structure Disk.LeadsToFile (disk : Disk) (directory : Path) (names : List String) : Prop where
  nonempty : names ≠ []
  areNames : ∀ s ∈ names, IsName s
  isFile : disk.kind? (directory.below names) = some .file

def Disk.Walks (disk : Disk) (directory : Path) : Prop :=
  ∀ names, names ∈ disk.below directory ↔ disk.LeadsToFile directory names

/-- Those paths that are directories are walked. -/
def Disk.WalksEach (disk : Disk) (paths : List Path) : Prop :=
  ∀ p ∈ paths, disk.kind? p = some .directory → disk.Walks p

theorem Disk.LeadsToFile.congr {disk disk' : Disk} (same : disk'.kind? = disk.kind?)
    {directory : Path}
    {names : List String} (h : disk.LeadsToFile directory names) :
    disk'.LeadsToFile directory names where
  nonempty := h.nonempty
  areNames := h.areNames
  isFile := same ▸ h.isFile

/-- A disk that is walked the other way round. -/
def Disk.backwards (disk : Disk) : Disk := { disk with below := fun p => (disk.below p).reverse }

theorem Disk.kind?_backwards (disk : Disk) : disk.backwards.kind? = disk.kind? := rfl

theorem Disk.WalksEach.backwards {disk : Disk} {paths : List Path} (h : disk.WalksEach paths) :
    disk.backwards.WalksEach paths := by
  intro p hp isDirectory names
  have listed : names ∈ disk.backwards.below p ↔ names ∈ disk.below p := List.mem_reverse
  rw [listed, h p hp isDirectory names]
  exact ⟨.congr disk.kind?_backwards, .congr disk.kind?_backwards.symm⟩

namespace FileTree
variable {t : FileTree}

theorem follow_append (place : Location) (front back : List String) :
    t.follow place (front ++ back) = (t.follow place front).bind (t.follow · back) := by
  induction front generalizing place with
  | nil => rfl
  | cons s rest ih =>
    simp only [List.cons_append, follow, ih]
    repeat' split
    all_goals rfl

/-- Files have names that can be looked up, and nothing is below them. -/
structure IsProper (t : FileTree) : Prop where
  names : ∀ file ∈ t.files, ∀ s ∈ file.1, IsName s ∧ s.utf8ByteSize ≤ maxNameSize
  apart : ∀ file ∈ t.files, t.hasDirectory file.1 = false

theorem isSome_file?_iff {place : Location} :
    (t.file? place).isSome ↔ ∃ bytes, (place, bytes) ∈ t.files := by
  simp only [file?, List.lookup_isSome_iff, beq_iff_eq]
  constructor
  · rintro ⟨⟨_, bytes⟩, file, rfl⟩
    exact ⟨bytes, file⟩
  · rintro ⟨bytes, file⟩
    exact ⟨_, file, rfl⟩

theorem hasDirectory_of_mem {place names : Location} {bytes : ByteArray} (nonempty : names ≠ [])
    (file : (place ++ names, bytes) ∈ t.files) : t.hasDirectory place := by
  simp only [hasDirectory, Bool.or_eq_true, List.any_eq_true]
  exact .inr ⟨_, file, by simp [List.isPrefixOf_iff_prefix, nonempty]⟩

theorem mem_below_iff {p : Path} {place : Location} (located : t.locate p = .ok place)
    (names : List String) :
    names ∈ t.below p ↔ names ≠ [] ∧ ∃ bytes, (place ++ names, bytes) ∈ t.files := by
  simp only [below, located, List.mem_filterMap, Option.ite_none_right_eq_some, Option.some.injEq,
    Bool.and_eq_true, List.isPrefixOf_iff_prefix, decide_eq_true_eq]
  constructor
  · rintro ⟨⟨_, bytes⟩, file, ⟨⟨rest, rfl⟩, other⟩, rfl⟩
    simp only [List.drop_left]
    exact ⟨by simpa using other, bytes, file⟩
  · rintro ⟨nonempty, bytes, file⟩
    exact ⟨_, file, ⟨List.prefix_append .., by simpa using nonempty⟩, List.drop_left⟩

theorem follow_of_follow_cons {place q : Location} {s : String} {rest : List String}
    (name : IsName s)
    (h : t.follow place (s :: rest) = .ok q) : t.follow (place ++ [s]) rest = .ok q := by
  simp only [follow, name.notFiller, Bool.false_eq_true, if_false, name.notUp] at h
  split at h
  · cases h
  · split at h
    · cases h
    · split at h
      · cases h
      · exact h

theorem eq_append_of_follow {place q : Location} {names : List String}
    (proper : ∀ s ∈ names, IsName s)
    (h : t.follow place names = .ok q) : q = place ++ names := by
  induction names generalizing place with
  | nil => simpa [follow] using h.symm
  | cons s rest ih =>
    obtain ⟨name, later⟩ := List.forall_mem_cons.1 proper
    simpa using ih later (follow_of_follow_cons name h)

theorem IsProper.follow (proper : t.IsProper) {place names : Location} {bytes : ByteArray}
    (file : (place ++ names, bytes) ∈ t.files) : t.follow place names = .ok (place ++ names) := by
  induction names generalizing place with
  | nil => simp [FileTree.follow]
  | cons s rest ih =>
    have directory : t.hasDirectory place := hasDirectory_of_mem (by simp) file
    have noFile : (t.file? place).isSome = false := by
      refine Bool.eq_false_iff.2 fun found => ?_
      obtain ⟨_, other⟩ := isSome_file?_iff.1 found
      simp [proper.apart _ other] at directory
    obtain ⟨name, short⟩ := proper.names _ file s (by simp)
    simp only [FileTree.follow, noFile, directory, name.notFiller, name.notUp, Nat.not_lt.2 short,
      Bool.not_true, Bool.false_eq_true, if_false]
    have below : (place ++ [s] ++ rest, bytes) ∈ t.files := by simpa using file
    simpa using ih below

/-- Filler at the end of a path is followed to where it stands. -/
theorem follow_dropLast {segments : List String} {place : Location}
    (filler : segments.getLast? = some "") (h : t.follow [] segments = .ok place) :
    t.follow [] segments.dropLast = .ok place := by
  rw [← List.dropLast_append_getLast? "" filler, follow_append] at h
  cases front : t.follow [] segments.dropLast with
  | error fault => simp [front, Except.bind] at h
  | ok q =>
    simp only [front, Except.bind, FileTree.follow, isFiller] at h
    repeat' split at h
    all_goals simp_all

theorem locate_eq_ok_iff {p : Path} {place : Location} :
    t.locate p = .ok place ↔ textFault? p.text = none ∧ t.follow [] p.segments = .ok place := by
  unfold locate
  cases textFault? p.text <;> simp

/-- A path below a directory leads on from where the directory is. -/
theorem follow_below {p : Path} {place : Location} (located : t.locate p = .ok place)
    (names : List String) : t.follow [] (p.below names).segments = t.follow place names := by
  have followed := (locate_eq_ok_iff.1 located).2
  simp only [Path.below, Path.join, Bool.false_eq_true, if_false, follow_append]
  split
  case isTrue filler => rw [follow_dropLast filler followed]; rfl
  case isFalse => rw [followed]; rfl

theorem kind?_eq_file_iff {p : Path} :
    t.kind? p = some .file ↔ ∃ place, t.locate p = .ok place ∧ (t.file? place).isSome := by
  unfold kind?
  cases t.locate p with
  | error fault => simp
  | ok place =>
    simp only [Except.ok.injEq, exists_eq_left']
    repeat' split
    all_goals simp_all

theorem located_of_directory {p : Path} (h : t.kind? p = some .directory) :
    ∃ place, t.locate p = .ok place := by
  unfold kind? at h
  cases located : t.locate p with
  | error fault => simp [located] at h
  | ok place => exact ⟨place, rfl⟩

/-- The walk of a directory lists each file below it, if their paths can be looked up at all. -/
theorem IsProper.walks (proper : t.IsProper) {directory : Path}
    (isDirectory : t.disk.kind? directory = some .directory)
    (sound : ∀ names ∈ t.disk.below directory, textFault? (directory.below names).text = none) :
    t.disk.Walks directory := by
  obtain ⟨place, located⟩ := located_of_directory isDirectory
  intro names
  constructor
  · intro listed
    obtain ⟨nonempty, bytes, file⟩ := (mem_below_iff located names).1 listed
    refine ⟨nonempty, fun s hs => (proper.names _ file s (by simp [hs])).1, kind?_eq_file_iff.2 ?_⟩
    refine ⟨_, locate_eq_ok_iff.2 ⟨sound names listed, ?_⟩, isSome_file?_iff.2 ⟨bytes, file⟩⟩
    rw [follow_below located, proper.follow file]
  · rintro ⟨nonempty, areNames, isFile⟩
    obtain ⟨q, found, hasFile⟩ := kind?_eq_file_iff.1 isFile
    have followed := (locate_eq_ok_iff.1 found).2
    rw [follow_below located] at followed
    obtain rfl := eq_append_of_follow areNames followed
    exact (mem_below_iff located names).2 ⟨nonempty, isSome_file?_iff.1 hasFile⟩

end FileTree
end LoopCapture.Files
