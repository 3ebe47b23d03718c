import LoopCapture.Command.Discovery
import LoopCapture.Proofs.Files.Paths
import LoopCapture.Proofs.Files.Walks
import Mathlib.Tactic.Tauto

/-!
# Which files are found

What is found depends on the files around and on what is searched, and not on how it is searched: a
file that is reached on several ways is listed once, in its place in the order of paths. Paths count
as the same when their components are.
-/

namespace LoopCapture.Command
open Files (Disk FileTree Path)
open Settings (Filter)

/-- Some glob includes a relative path, and none excludes it. -/
structure Admitted (filter : Filter) (relative : String) : Prop where
  included : ∃ glob ∈ filter.included, Glob.fits glob relative
  notExcluded : ∀ glob ∈ filter.excluded, Glob.fits glob relative = false

/-- A file should be found when it is named, whatever the filter says, and when it is below a
directory and admitted as seen from there. -/
inductive IsWanted (disk : Disk) (filter : Filter) (root : Path) : Path → Prop where
  | named (isFile : disk.kind? root = some .file) : IsWanted disk filter root root
  | below (names : List String) (isDirectory : disk.kind? root = some .directory)
      (leads : disk.LeadsToFile root names) (admitted : Admitted filter ("/".intercalate names)) :
      IsWanted disk filter root (root.below names)

/-- A search fails when there is nothing at some root, and else lists in strict order the files that
should be found under the roots. -/
structure Finds (disk : Disk) (filter : Filter) (roots : List Path)
    (outcome : Except Failure (List Path)) : Prop where
  fails : (∃ failure, outcome = .error failure) ↔ ∃ root ∈ roots, disk.kind? root = none
  increasing : ∀ files, outcome = .ok files → files.Pairwise (·.key < ·.key)
  sound : ∀ files, outcome = .ok files →
    ∀ file ∈ files, ∃ root ∈ roots, IsWanted disk filter root file
  complete : ∀ files, outcome = .ok files → ∀ root ∈ roots, ∀ p, IsWanted disk filter root p →
    ∃ file ∈ files, file.key = p.key

/-- Two searches both fail, or they list the same paths. -/
inductive Agree : Except Failure (List Path) → Except Failure (List Path) → Prop where
  | failures (a b : Failure) : Agree (.error a) (.error b)
  | files {as bs : List Path} (same : as.map Path.key = bs.map Path.key) : Agree (.ok as) (.ok bs)

/-- Paths in the order of paths, where some may be the same. -/
def InOrder (paths : List Path) : Prop := paths.Pairwise (·.key ≤ ·.key)

theorem dropRepeats_sublist (paths : List Path) : (dropRepeats paths).Sublist paths := by
  induction paths using dropRepeats.induct with
  | case1 => simp [dropRepeats]
  | case2 p => simp [dropRepeats]
  | case3 p q rest same ih =>
    rw [dropRepeats, if_pos same]
    exact ih.trans (by simp)
  | case4 p q rest other ih =>
    rw [dropRepeats, if_neg other]
    exact ih.cons_cons p

theorem key_mem_dropRepeats {paths : List Path} {k : List (ℕ ×ₗ String)}
    (h : k ∈ paths.map Path.key) :
    k ∈ (dropRepeats paths).map Path.key := by
  induction paths using dropRepeats.induct with
  | case1 => simp at h
  | case2 p => simpa [dropRepeats] using h
  | case3 p q rest same ih =>
    rw [dropRepeats, if_pos same]
    refine ih ?_
    simpa [(Path.isSame_iff p q).1 same] using h
  | case4 p q rest other ih =>
    rw [dropRepeats, if_neg other, List.map_cons, List.mem_cons]
    exact (List.mem_cons.1 h).imp_right ih

theorem InOrder.dropRepeats {paths : List Path} (h : InOrder paths) :
    (dropRepeats paths).Pairwise (·.key < ·.key) := by
  induction paths using dropRepeats.induct with
  | case1 => simp [Command.dropRepeats]
  | case2 p => simp [Command.dropRepeats]
  | case3 p q rest same ih =>
    rw [Command.dropRepeats, if_pos same]
    exact ih (h.sublist (by simp))
  | case4 p q rest other ih =>
    rw [Command.dropRepeats, if_neg other]
    obtain ⟨first, later⟩ := List.pairwise_cons.1 h
    refine List.pairwise_cons.2 ⟨fun r hr => ?_, ih later⟩
    have next : p.key < q.key :=
      (first q (by simp)).lt_of_ne fun same => other ((Path.isSame_iff p q).2 same)
    rcases List.mem_cons.1 ((dropRepeats_sublist _).subset hr) with rfl | behind
    · exact next
    · exact next.trans_le ((List.pairwise_cons.1 later).1 r behind)

theorem inOrder_mergeSort (paths : List Path) :
    InOrder (paths.mergeSort fun a b => !b.precedes a) := by
  have ordered (a b : Path) : (!b.precedes a) = true ↔ a.key ≤ b.key := by
    rw [Bool.not_eq_true', ← not_lt, ← Path.precedes_iff, Bool.not_eq_true]
  refine (List.pairwise_mergeSort ?_ ?_ paths).imp fun h => (ordered _ _).1 h
  · intro a b c
    simp only [ordered]
    exact le_trans
  · intro a b
    simp only [Bool.or_eq_true, ordered]
    exact le_total _ _

theorem pairwise_inOrder (paths : List Path) : (inOrder paths).Pairwise (·.key < ·.key) :=
  (inOrder_mergeSort paths).dropRepeats

theorem mem_of_mem_inOrder {paths : List Path} {p : Path} (h : p ∈ inOrder paths) : p ∈ paths :=
  List.mem_mergeSort.1 ((dropRepeats_sublist _).subset h)

/-- No path is lost: each is the same as one that stays. -/
theorem mem_keys_inOrder {paths : List Path} {k : List (ℕ ×ₗ String)} :
    k ∈ (inOrder paths).map Path.key ↔ k ∈ paths.map Path.key := by
  constructor
  · intro h
    obtain ⟨p, hp, rfl⟩ := List.mem_map.1 h
    exact List.mem_map_of_mem (mem_of_mem_inOrder hp)
  · intro h
    obtain ⟨p, hp, rfl⟩ := List.mem_map.1 h
    exact key_mem_dropRepeats (List.mem_map_of_mem (List.mem_mergeSort.2 hp))

theorem admits_iff (filter : Filter) (relative : String) :
    filter.admits relative ↔ Admitted filter relative := by
  simp only [Filter.admits, Filter.excludes, Bool.and_eq_true, Bool.not_eq_true', List.any_eq_true,
    List.any_eq_false, Bool.not_eq_true]
  exact ⟨fun ⟨included, notExcluded⟩ => ⟨included, notExcluded⟩,
    fun h => ⟨h.included, h.notExcluded⟩⟩

section Each
variable {α β ε : Type} {f : α → Except ε (List β)}

theorem exists_mapM_error_iff (xs : List α) :
    (∃ e, xs.mapM f = .error e) ↔ ∃ x ∈ xs, ∃ e, f x = .error e := by
  induction xs with
  | nil => simp [pure, Except.pure]
  | cons x xs ih =>
    rw [List.exists_mem_cons_iff, ← ih, List.mapM_cons]
    cases f x with
    | error e => simp [bind, Except.bind]
    | ok ys => cases xs.mapM f <;> simp [bind, Except.bind, pure, Except.pure]

theorem mem_flatten_mapM_iff {xs : List α} {lists : List (List β)}
    (h : xs.mapM f = .ok lists) (b : β) :
    b ∈ lists.flatten ↔ ∃ x ∈ xs, ∃ ys, f x = .ok ys ∧ b ∈ ys := by
  induction xs generalizing lists with
  | nil =>
    obtain rfl : [] = lists := by simpa [pure, Except.pure] using h
    simp
  | cons x xs ih =>
    rw [List.mapM_cons] at h
    cases head : f x with
    | error e => simp [head, bind, Except.bind] at h
    | ok ys =>
      cases tail : xs.mapM f with
      | error e => simp [head, tail, bind, Except.bind] at h
      | ok rest =>
        obtain rfl : ys :: rest = lists := by
          simpa [head, tail, bind, Except.bind, pure, Except.pure] using h
        simp [head, ih tail]

end Each

variable {disk : Disk} {filter : Filter}

theorem exists_filesAt_error_iff (root : Path) :
    (∃ failure, filesAt disk filter root = .error failure) ↔ disk.kind? root = none := by
  unfold filesAt
  split <;> simp_all

theorem mem_filesAt_iff {root : Path} {files : List Path}
    (walks : disk.kind? root = some .directory → disk.Walks root)
    (h : filesAt disk filter root = .ok files) (p : Path) :
    p ∈ files ↔ IsWanted disk filter root p := by
  unfold filesAt at h
  split at h
  case h_1 isFile =>
    obtain rfl : [root] = files := by simpa using h
    rw [List.mem_singleton]
    constructor
    · rintro rfl
      exact .named isFile
    · rintro (_ | ⟨_, isDirectory⟩)
      · rfl
      · simp [isFile] at isDirectory
  case h_2 isDirectory =>
    obtain rfl := Except.ok.inj h
    simp only [List.mem_map, List.mem_filter, admits_iff, walks isDirectory _]
    constructor
    · rintro ⟨names, ⟨leads, admitted⟩, rfl⟩
      exact .below names isDirectory leads admitted
    · rintro (isFile | ⟨names, _, leads, admitted⟩)
      · simp [isDirectory] at isFile
      · exact ⟨names, ⟨leads, admitted⟩, rfl⟩
  case h_3 => cases h

section Search
variable {workingDirectory : Path} {paths : List String}

theorem exists_discover_error_iff :
    (∃ failure, discover disk workingDirectory filter paths = .error failure) ↔
      ∃ root ∈ roots workingDirectory paths, disk.kind? root = none := by
  have gathering := exists_mapM_error_iff (f := filesAt disk filter) (roots workingDirectory paths)
  simp only [exists_filesAt_error_iff] at gathering
  rw [← gathering]
  unfold discover
  cases (roots workingDirectory paths).mapM (filesAt disk filter) <;>
    simp [bind, Except.bind, pure, Except.pure]

theorem mapM_of_discover {files : List Path}
    (h : discover disk workingDirectory filter paths = .ok files) :
    ∃ lists, (roots workingDirectory paths).mapM (filesAt disk filter) = .ok lists ∧
      files = inOrder lists.flatten := by
  unfold discover at h
  cases gathered : (roots workingDirectory paths).mapM (filesAt disk filter) with
  | error failure => simp [gathered, bind, Except.bind] at h
  | ok lists =>
    refine ⟨lists, rfl, ?_⟩
    simpa [gathered, bind, Except.bind, pure, Except.pure, eq_comm] using h

theorem exists_filesAt {root : Path} (isThere : disk.kind? root ≠ none) :
    ∃ files, filesAt disk filter root = .ok files := by
  cases found : filesAt disk filter root with
  | error failure => exact absurd ((exists_filesAt_error_iff root).1 ⟨failure, found⟩) isThere
  | ok files => exact ⟨files, rfl⟩

theorem IsWanted.isThere {root p : Path} (h : IsWanted disk filter root p) :
    disk.kind? root ≠ none := by
  rcases h with isFile | ⟨_, isDirectory⟩ <;> simp [*]

/-- Before the paths are put in order, those are gathered that should be found. -/
theorem mem_gathered_iff (walks : disk.WalksEach (roots workingDirectory paths))
    {lists : List (List Path)}
    (h : (roots workingDirectory paths).mapM (filesAt disk filter) = .ok lists) (p : Path) :
    p ∈ lists.flatten ↔ ∃ root ∈ roots workingDirectory paths, IsWanted disk filter root p := by
  rw [mem_flatten_mapM_iff h]
  constructor
  · rintro ⟨root, hroot, files, found, hp⟩
    exact ⟨root, hroot, (mem_filesAt_iff (walks root hroot) found p).1 hp⟩
  · rintro ⟨root, hroot, wanted⟩
    obtain ⟨files, found⟩ := exists_filesAt wanted.isThere
    exact ⟨root, hroot, files, found, (mem_filesAt_iff (walks root hroot) found p).2 wanted⟩

theorem finds_discover (walks : disk.WalksEach (roots workingDirectory paths)) :
    Finds disk filter (roots workingDirectory paths)
      (discover disk workingDirectory filter paths) where
  fails := exists_discover_error_iff
  increasing := by
    rintro files h
    obtain ⟨lists, -, rfl⟩ := mapM_of_discover h
    exact pairwise_inOrder _
  sound := by
    rintro files h file hfile
    obtain ⟨lists, gathered, rfl⟩ := mapM_of_discover h
    exact (mem_gathered_iff walks gathered file).1 (mem_of_mem_inOrder hfile)
  complete := by
    rintro files h root hroot p wanted
    obtain ⟨lists, gathered, rfl⟩ := mapM_of_discover h
    have listed := List.mem_map_of_mem (f := Path.key)
      ((mem_gathered_iff walks gathered p).2 ⟨root, hroot, wanted⟩)
    exact List.mem_map.1 (mem_keys_inOrder.2 listed)

end Search

section Agreement
variable {disk' : Disk} {rs rs' : List Path} {a b : Except Failure (List Path)}

theorem IsWanted.congr (same : disk'.kind? = disk.kind?) {root p : Path}
    (h : IsWanted disk filter root p) : IsWanted disk' filter root p := by
  cases h with
  | named isFile => exact .named (same ▸ isFile)
  | below names isDirectory leads admitted =>
    exact .below names (same ▸ isDirectory) (leads.congr same) admitted

theorem Finds.congr (h : Finds disk filter rs a) (same : disk'.kind? = disk.kind?)
    (members : ∀ root, root ∈ rs' ↔ root ∈ rs) : Finds disk' filter rs' a where
  fails := by simpa only [members, same] using h.fails
  increasing := h.increasing
  sound files hok file hfile := by
    obtain ⟨root, hroot, wanted⟩ := h.sound files hok file hfile
    exact ⟨root, (members root).2 hroot, wanted.congr same⟩
  complete files hok root hroot p wanted :=
    h.complete files hok root ((members root).1 hroot) p (wanted.congr same.symm)

theorem Finds.key_mem {as bs : List Path} (ha : Finds disk filter rs (.ok as))
    (hb : Finds disk filter rs (.ok bs)) {k : List (ℕ ×ₗ String)} (h : k ∈ as.map Path.key) :
    k ∈ bs.map Path.key := by
  obtain ⟨p, hp, rfl⟩ := List.mem_map.1 h
  obtain ⟨root, hroot, wanted⟩ := ha.sound as rfl p hp
  obtain ⟨q, hq, same⟩ := hb.complete bs rfl root hroot p wanted
  exact List.mem_map.2 ⟨q, hq, same⟩

/-- What should be found leaves no choice. -/
theorem Finds.agree (ha : Finds disk filter rs a) (hb : Finds disk filter rs b) : Agree a b := by
  cases a with
  | error e =>
    obtain ⟨e', rfl⟩ := hb.fails.2 (ha.fails.1 ⟨e, rfl⟩)
    exact .failures e e'
  | ok as =>
    cases b with
    | error e =>
      obtain ⟨e', h⟩ := ha.fails.2 (hb.fails.1 ⟨e, rfl⟩)
      cases h
    | ok bs =>
      exact .files <| Path.map_key_eq (ha.increasing as rfl) (hb.increasing bs rfl) fun k =>
        ⟨ha.key_mem hb, hb.key_mem ha⟩

end Agreement

theorem roots_eq_map (workingDirectory : Path) {paths : List String} (nonempty : paths ≠ []) :
    roots workingDirectory paths = paths.map fun path => workingDirectory.join (.ofText path) := by
  simp [roots, nonempty]

/-- A search for some paths, each seen from the working directory, fails exactly when there is
nothing at one of them, and otherwise it lists in strict order the files that are named and those
below a named directory that the filter admits as seen from there. So neither the order or number of
the paths nor the order of the walks makes a difference: two searches of the same files for the same
paths agree. -/
theorem discover_exactly (disk : Disk) (workingDirectory : Path) (filter : Filter)
    {paths : List String}
    (nonempty : paths ≠ [])
    (walks : disk.WalksEach (paths.map fun path => workingDirectory.join (.ofText path))) :
    Finds disk filter (paths.map fun path => workingDirectory.join (.ofText path))
        (discover disk workingDirectory filter paths) ∧
      ∀ (disk' : Disk) (paths' : List String), disk'.kind? = disk.kind? →
        disk'.WalksEach (paths.map fun path => workingDirectory.join (.ofText path)) →
        (∀ path, path ∈ paths' ↔ path ∈ paths) →
        Agree (discover disk' workingDirectory filter paths')
          (discover disk workingDirectory filter paths) := by
  have named := roots_eq_map workingDirectory nonempty
  have found : Finds disk filter _ (discover disk workingDirectory filter paths) :=
    finds_discover (named ▸ walks)
  refine ⟨named ▸ found, fun disk' paths' same walks' members => ?_⟩
  obtain ⟨path, listed⟩ := List.exists_mem_of_ne_nil paths nonempty
  have named' := roots_eq_map workingDirectory (List.ne_nil_of_mem ((members path).2 listed))
  have sameRoots (root : Path) : root ∈ roots workingDirectory paths' ↔
      root ∈ roots workingDirectory paths := by
    simp only [named, named', List.mem_map, members]
  have found' : Finds disk' filter _ (discover disk' workingDirectory filter paths') :=
    finds_discover fun root hroot => walks' root (named ▸ (sameRoots root).1 hroot)
  exact (found'.congr same.symm fun root => (sameRoots root).symm).agree found

/-- A directory with files and with another directory. -/
def nested : FileTree where
  files := [(["src", "a.js"], .empty), (["src", "lib", "b.js"], .empty),
    (["src", "lib", "old", "c.js"], .empty)]
  directories := []

def oldFiles : List Glob.Piece := [.literal 'o', .literal 'l', .literal 'd', .literal '/', .star]

/-- Includes every file but those in a directory that is seen as old. -/
def notOld : Filter where
  included := [[.leading]]
  excluded := [oldFiles]

/-- What is old is not told by the name of a file, so the text alone decides. -/
theorem admits_notOld (path : String) : notOld.admits path =
    !(Glob.reachByAll path.toUTF8.toList (.start path.toUTF8.toList) oldFiles).getLastD false := by
  have unnamed : Glob.isByName oldFiles = false := by decide
  have fits : Glob.fits oldFiles path =
      (Glob.reachByAll path.toUTF8.toList (.start path.toUTF8.toList) oldFiles).getLastD false := by
    rw [Glob.fits]
    · simp only [unnamed, Bool.and_false, Bool.not_false, Bool.and_true]
    · simp [oldFiles]
  rw [← fits]
  simp [Filter.admits, Filter.excludes, notOld, oldFiles, Glob.fits]

theorem splitOn_nested : ∀ name ∈ [".", "lib", "a.js"], name.splitOn "/" = [name] := by
  simp only [List.forall_mem_cons]
  refine ⟨?_, ?_, ?_, List.forall_mem_nil _⟩
  all_goals
    rw [String.splitOn, if_neg (by decide)]
    repeat rw [String.splitOnAux, if_neg (by decide), if_neg (by decide)]
    rw [String.splitOnAux, if_pos (by decide)]
    rfl

theorem places_nested :
    ([".", "lib", "a.js"].map fun path => (⟨true, ["src"]⟩ : Path).join (.ofText path)) =
      [⟨true, ["src", "."]⟩, ⟨true, ["src", "lib"]⟩, ⟨true, ["src", "a.js"]⟩] := by
  simp [Path.ofText, splitOn_nested, Path.join]

theorem nested_walks : nested.disk.WalksEach
    ([".", "lib", "a.js"].map fun path => (⟨true, ["src"]⟩ : Path).join (.ofText path)) := by
  intro root h isDirectory
  have proper : nested.IsProper := ⟨by decide +kernel, by decide +kernel⟩
  rw [places_nested] at h
  have sound : ∀ names ∈ nested.disk.below root,
    Files.textFault? (root.below names).text = none := by
    revert root
    decide +kernel
  exact proper.walks isDirectory sound

theorem mapM_filesAt_nested :
    [⟨true, ["src", "."]⟩, ⟨true, ["src", "lib"]⟩, ⟨true, ["src", "a.js"]⟩].mapM
      (filesAt nested.disk notOld) = .ok
        [[⟨true, ["src", ".", "a.js"]⟩, ⟨true, ["src", ".", "lib", "b.js"]⟩,
            ⟨true, ["src", ".", "lib", "old", "c.js"]⟩],
          [⟨true, ["src", "lib", "b.js"]⟩], [⟨true, ["src", "a.js"]⟩]] := by
  have kinds : nested.disk.kind? ⟨true, ["src", "."]⟩ = some .directory ∧
      nested.disk.kind? ⟨true, ["src", "lib"]⟩ = some .directory ∧
      nested.disk.kind? ⟨true, ["src", "a.js"]⟩ = some .file := by decide +kernel
  have below : nested.disk.below ⟨true, ["src", "."]⟩ =
        [["a.js"], ["lib", "b.js"], ["lib", "old", "c.js"]] ∧
      nested.disk.below ⟨true, ["src", "lib"]⟩ = [["b.js"], ["old", "c.js"]] := by decide +kernel
  have admits : notOld.admits ("/".intercalate ["a.js"]) ∧
      notOld.admits ("/".intercalate ["lib", "b.js"]) ∧
      notOld.admits ("/".intercalate ["lib", "old", "c.js"]) ∧
      notOld.admits ("/".intercalate ["b.js"]) ∧
      ¬ notOld.admits ("/".intercalate ["old", "c.js"]) := by
    simp only [admits_notOld]
    decide +kernel
  simp only [List.mapM_cons, List.mapM_nil, filesAt, kinds, below, List.filter_cons, admits]
  rfl

theorem agree_discover_nested :
    Agree (discover nested.disk ⟨true, ["src"]⟩ notOld [".", "lib", "a.js"])
      (.ok [⟨true, ["src", "a.js"]⟩, ⟨true, ["src", "lib", "b.js"]⟩,
        ⟨true, ["src", "lib", "old", "c.js"]⟩]) := by
  rw [discover, roots_eq_map _ (List.cons_ne_nil "." _), places_nested, mapM_filesAt_nested]
  refine .files (Path.map_key_eq (pairwise_inOrder _) ?_ fun k => mem_keys_inOrder.trans ?_)
  · simp only [← Path.precedes_iff]
    decide +kernel
  · have shorter (p q : Path) (same : p.isSame q) : p.key = q.key := (Path.isSame_iff p q).1 same
    simp only [List.flatten_cons, List.flatten_nil, List.append_nil, List.cons_append,
      List.nil_append, List.map_cons, List.map_nil, List.mem_cons, List.not_mem_nil, or_false,
      shorter ⟨true, ["src", ".", "a.js"]⟩ ⟨true, ["src", "a.js"]⟩ (by decide +kernel),
      shorter ⟨true, ["src", ".", "lib", "b.js"]⟩ ⟨true, ["src", "lib", "b.js"]⟩
        (by decide +kernel),
      shorter ⟨true, ["src", ".", "lib", "old", "c.js"]⟩ ⟨true, ["src", "lib", "old", "c.js"]⟩
        (by decide +kernel)]
    tauto

/-- A directory, one inside of it and a file of it are searched in another order and more than once,
and walked the other way round. A file that is old as seen from the inner directory is found from
the outer one. -/
theorem discover_exactly_nested :
    Finds nested.disk notOld
        ([".", "lib", "a.js"].map fun path => (⟨true, ["src"]⟩ : Path).join (.ofText path))
        (discover nested.disk ⟨true, ["src"]⟩ notOld [".", "lib", "a.js"]) ∧
      Agree (discover nested.disk.backwards ⟨true, ["src"]⟩ notOld ["lib", "a.js", ".", "lib"])
        (discover nested.disk ⟨true, ["src"]⟩ notOld [".", "lib", "a.js"]) ∧
      Agree (discover nested.disk ⟨true, ["src"]⟩ notOld [".", "lib", "a.js"])
        (.ok [⟨true, ["src", "a.js"]⟩, ⟨true, ["src", "lib", "b.js"]⟩,
          ⟨true, ["src", "lib", "old", "c.js"]⟩]) := by
  obtain ⟨found, agree⟩ :=
    discover_exactly nested.disk ⟨true, ["src"]⟩ notOld (List.cons_ne_nil "." _) nested_walks
  have same := nested.disk.kind?_backwards
  refine ⟨found, agree nested.disk.backwards _ same nested_walks.backwards fun path => ?_,
    agree_discover_nested⟩
  simp only [List.mem_cons, List.not_mem_nil, or_false]
  tauto

end LoopCapture.Command
