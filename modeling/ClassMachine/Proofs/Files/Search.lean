import ClassMachine.Proofs.Files.Places

/-!
# The search along a class path

A class path opens one file after another until one of them is there or cannot be read for another
reason than that it is not there. All of them lie below their directories, unless the name of the
class begins with a dot or a slash: then one and the same absolute path is opened for every
directory.

In a tree of files the search finds what the first directory has that has the file, if in all of
those before it some name on the way is missing. Where the way leads through a file the search ends,
whatever the directories behind have.
-/

namespace ClassMachine.ClassPath

open FileTree

section opened

variable {read other : String → Except IoError Bytes} {file : String} {files more : List String}

/-- The files that the search opens, in order. -/
def openedFiles (read : String → Except IoError Bytes) : List String → List String
  | [] => []
  | file :: files =>
    file :: match read file with
      | .error .notFound => openedFiles read files
      | _ => []

def opened (path : ClassPath) (read : String → Except IoError Bytes) (name : String) :
    List String :=
  openedFiles read (path.candidates name)

theorem openedFiles_leads (read : String → Except IoError Bytes) (files : List String) :
    openedFiles read files <+: files := by
  induction files with
  | nil => exact List.prefix_rfl
  | cons file files ih =>
    simp only [openedFiles]
    split
    · exact (List.prefix_cons_inj file).2 ih
    · exact (List.prefix_cons_inj file).2 List.nil_prefix

theorem firstFile_congr (h : ∀ file ∈ openedFiles read files, other file = read file) :
    firstFile other files = firstFile read files := by
  induction files with
  | nil => rfl
  | cons file files ih =>
    simp only [openedFiles, List.forall_mem_cons] at h
    obtain ⟨hfile, hmore⟩ := h
    simp only [firstFile, hfile]
    cases hread : read file with
    | ok content => rfl
    | error e =>
      cases e with
      | notFound =>
        rw [hread] at hmore
        exact ih hmore
      | _ => rfl

/-- The first file that does not fail as missing settles the outcome. -/
theorem firstFile_eq_iff {outcome : Except IoError (Option Bytes)} :
    firstFile read files = outcome ↔
      outcome = .ok none ∧ (∀ file ∈ files, read file = .error .notFound) ∨
      ∃ front file back, files = front ++ file :: back ∧
        (∀ other ∈ front, read other = .error .notFound) ∧ read file ≠ .error .notFound ∧
        (read file).map some = outcome := by
  induction files with
  | nil => simp [firstFile, eq_comm]
  | cons file files ih =>
    rw [exists_split_cons_iff]
    by_cases hread : read file = .error .notFound
    · have hfirst : firstFile read (file :: files) = firstFile read files := by
        simp only [firstFile, hread]
      rw [hfirst, ih]
      simp [hread]
    · have hfirst : firstFile read (file :: files) = (read file).map some := by
        simp only [firstFile]
        cases hfile : read file with
        | ok content => rfl
        | error e =>
          cases e with
          | notFound => contradiction
          | _ => rfl
      rw [hfirst]
      simp [hread]

end opened

section below

/-- No name of a class leads back out of a directory. Unless the name begins with a separator, all
files that are opened for it lie below the directories of the class path, and whatever is read from
one of them is what a tree has below the place of its directory. Otherwise the same absolute path is
opened for every directory, and it lies below those that happen to be on its way. -/
theorem opened_below (path : ClassPath) (read : String → Except IoError Bytes) (name : String) :
    (∀ part ∈ Path.components (relativePath name), Path.Descends part) ∧
      (Path.isAbsolute (relativePath name) = true ↔ Leading name) ∧
      (∀ file ∈ path.opened read name, ∃ root ∈ path.roots, file = candidate root name ∧
        (¬ Leading name → Path.Below root file ∧
          ∀ tree : FileTree, ∀ place content, tree.Holds file content →
            tree.Leads (start root) (Path.components root) (.directory place) →
            tree.entry? (place ++ Path.components (relativePath name)) = some (.file content)) ∧
        (Leading name → file = relativePath name ∧ Path.isAbsolute file = true ∧
          (Path.Below root file ↔ Path.isAbsolute root = true ∧
            Path.components root <+: Path.components file))) ∧
      ∀ other, (∀ file ∈ path.opened read name, other file = read file) →
        (path.source other).read name = (path.source read).read name := by
  have hdescends : ∀ part ∈ Path.components (relativePath name), Path.Descends part :=
    fun _ => descends_of_mem_relativePath
  have habsolute := isAbsolute_relativePath_iff name
  refine ⟨hdescends, habsolute, fun file hfile => ?_, fun other => firstFile_congr⟩
  obtain ⟨root, hroot, rfl⟩ :=
    List.mem_map.1 ((openedFiles_leads read (path.candidates name)).subset hfile)
  have hbelow : Path.Below root (Path.join root (relativePath name)) ↔ _ :=
    Path.below_join_iff hdescends
  refine ⟨root, hroot, rfl, fun hnot => ?_, fun hleading => ?_⟩
  · have hrelative : Path.isAbsolute (relativePath name) = false := by
      rwa [← habsolute, Bool.not_eq_true] at hnot
    refine ⟨hbelow.2 (.inl hrelative), fun tree place content hholds hplace => ?_⟩
    exact hholds.entry?_eq hplace (Path.isAbsolute_join hrelative) (Path.components_join hrelative)
      (components_relativePath_ne_nil name) hdescends
  · have htrue := habsolute.2 hleading
    have hjoin := Path.join_of_isAbsolute root (relativePath name) htrue
    refine ⟨hjoin, by rw [hjoin, htrue], ?_⟩
    rw [hbelow, htrue, hjoin]
    simp

def library : FileTree where
  files := [(["lib", "a", "B.class"], [1])]
  directories := [["lib"], ["lib", "a"]]

theorem opened_below_library :
    "lib/a/B.class" ∈ (⟨["lib"]⟩ : ClassPath).opened library.read "a.B" ∧ ¬ Leading "a.B" ∧
      Path.Below "lib" "lib/a/B.class" ∧ library.Holds "lib/a/B.class" [1] ∧
      library.Leads (start "lib") (Path.components "lib") (.directory ["lib"]) ∧
      library.entry? (["lib"] ++ Path.components (relativePath "a.B")) = some (.file [1]) := by
  have hopened : "lib/a/B.class" ∈ (⟨["lib"]⟩ : ClassPath).opened library.read "a.B" := by
    decide +kernel
  have hnot : ¬ Leading "a.B" := by
    unfold Leading
    decide
  have hholds : library.Holds "lib/a/B.class" [1] :=
    (content?_eq_some_iff (by decide +kernel)).1 (by decide +kernel)
  have hleads : library.Leads (start "lib") (Path.components "lib") (.directory ["lib"]) :=
    walk_eq_ok_iff.1 rfl
  obtain ⟨-, -, hfiles, -⟩ := opened_below ⟨["lib"]⟩ library.read "a.B"
  obtain ⟨root, hroot, -, hbelow, -⟩ := hfiles _ hopened
  obtain rfl := List.mem_singleton.1 hroot
  obtain ⟨hpath, htree⟩ := hbelow hnot
  exact ⟨hopened, hnot, hpath, hholds, hleads, htree library ["lib"] [1] hholds hleads⟩

/-- A file that does not lie below the directory of the class path is opened for a class. -/
theorem exists_opened_elsewhere :
    ∃ file ∈ (⟨["lib"]⟩ : ClassPath).opened library.read "/a.B",
      file = "/a/B.class" ∧ Path.isAbsolute (relativePath "/a.B") = true ∧
        ¬ Path.Below "lib" file := by
  refine ⟨"/a/B.class", by decide +kernel, rfl, by decide +kernel, ?_⟩
  rintro ⟨habsolute, -⟩
  revert habsolute
  decide +kernel

end below

section search

variable {tree : FileTree} {path : ClassPath} {name root : String} {roots : List String}
  {content : Bytes}

theorem read_candidate_ok_iff :
    tree.read (candidate root name) = .ok content ↔ tree.Holds (candidate root name) content :=
  read_eq_ok_iff (endsInSlash_candidate root name)

theorem read_candidate_notFound_iff :
    tree.read (candidate root name) = .error .notFound ↔ tree.Misses (candidate root name) :=
  read_eq_notFound_iff (endsInSlash_candidate root name) (candidate_ne_empty root name)

theorem read_candidate_notADirectory_iff :
    tree.read (candidate root name) = .error .notADirectory ↔ tree.Blocked (candidate root name) :=
  read_eq_notADirectory_iff (endsInSlash_candidate root name)

/-- In the directories at the front the file is missing, and in the next one it is as it is said. -/
def Until (tree : FileTree) (path : ClassPath) (name : String) (found : String → Prop) : Prop :=
  ∃ front root back, path.roots = front ++ root :: back ∧
    (∀ other ∈ front, tree.Misses (candidate other name)) ∧ found (candidate root name)

/-- The first directory in which the file is not missing settles the search. -/
theorem read_eq_iff {outcome : Except IoError (Option Bytes)} :
    (path.source tree.read).read name = outcome ↔
      outcome = .ok none ∧ (∀ root ∈ path.roots, tree.Misses (candidate root name)) ∨
      Until tree path name fun file =>
        tree.read file ≠ .error .notFound ∧ (tree.read file).map some = outcome := by
  have hsearch : (path.source tree.read).read name =
      firstFile tree.read (path.roots.map (candidate · name)) := rfl
  rw [hsearch, firstFile_eq_iff, List.forall_mem_map]
  simp only [read_candidate_notFound_iff, Until]
  refine or_congr_right ⟨?_, ?_⟩
  · rintro ⟨front, file, back, hfiles, hfront, hfile⟩
    obtain ⟨before, rest, hroots, rfl, hrest⟩ := List.map_eq_append_iff.1 hfiles
    obtain ⟨root, after, rfl, rfl, rfl⟩ := List.map_eq_cons_iff.1 hrest
    simp only [List.forall_mem_map, read_candidate_notFound_iff] at hfront
    exact ⟨before, root, after, hroots, hfront, hfile⟩
  · rintro ⟨front, root, back, hroots, hfront, hroot⟩
    refine ⟨front.map (candidate · name), candidate root name, back.map (candidate · name), ?_, ?_,
      hroot⟩
    · rw [hroots, List.map_append, List.map_cons]
    · simpa only [List.forall_mem_map, read_candidate_notFound_iff] using hfront

theorem until_congr {found other : String → Prop}
    (h : ∀ root, found (candidate root name) ↔ other (candidate root name)) :
    Until tree path name found ↔ Until tree path name other := by
  simp only [Until, h]

/-- A search that should find the first file that is there does so unless a directory with a file in
the way comes before it. -/
theorem firstFile_eq_first_iff
    (hroots : ∀ root ∈ roots, (∃ content, tree.Holds (candidate root name) content) ∨
      tree.Misses (candidate root name) ∨ tree.Blocked (candidate root name)) :
    firstFile tree.read (roots.map (candidate · name)) =
        .ok (roots.findSome? fun root => tree.content? (candidate root name)) ↔
      ∀ front root back, roots = front ++ root :: back → tree.Blocked (candidate root name) →
        ∃ other ∈ front, ∃ content, tree.Holds (candidate other name) content := by
  induction roots with
  | nil => simp [firstFile]
  | cons root roots ih =>
    obtain ⟨hroot, hrest⟩ := List.forall_mem_cons.1 hroots
    rw [forall_split_cons_iff (P := fun front root => tree.Blocked (candidate root name) →
      ∃ other ∈ front, ∃ content, tree.Holds (candidate other name) content)]
    simp only [List.map_cons, List.findSome?_cons, List.mem_cons, exists_eq_or_imp, content?,
      firstFile, ← read_candidate_ok_iff, ← read_candidate_notADirectory_iff]
    rcases hroot with hholds | hmisses | hblocked
    · obtain ⟨content, hread⟩ := hholds.imp fun _ => read_candidate_ok_iff.2
      simp [hread, Except.toOption]
    · have hread := read_candidate_notFound_iff.2 hmisses
      simpa [hread, Except.toOption, content?, ← read_candidate_ok_iff,
        ← read_candidate_notADirectory_iff] using ih hrest
    · have hread := read_candidate_notADirectory_iff.2 hblocked
      simp [hread]

/-- The search finds a file exactly if it is missing in all directories before the one that has it,
finds none exactly if it is missing in all of them, and fails for a file in the way exactly if that
is the first thing to come to. So if in each directory the file is there, or missing, or has a file
in the way, the search finds the first one that is there just as long as no directory with a file in
the way comes before it. -/
theorem search_settled (tree : FileTree) (path : ClassPath) (name : String) :
    let outcome := (path.source tree.read).read name
    (∀ content, outcome = .ok (some content) ↔ Until tree path name (tree.Holds · content)) ∧
      (outcome = .ok none ↔ ∀ root ∈ path.roots, tree.Misses (candidate root name)) ∧
      (outcome = .error .notADirectory ↔ Until tree path name tree.Blocked) ∧
      ((∀ root ∈ path.roots, (∃ content, tree.Holds (candidate root name) content) ∨
          tree.Misses (candidate root name) ∨ tree.Blocked (candidate root name)) →
        (outcome = .ok (path.roots.findSome? fun root => tree.content? (candidate root name)) ↔
          ∀ front root back, path.roots = front ++ root :: back →
            tree.Blocked (candidate root name) →
            ∃ other ∈ front, ∃ content, tree.Holds (candidate other name) content)) := by
  refine ⟨fun content => ?_, ?_, ?_, firstFile_eq_first_iff⟩
  · refine read_eq_iff.trans ((or_iff_right (by simp)).trans (until_congr fun root => ?_))
    rw [← read_candidate_ok_iff]
    cases tree.read (candidate root name) <;> simp [Except.map]
  · refine read_eq_iff.trans ((or_iff_left ?_).trans (by simp))
    rintro ⟨front, root, back, -, -, hnot, hnone⟩
    cases hread : tree.read (candidate root name) <;> simp [hread, Except.map] at hnone
  · refine read_eq_iff.trans ((or_iff_right (by simp)).trans (until_congr fun root => ?_))
    rw [← read_candidate_notADirectory_iff]
    cases tree.read (candidate root name) with
    | ok content => simp [Except.map]
    | error e => simp +contextual [Except.map]

def shelf : FileTree where
  files := [(["r", "P.class"], [1]), (["plain"], [2])]
  directories := [["r"]]

theorem holds_shelf : shelf.Holds (candidate "r" "P") [1] :=
  (content?_eq_some_iff (endsInSlash_candidate "r" "P")).1 (by decide +kernel)

theorem blocked_shelf : shelf.Blocked (candidate "plain" "P") := by
  have hnames : Path.components (candidate "plain" "P") = ["plain"] ++ "P.class" :: [] := by
    decide +kernel
  have hstart : start (candidate "plain" "P") = .directory [] := by
    decide +kernel
  have hfile : shelf.Leads (start (candidate "plain" "P")) ["plain"] (.file [2]) :=
    hstart ▸ walk_eq_ok_iff.1 rfl
  exact ⟨(checkPath_eq_ok_iff _).2 (by decide +kernel), _, _, _, _, hnames, hfile, [2], rfl⟩

theorem settled_shelf : ∀ root ∈ ["r", "plain"],
    (∃ content, shelf.Holds (candidate root "P") content) ∨ shelf.Misses (candidate root "P") ∨
      shelf.Blocked (candidate root "P") := by
  intro root hroot
  rcases List.mem_cons.1 hroot with rfl | hroot
  · exact .inl ⟨[1], holds_shelf⟩
  · exact .inr (.inr (List.mem_singleton.1 hroot ▸ blocked_shelf))

theorem search_settled_shelf :
    (∀ root ∈ ["r", "plain"], (∃ content, shelf.Holds (candidate root "P") content) ∨
        shelf.Misses (candidate root "P") ∨ shelf.Blocked (candidate root "P")) ∧
      ((⟨["r", "plain"]⟩ : ClassPath).source shelf.read).read "P" = .ok (some [1]) := by
  refine ⟨settled_shelf, ?_⟩
  have hfirst : (["r", "plain"].findSome? fun root => shelf.content? (candidate root "P")) =
      some [1] := by
    decide +kernel
  have hnone : ¬ shelf.Blocked (candidate "r" "P") := by
    rw [← read_candidate_notADirectory_iff, read_candidate_ok_iff.2 holds_shelf]
    simp
  rw [← hfirst]
  refine ((search_settled shelf ⟨["r", "plain"]⟩ "P").2.2.2 settled_shelf).2 ?_
  refine forall_split_cons_iff.2 ⟨fun hblocked => absurd hblocked hnone, fun front _ _ _ _ => ?_⟩
  exact ⟨"r", List.mem_cons_self .., [1], holds_shelf⟩

/-- A file in the way at the first directory keeps the search from what the second one has. -/
theorem exists_search_ended :
    (∀ root ∈ ["plain", "r"], (∃ content, shelf.Holds (candidate root "P") content) ∨
        shelf.Misses (candidate root "P") ∨ shelf.Blocked (candidate root "P")) ∧
      (["plain", "r"].findSome? fun root => shelf.content? (candidate root "P")) = some [1] ∧
      ((⟨["plain", "r"]⟩ : ClassPath).source shelf.read).read "P" = .error .notADirectory := by
  refine ⟨fun root hroot => settled_shelf root ?_, by decide +kernel, ?_⟩
  · exact (List.Perm.swap ..).subset hroot
  · show firstFile shelf.read [candidate "plain" "P", candidate "r" "P"] = _
    simp only [firstFile, read_candidate_notADirectory_iff.2 blocked_shelf]

end search

end ClassMachine.ClassPath
