import ClassMachine.Files.Tree
import ClassMachine.Proofs.Files.Paths

/-!
# Where paths lead in a file tree

The names in a path lead from node to node. A path holds a file if they lead to it; it misses if
some name on the way is not there; and it is blocked if a name is looked for in a file. Names that
descend lead from a directory to what the tree has in the place with these names added.
-/

namespace ClassMachine

section splits

variable {α : Type} {P : List α → α → Prop} {first : α} {rest : List α}

theorem exists_split_cons_iff :
    (∃ front x back, first :: rest = front ++ x :: back ∧ P front x) ↔
      P [] first ∨ ∃ front x back, rest = front ++ x :: back ∧ P (first :: front) x := by
  constructor
  · rintro ⟨front, x, back, hsplit, h⟩
    rcases List.cons_eq_append_iff.1 hsplit with ⟨rfl, hback⟩ | ⟨tail, rfl, hrest⟩
    · obtain ⟨rfl, -⟩ := List.cons.inj hback
      exact .inl h
    · exact .inr ⟨tail, x, back, hrest, h⟩
  · rintro (h | ⟨front, x, back, rfl, h⟩)
    · exact ⟨[], first, rest, rfl, h⟩
    · exact ⟨first :: front, x, back, rfl, h⟩

theorem forall_split_cons_iff :
    (∀ front x back, first :: rest = front ++ x :: back → P front x) ↔
      P [] first ∧ ∀ front x back, rest = front ++ x :: back → P (first :: front) x := by
  have hsplit : (¬ ∃ front x back, first :: rest = front ++ x :: back ∧ ¬ P front x) ↔ _ :=
    not_congr exists_split_cons_iff
  simpa only [not_exists, not_and, Classical.not_not, not_or] using hsplit

end splits

namespace FileTree

/-- The names lead from one node of the tree to another. -/
inductive Leads (tree : FileTree) : Node → List String → Node → Prop
  | here (node) : Leads tree node [] node
  | on {node next last name names} : tree.enter name node = .ok next →
      Leads tree next names last → Leads tree node (name :: names) last

/-- Where a path starts: at the top of the tree, or outside of it. -/
def start (path : String) : Node :=
  if Path.isAbsolute path then .outside else .directory []

def Holds (tree : FileTree) (path : String) (content : Bytes) : Prop :=
  checkPath path = .ok () ∧ tree.Leads (start path) (Path.components path) (.file content)

/-- The walk along the path fails at a name that can be no place in the node come to. -/
def FailsAt (tree : FileTree) (path : String) (failure : Node → String → Prop) : Prop :=
  checkPath path = .ok () ∧ ∃ front name back node, Path.components path = front ++ name :: back ∧
    tree.Leads (start path) front node ∧ failure node name

def Misses (tree : FileTree) (path : String) : Prop :=
  tree.FailsAt path fun node name => tree.enter name node = .error .notFound

/-- A name on the path is looked for in a file. -/
def Blocked (tree : FileTree) (path : String) : Prop :=
  tree.FailsAt path fun node _ => ∃ content, node = .file content

theorem checkPath_eq_ok_iff (path : String) : checkPath path = .ok () ↔
    path.toList.contains '\x00' = false ∧ (Utf8.encode path).length < pathLimit ∧ path ≠ "" := by
  unfold checkPath
  grind

section leads

variable {tree : FileTree} {node middle last next : Node} {name : String}
  {names front back place : List String} {e : IoError}

theorem leads_nil_iff : tree.Leads node [] last ↔ node = last := by
  constructor
  · rintro ⟨⟩
    rfl
  · rintro rfl
    exact .here node

theorem leads_cons_iff : tree.Leads node (name :: names) last ↔
    ∃ next, tree.enter name node = .ok next ∧ tree.Leads next names last := by
  constructor
  · rintro (_ | ⟨hnext, hrest⟩)
    exact ⟨_, hnext, hrest⟩
  · rintro ⟨next, hnext, hrest⟩
    exact .on hnext hrest

theorem walk_eq_ok_iff : tree.walk names node = .ok last ↔ tree.Leads node names last := by
  induction names generalizing node with
  | nil => simp [walk, leads_nil_iff]
  | cons name names ih =>
    rw [walk, leads_cons_iff]
    cases tree.enter name node with
    | error e => simp [bind, Except.bind]
    | ok next => simp [bind, Except.bind, ih]

/-- A walk fails at the first name that cannot be entered. -/
theorem walk_eq_error_iff :
    tree.walk names node = .error e ↔ ∃ front name back middle, names = front ++ name :: back ∧
      tree.Leads node front middle ∧ tree.enter name middle = .error e := by
  simp only [exists_and_left]
  induction names generalizing node with
  | nil => simp [walk]
  | cons name names ih =>
    rw [walk, exists_split_cons_iff]
    simp only [leads_nil_iff, leads_cons_iff, exists_eq_left']
    cases henter : tree.enter name node with
    | error found => simp [bind, Except.bind]
    | ok next => simp [bind, Except.bind, ih]

theorem Leads.unique (h : tree.Leads node names last) (hmiddle : tree.Leads node names middle) :
    middle = last :=
  Except.ok.inj ((walk_eq_ok_iff.2 hmiddle).symm.trans (walk_eq_ok_iff.2 h))

theorem leads_append_iff :
    tree.Leads node (front ++ back) last ↔
      ∃ middle, tree.Leads node front middle ∧ tree.Leads middle back last := by
  induction front generalizing node with
  | nil => simp [leads_nil_iff]
  | cons name front ih =>
    simp only [List.cons_append, leads_cons_iff, ih]
    constructor
    · rintro ⟨next, hnext, middle, hfront, hback⟩
      exact ⟨middle, ⟨next, hnext, hfront⟩, hback⟩
    · rintro ⟨middle, ⟨next, hnext, hfront⟩, hback⟩
      exact ⟨next, hnext, middle, hfront, hback⟩

theorem enter_eq_notADirectory_iff :
    tree.enter name node = .error .notADirectory ↔ ∃ content, node = .file content := by
  cases node with
  | file content => exact iff_of_true rfl ⟨content, rfl⟩
  | outside => simp only [enter]; grind
  | directory place => simp only [enter, child]; grind

theorem entry?_of_enter (hname : Path.Descends name)
    (h : tree.enter name (.directory place) = .ok next) :
    tree.entry? (place ++ [name]) = some next := by
  simp only [enter, if_neg hname.1, if_neg hname.2, child] at h
  split at h
  · contradiction
  · split at h
    next node hentry => exact Except.ok.inj h ▸ hentry
    next => contradiction

/-- The tree has a directory in its own place, and files. -/
theorem cases_of_entry? {node : Node} (h : tree.entry? place = some node) :
    node = .directory place ∨ ∃ content, node = .file content := by
  unfold entry? at h
  split at h
  · exact .inl (Option.some.inj h).symm
  · obtain ⟨content, -, rfl⟩ := Option.map_eq_some_iff.1 h
    exact .inr ⟨content, rfl⟩

/-- Names that descend lead to what the tree has in that place. -/
theorem Leads.entry?_eq (h : tree.Leads (.directory place) names last)
    (hnames : ∀ name ∈ names, Path.Descends name) (hne : names ≠ []) :
    tree.entry? (place ++ names) = some last := by
  induction names generalizing place with
  | nil => contradiction
  | cons name names ih =>
    obtain _ | ⟨hnext, hrest⟩ := h
    obtain ⟨hname, hnames⟩ := List.forall_mem_cons.1 hnames
    have hentry := entry?_of_enter hname hnext
    cases hrest with
    | here => exact hentry
    | on hmore hrest =>
      rw [List.append_cons]
      rcases cases_of_entry? hentry with rfl | ⟨content, rfl⟩
      · exact ih (.on hmore hrest) hnames (List.cons_ne_nil _ _)
      · contradiction

end leads

section read

variable {tree : FileTree} {path : String} {content : Bytes}

/-- A path that does not end in a slash is read by walking along it. -/
theorem read_eq (tree : FileTree) (hslash : Path.endsInSlash path = false) :
    tree.read path =
      match checkPath path with
      | .error e => .error e
      | .ok _ =>
        match tree.walk (Path.components path) (start path) with
        | .error e => .error e
        | .ok (.file content) => .ok content
        | .ok _ => .error .isADirectory := by
  simp only [read, find, start]
  cases checkPath path with
  | error e => rfl
  | ok _ =>
    simp only [hslash]
    cases tree.walk (Path.components path)
        (if Path.isAbsolute path then .outside else .directory []) with
    | error e => rfl
    | ok node => cases node <;> rfl

theorem read_eq_ok_iff (hslash : Path.endsInSlash path = false) :
    tree.read path = .ok content ↔ tree.Holds path content := by
  rw [read_eq tree hslash, Holds, ← walk_eq_ok_iff]
  cases checkPath path with
  | error e => simp
  | ok _ =>
    cases tree.walk (Path.components path) (start path) with
    | error e => simp
    | ok node => cases node <;> simp

/-- A failure that comes neither from the path as a text nor from what it leads to is one of the
walk. -/
theorem read_eq_error_iff (hslash : Path.endsInSlash path = false) {e : IoError}
    (hcheck : checkPath path ≠ .error e) (he : e ≠ .isADirectory) :
    tree.read path = .error e ↔
      tree.FailsAt path fun node name => tree.enter name node = .error e := by
  rw [read_eq tree hslash, FailsAt, ← walk_eq_error_iff]
  cases hpath : checkPath path with
  | error found =>
    refine iff_of_false (fun h => hcheck ?_) (by simp)
    rw [hpath, Except.error.inj h]
  | ok _ =>
    cases tree.walk (Path.components path) (start path) with
    | error found => simp
    | ok node => cases node <;> simp [he.symm]

theorem read_eq_notFound_iff (hslash : Path.endsInSlash path = false) (hpath : path ≠ "") :
    tree.read path = .error .notFound ↔ tree.Misses path := by
  refine read_eq_error_iff hslash ?_ (by simp)
  unfold checkPath
  grind

theorem read_eq_notADirectory_iff (hslash : Path.endsInSlash path = false) :
    tree.read path = .error .notADirectory ↔ tree.Blocked path := by
  have hcheck : checkPath path ≠ .error .notADirectory := by
    unfold checkPath
    grind
  rw [read_eq_error_iff hslash hcheck (by simp)]
  simp only [Blocked, FailsAt, enter_eq_notADirectory_iff]

def content? (tree : FileTree) (path : String) : Option Bytes :=
  (tree.read path).toOption

theorem content?_eq_some_iff (hslash : Path.endsInSlash path = false) :
    tree.content? path = some content ↔ tree.Holds path content := by
  rw [← read_eq_ok_iff hslash, content?]
  cases tree.read path <;> simp [Except.toOption]

theorem Holds.entry?_eq {root : String} {place names : List String} (h : tree.Holds path content)
    (hroot : tree.Leads (start root) (Path.components root) (.directory place))
    (habsolute : Path.isAbsolute path = Path.isAbsolute root)
    (hpath : Path.components path = Path.components root ++ names) (hne : names ≠ [])
    (hnames : ∀ name ∈ names, Path.Descends name) :
    tree.entry? (place ++ names) = some (.file content) := by
  obtain ⟨-, hleads⟩ := h
  rw [hpath, leads_append_iff, start, habsolute] at hleads
  obtain ⟨middle, hmiddle, hrest⟩ := hleads
  obtain rfl := hroot.unique hmiddle
  exact hrest.entry?_eq hnames hne

end read

end FileTree

end ClassMachine
