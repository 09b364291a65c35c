import ClassMachine.Files.ClassPath

/-!
# Paths below a directory

The names in a path that is seen from a directory are those of the directory and then its own. It
leads on below the directory if its own names are all of something in the place that has been come
to: neither a dot nor two dots.

The path to the file of a class is made of the name of the class, whose dots become slashes. So it
has neither of these names; but it is absolute if the name of the class begins with a dot or a
slash.
-/

namespace ClassMachine

namespace Text

theorem splitChars_ne_nil (separator : Char) (text : List Char) :
    splitChars separator text ≠ [] := by
  intro h
  have hlength := length_splitChars separator text
  rw [h, List.length_nil] at hlength
  omega

theorem splitChars_append (separator : Char) (front back : List Char) :
    splitChars separator (front ++ separator :: back) =
      splitChars separator front ++ splitChars separator back := by
  induction front with
  | nil => simp [splitChars]
  | cons c front ih =>
    rw [List.cons_append]
    by_cases h : c = separator
    · simp [splitChars, h, ih]
    · simp only [splitChars, if_neg h, ih]
      cases hfront : splitChars separator front with
      | nil => exact absurd hfront (splitChars_ne_nil separator front)
      | cons part parts => rfl

theorem splitChars_of_not_mem {separator : Char} {text : List Char} (h : separator ∉ text) :
    splitChars separator text = [text] := by
  induction text with
  | nil => rfl
  | cons c text ih =>
    obtain ⟨hne, htext⟩ := not_or.1 (mt List.mem_cons.2 h)
    simp only [splitChars, if_neg (Ne.symm hne), ih htext]

theorem exists_mem_splitChars {separator c : Char} {text : List Char} (h : c ∈ text)
    (hc : c ≠ separator) : ∃ part ∈ splitChars separator text, c ∈ part := by
  induction text with
  | nil => contradiction
  | cons d text ih =>
    by_cases hd : d = separator
    · have htext : c ∈ text := (List.mem_cons.1 h).resolve_left fun heq => hc (heq.trans hd)
      obtain ⟨part, hpart, hmem⟩ := ih htext
      exact ⟨part, by simp [splitChars, hd, hpart], hmem⟩
    · simp only [splitChars, if_neg hd]
      cases hparts : splitChars separator text with
      | nil => exact absurd hparts (splitChars_ne_nil separator text)
      | cons first parts =>
        rcases List.mem_cons.1 h with rfl | htext
        · exact ⟨_, List.mem_cons_self .., List.mem_cons_self ..⟩
        · obtain ⟨part, hpart, hmem⟩ := ih htext
          rcases List.mem_cons.1 (hparts ▸ hpart) with rfl | hpart
          · exact ⟨_, List.mem_cons_self .., List.mem_cons_of_mem d hmem⟩
          · exact ⟨part, List.mem_cons_of_mem _ hpart, hmem⟩

/-- The last of the parts of a text ends in what is put to the text, unless that is split itself. -/
theorem mem_splitChars_append {separator : Char} {ending : List Char} (hending : separator ∉ ending)
    {text part : List Char} (hpart : part ∈ splitChars separator (text ++ ending)) :
    (∀ c ∈ part, c ∈ text) ∨ ending <:+ part := by
  induction text generalizing part with
  | nil =>
    rw [List.nil_append, splitChars_of_not_mem hending, List.mem_singleton] at hpart
    exact .inr (hpart ▸ List.suffix_rfl)
  | cons c text ih =>
    have hmore {part : List Char} (h : part ∈ splitChars separator (text ++ ending)) :
        (∀ d ∈ part, d ∈ c :: text) ∨ ending <:+ part :=
      (ih h).imp_left fun hin d hd => List.mem_cons_of_mem c (hin d hd)
    rw [List.cons_append] at hpart
    by_cases h : c = separator
    · simp only [splitChars, if_pos h, List.mem_cons] at hpart
      rcases hpart with rfl | hpart
      · exact .inl (List.forall_mem_nil _)
      · exact hmore hpart
    · simp only [splitChars, if_neg h] at hpart
      cases hparts : splitChars separator (text ++ ending) with
      | nil => exact absurd hparts (splitChars_ne_nil separator _)
      | cons first parts =>
        simp only [hparts, List.mem_cons] at hpart ih
        rcases hpart with rfl | hpart
        · exact (ih (.inl rfl)).imp (fun hin d hd => List.cons_subset_cons c hin hd) fun hsuffix =>
            hsuffix.trans (List.suffix_cons c first)
        · exact (ih (.inr hpart)).imp_left fun hin d hd => List.mem_cons_of_mem c (hin d hd)

end Text

namespace Path

variable {directory path : String}

theorem components_append (front back : String) :
    components (front ++ "/" ++ back) = components front ++ components back := by
  have hchars : (front ++ "/" ++ back).toList = front.toList ++ '/' :: back.toList := by simp
  simp only [components, Text.split, hchars, Text.splitChars_append, List.map_append,
    List.filter_append]

theorem components_empty : components "" = [] := by
  decide

theorem exists_of_endsInSlash (h : endsInSlash path = true) : ∃ front, path = front ++ "/" := by
  have hlast : path.toList.getLast? = some '/' := by simpa [endsInSlash] using h
  obtain ⟨front, hfront⟩ := List.getLast?_eq_some_iff.1 hlast
  refine ⟨String.ofList front, String.toList_inj.1 ?_⟩
  simpa using hfront

theorem components_join (h : isAbsolute path = false) :
    components (join directory path) = components directory ++ components path := by
  simp only [join, h, Bool.false_eq_true, if_false]
  split
  next hbare =>
    rcases hbare with rfl | hslash
    · simp [components_empty]
    · obtain ⟨front, rfl⟩ := exists_of_endsInSlash hslash
      have hfront := components_append front ""
      rw [String.append_empty, components_empty, List.append_nil] at hfront
      rw [components_append, hfront]
  next => exact components_append directory path

theorem isAbsolute_join (h : isAbsolute path = false) :
    isAbsolute (join directory path) = isAbsolute directory := by
  simp only [join, h, Bool.false_eq_true, if_false]
  by_cases hempty : directory = ""
  · simp only [hempty, true_or, if_true, String.empty_append, h]
    rfl
  · have hfirst : directory.toList ≠ [] := by simpa using hempty
    obtain ⟨c, rest, hchars⟩ := List.exists_cons_of_ne_nil hfirst
    split <;> simp [isAbsolute, hchars]

/-- A name of something in the place that has been come to. -/
def Descends (name : String) : Prop :=
  name ≠ "." ∧ name ≠ ".."

/-- The path leads on from where the directory is, and never back. -/
def Below (directory path : String) : Prop :=
  isAbsolute path = isAbsolute directory ∧
    ∃ names, components path = components directory ++ names ∧ ∀ name ∈ names, Descends name

/-- A path of names that descend stays below every directory unless it is absolute; an absolute one
is below the directories on its way. -/
theorem below_join_iff (hnames : ∀ name ∈ components path, Descends name) :
    Below directory (join directory path) ↔
      isAbsolute path = false ∨
        isAbsolute directory = true ∧ components directory <+: components path := by
  cases habsolute : isAbsolute path with
  | false =>
    exact iff_of_true ⟨isAbsolute_join habsolute, _, components_join habsolute, hnames⟩ (.inl rfl)
  | true =>
    rw [join_of_isAbsolute directory path habsolute]
    constructor
    · rintro ⟨hsame, names, hnames, -⟩
      exact .inr ⟨hsame.symm.trans habsolute, names, hnames.symm⟩
    · rintro (hrelative | ⟨hdirectory, names, hleading⟩)
      · contradiction
      · refine ⟨habsolute.trans hdirectory.symm, names, hleading.symm, fun name hname => ?_⟩
        exact hnames name (hleading ▸ List.mem_append_right _ hname)

end Path

namespace ClassPath

theorem toList_relativePath (name : String) :
    (relativePath name).toList =
      name.toList.map (fun c => if c = '.' then '/' else c) ++ ".class".toList := by
  simp [relativePath, ClassSource.slashed]

/-- None of the names in the path to the file of a class leads back. -/
theorem descends_of_mem_relativePath {name part : String}
    (hpart : part ∈ Path.components (relativePath name)) : Path.Descends part := by
  simp only [Path.components, Text.split, toList_relativePath, List.mem_filter,
    List.mem_map] at hpart
  obtain ⟨⟨chars, hchars, rfl⟩, -⟩ := hpart
  have hno : ∀ c ∈ name.toList.map (fun c => if c = '.' then '/' else c), c ≠ '.' := by
    intro c hc
    obtain ⟨d, -, rfl⟩ := List.mem_map.1 hc
    split <;> simp_all
  suffices h : chars ≠ ['.'] ∧ chars ≠ ['.', '.'] by
    constructor <;> intro hdot
    · exact h.1 (String.ofList_injective hdot)
    · exact h.2 (String.ofList_injective hdot)
  rcases Text.mem_splitChars_append (by decide) hchars with hin | hending
  · constructor
    · rintro rfl
      exact hno _ (hin '.' (by simp)) rfl
    · rintro rfl
      exact hno _ (hin '.' (by simp)) rfl
  · have hlength := hending.length_le
    constructor <;> rintro rfl <;> contradiction

def Leading (name : String) : Prop :=
  name.toList.head? = some '.' ∨ name.toList.head? = some '/'

theorem isAbsolute_relativePath_iff (name : String) :
    Path.isAbsolute (relativePath name) = true ↔ Leading name := by
  simp only [Path.isAbsolute, toList_relativePath, Leading]
  cases name.toList with
  | nil => decide
  | cons c rest =>
    simp only [List.map_cons, List.cons_append, List.head?_cons, beq_iff_eq, Option.some.injEq]
    split <;> simp_all

/-- The file that a directory may have for a class. -/
def candidate (root name : String) : String :=
  Path.join root (relativePath name)

theorem exists_candidate_eq (root name : String) :
    ∃ front : String, candidate root name = front ++ ".class" := by
  have hpath : ∃ front : String, candidate root name = front ++ relativePath name := by
    unfold candidate Path.join
    split
    · exact ⟨"", by simp⟩
    · split
      · exact ⟨root, rfl⟩
      · exact ⟨root ++ "/", rfl⟩
  obtain ⟨front, hfront⟩ := hpath
  exact ⟨front ++ ClassSource.slashed name, by rw [hfront, relativePath, String.append_assoc]⟩

theorem endsInSlash_candidate (root name : String) :
    Path.endsInSlash (candidate root name) = false := by
  obtain ⟨front, hfront⟩ := exists_candidate_eq root name
  simp [Path.endsInSlash, hfront]

theorem candidate_ne_empty (root name : String) : candidate root name ≠ "" := by
  obtain ⟨front, hfront⟩ := exists_candidate_eq root name
  intro hempty
  simp [hfront] at hempty

theorem components_relativePath_ne_nil (name : String) :
    Path.components (relativePath name) ≠ [] := by
  have hchar : 's' ∈ (relativePath name).toList := by
    rw [toList_relativePath]
    exact List.mem_append_right _ (by decide)
  obtain ⟨part, hpart, hmem⟩ :
      ∃ part ∈ Text.splitChars '/' (relativePath name).toList, 's' ∈ part :=
    Text.exists_mem_splitChars hchar (by decide)
  have hname : String.ofList part ∈ Path.components (relativePath name) := by
    refine List.mem_filter.2 ⟨List.mem_map_of_mem hpart, ?_⟩
    rw [decide_eq_true_eq]
    intro hempty
    rw [String.ofList_eq_empty_iff.1 hempty] at hmem
    contradiction
  exact List.ne_nil_of_mem hname

end ClassPath

end ClassMachine
