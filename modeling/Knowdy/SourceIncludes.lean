import Knowdy.Lib.Unfolding
import Knowdy.Utils

/-! # Source files and their include directives

`read_GSL_file` of `knd_repo.gsl.c` reads a file, and then every file that an include directive of it names. Files that
were read are kept in `source_files`, which is not looked up before a file is read.

* `SourceFiles` — the files; `Place` — a file name with the folders that lead to it.
* `readGSLFile` — the code, as deep as a bound.
* `ReadsOnce` — the call returns, and has read each file that is reached once.
* `readsOnce_iff` — it does, if and only if the include directives form a tree. -/

namespace Knowdy.SourceIncludes

open Unfolding

/-! ## (1) Files -/

/-- A name in an include directive. -/
abbrev Name : Type := List UInt8

/-- A file path. -/
abbrev Path : Type := List UInt8

/-- `index_folder_name`: `index`. -/
def indexFolderName : Name := [105, 110, 100, 101, 120]

/-- `file_ext`: `.gsl`. -/
def fileExt : Name := [46, 103, 115, 108]

/-- **The source files**, and what the import makes of their declarations. -/
structure SourceFiles where
  /-- `schema_path`, or `data_path`. -/
  dir : Path
  /-- The files, with their include directives. -/
  files : List (Path × List Name)
  /-- What `parse_GSL` answers, after some files were read. -/
  parse : List Path → Path → Except KndErr Unit

/-- A file name, and `struct kndConcFolder` for each folder on the way to it, the innermost first. -/
structure Place where
  /-- The folders. -/
  folders : List Name
  /-- `filename`. -/
  filename : Name
deriving DecidableEq

/-- `write_filepath`. -/
def writeFilepath : List Name → Path
  | [] => []
  | name :: parent => writeFilepath parent ++ name

/-- What a name in an include directive of a file stands for: a name that ends in `index` is a folder. -/
def Place.follow (place : Place) (name : Name) : Place :=
  if indexFolderName.length < name.length ∧ name.drop (name.length - indexFolderName.length) = indexFolderName then
    ⟨name.take (name.length - indexFolderName.length) :: place.folders, indexFolderName⟩
  else ⟨place.folders, name⟩

namespace SourceFiles

variable (repo : SourceFiles)

/-- The path that is built in `out`. -/
def path (place : Place) : Path :=
  repo.dir ++ [47] ++ writeFilepath place.folders ++ place.filename ++ fileExt

/-- The include directives of a file. -/
def includes (place : Place) : List Name := (repo.files.lookup (repo.path place)).getD []

/-- `task->folders`, as it is when a file was parsed: the last directive comes first. -/
def folders (place : Place) : List Place := (repo.includes place).reverse.map place.follow

end SourceFiles

/-! ## (2) The code -/

/-- What a call has done: its return code, and the paths of `source_files`. -/
abbrev Read : Type := Except KndErr Unit × List Path

/-- The loop over the folders. -/
def readFolders (read : Place → List Path → Option Read) : List Place → List Path → Option Read
  | [], sources => some (.ok (), sources)
  | folder :: next, sources =>
      match read folder sources with
      | none => none
      | some (.error err, sources) => some (.error err, sources)
      | some (.ok (), sources) => readFolders read next sources

/-- **`read_GSL_file`**, no deeper than a bound. -/
def readGSLFile (repo : SourceFiles) : Nat → Place → List Path → Option Read
  | 0, _, _ => none
  | depth + 1, place, sources =>
      match repo.files.lookup (repo.path place) with
      | none => some (.error .ioFail, sources)
      | some includes =>
          let sources' := sources ++ [repo.path place]
          -- `run_read_include` refuses an empty name
          if includes.any (·.isEmpty) then some (.error .format, sources')
          else
            match repo.parse sources (repo.path place) with
            | .error err => some (.error err, sources')
            | .ok () => readFolders (readGSLFile repo depth) (repo.folders place) sources'

/-! ## (3) Reading once -/

variable (repo : SourceFiles)

/-- A file that is reached from another one over include directives. -/
def Includes (start place : Place) : Prop := Reached repo.folders start place

/-- **Each file that is reached is read once**, and the call returns. -/
def ReadsOnce (start : Place) : Prop :=
  ∃ depth sources, readGSLFile repo depth start [] = some (.ok (), sources) ∧ sources.Nodup ∧
    ∀ path, path ∈ sources ↔ ∃ place, Includes repo start place ∧ repo.path place = path

/-- **The include directives form a tree**: none leads to the file that is read first, and no two of them lead to the
same file. -/
def IncludeTree (start : Place) : Prop := IsTree repo.folders repo.path start

/-- **The include directives are between the files.** -/
structure Closed (start : Place) : Prop where
  /-- Each file that is reached is there. -/
  found : ∀ place, Includes repo start place → (repo.files.lookup (repo.path place)).isSome
  /-- No name is empty. -/
  named : ∀ place, Includes repo start place → ∀ name ∈ repo.includes place, name ≠ []

/-- **The declarations of a file are accepted** when it is read for the first time. -/
def Parses : Prop := ∀ sources path, path ∉ sources → repo.parse sources path = .ok ()

variable {repo} {start place : Place} {depth : Nat} {sources sources' : List Path}

theorem Closed.sub (h : Closed repo place) {folder : Place} (hfolder : folder ∈ repo.folders place) :
    Closed repo folder :=
  { found := fun other hother => h.found other (.head hfolder hother)
    named := fun other hother => h.named other (.head hfolder hother) }

/-- The paths in the order of a walk. -/
def paths (repo : SourceFiles) (depth : Nat) (place : Place) : List Path :=
  (preorder repo.folders depth place).map repo.path

theorem paths_succ : paths repo (depth + 1) place =
    repo.path place :: (repo.folders place).flatMap (paths repo depth) := by
  rw [paths, preorder, List.map_cons, List.map_flatMap]
  rfl

/-- **A file that is there**: it is kept, and then its folders are read. -/
theorem readGSLFile_of_closed (h : Closed repo place) (hparse : repo.parse sources (repo.path place) = .ok ()) :
    readGSLFile repo (depth + 1) place sources =
      readFolders (readGSLFile repo depth) (repo.folders place) (sources ++ [repo.path place]) := by
  obtain ⟨includes, hfound⟩ := Option.isSome_iff_exists.mp (h.found place (.refl place))
  have hnamed : includes.any (·.isEmpty) = false := by
    rw [List.any_eq_false]
    intro name hname
    have hmem : name ∈ repo.includes place := by
      rw [SourceFiles.includes, hfound]
      exact hname
    rw [List.isEmpty_iff]
    exact h.named place (.refl place) name hmem
  rw [readGSLFile]
  simp [hfound, hnamed, hparse]

/-! ### The walk -/

/-- The loop over the folders, if each of them is read. -/
theorem readFolders_eq {read : Place → List Path → Option Read} {walked : Place → List Path} {folders : List Place}
    (hread : ∀ folder ∈ folders, ∀ sources, (sources ++ walked folder).Nodup →
      read folder sources = some (.ok (), sources ++ walked folder))
    (hnodup : (sources ++ folders.flatMap walked).Nodup) :
    readFolders read folders sources = some (.ok (), sources ++ folders.flatMap walked) := by
  induction folders generalizing sources with
  | nil => rw [readFolders, List.flatMap_nil, List.append_nil]
  | cons folder folders ih =>
      rw [List.flatMap_cons, ← List.append_assoc] at hnodup
      have hfirst := hread folder (List.mem_cons_self ..) sources (List.Nodup.of_append_left hnodup)
      have hrest := ih (fun other hother => hread other (List.mem_cons_of_mem _ hother)) hnodup
      rw [readFolders, hfirst, List.flatMap_cons, ← List.append_assoc]
      exact hrest

/-- **If no file is met twice**, the walk is as the include directives say. -/
theorem readGSLFile_eq (hparses : Parses repo) (hclosed : Closed repo place)
    (hbounded : Bounded repo.folders depth place) (hnodup : (sources ++ paths repo depth place).Nodup) :
    readGSLFile repo depth place sources = some (.ok (), sources ++ paths repo depth place) := by
  induction depth generalizing place sources with
  | zero => exact absurd hbounded (not_bounded_zero place)
  | succ depth ih =>
      rw [paths_succ] at hnodup ⊢
      have hnew : repo.path place ∉ sources := by
        intro hmem
        exact (List.disjoint_of_nodup_append hnodup) hmem (List.mem_cons_self ..)
      rw [readGSLFile_of_closed hclosed (hparses _ _ hnew)]
      have happend : sources ++ repo.path place :: (repo.folders place).flatMap (paths repo depth) =
          sources ++ [repo.path place] ++ (repo.folders place).flatMap (paths repo depth) := by
        rw [List.append_assoc, List.singleton_append]
      rw [happend] at hnodup ⊢
      refine readFolders_eq (fun folder hfolder sources hfresh => ?_) hnodup
      exact ih (hclosed.sub hfolder) (bounded_succ_iff.mp hbounded folder hfolder) hfresh

/-- The loop over the folders has read each of them. -/
theorem readFolders_ok {read : Place → List Path → Option Read} {walked : Place → List Path} {P : Place → Prop}
    {folders : List Place}
    (hread : ∀ folder ∈ folders, ∀ sources sources', read folder sources = some (.ok (), sources') →
      P folder ∧ sources' = sources ++ walked folder)
    (h : readFolders read folders sources = some (.ok (), sources')) :
    (∀ folder ∈ folders, P folder) ∧ sources' = sources ++ folders.flatMap walked := by
  induction folders generalizing sources with
  | nil =>
      cases h
      exact ⟨fun folder hfolder => absurd hfolder List.not_mem_nil, (List.append_nil _).symm⟩
  | cons folder folders ih =>
      rw [readFolders] at h
      split at h
      · cases h
      · cases h
      · rename_i between hfirst
        obtain ⟨hP, rfl⟩ := hread folder (List.mem_cons_self ..) sources between hfirst
        obtain ⟨hrest, rfl⟩ := ih (fun other hother => hread other (List.mem_cons_of_mem _ hother)) h
        refine ⟨List.forall_mem_cons.mpr ⟨hP, hrest⟩, ?_⟩
        rw [List.flatMap_cons, List.append_assoc]

/-- **A call that returns** has walked the whole unfolding. -/
theorem bounded_of_readGSLFile (h : readGSLFile repo depth place sources = some (.ok (), sources')) :
    Bounded repo.folders depth place ∧ sources' = sources ++ paths repo depth place := by
  induction depth generalizing place sources sources' with
  | zero => cases h
  | succ depth ih =>
      rw [readGSLFile] at h
      split at h
      · cases h
      split at h
      · cases h
      split at h
      · cases h
      obtain ⟨hbounded, rfl⟩ := readFolders_ok
        (fun folder _ sources sources' hfolder => ih hfolder) h
      refine ⟨bounded_succ_iff.mpr hbounded, ?_⟩
      rw [paths_succ, List.append_assoc]
      rfl

/-! ### Trees -/

/-- **If the directives form a tree**, each file is read once. -/
theorem readsOnce_of_includeTree (hparses : Parses repo) (hclosed : Closed repo start) (h : IncludeTree repo start) :
    ReadsOnce repo start := by
  have hunshared := unshared_iff_isTree.mpr h
  have hkeys : ∀ place, Reached repo.folders start place → repo.path place ∈ repo.files.map Prod.fst := by
    intro place hplace
    obtain ⟨includes, hfound⟩ := Option.isSome_iff_exists.mp (hclosed.found place hplace)
    obtain ⟨before, after, hfiles, -⟩ := List.lookup_eq_some_iff.mp hfound
    rw [hfiles]
    exact List.mem_map.mpr ⟨_, List.mem_append_right _ (List.mem_cons_self ..), rfl⟩
  have hbounded := hunshared.bounded hkeys
  have hnodup := (nodup_preorder_iff hbounded).mpr hunshared
  have hread : readGSLFile repo _ start [] = some (.ok (), [] ++ paths repo _ start) :=
    readGSLFile_eq hparses hclosed hbounded hnodup
  refine ⟨_, paths repo _ start, hread, hnodup, ?_⟩
  intro path
  rw [paths, List.mem_map]
  exact exists_congr fun place => and_congr_left fun _ => mem_preorder hbounded

/-- **If each file is read once**, the directives form a tree. -/
theorem includeTree_of_readsOnce (h : ReadsOnce repo start) : IncludeTree repo start := by
  obtain ⟨depth, sources, hread, hnodup, -⟩ := h
  obtain ⟨hbounded, rfl⟩ := bounded_of_readGSLFile hread
  exact unshared_iff_isTree.mp ((nodup_preorder_iff hbounded).mp hnodup)

/-- **When each file is read once.** For all files and include directives between them, the call for the first file
returns and has read each file that is reached once, if and only if the include directives form a tree. -/
theorem readsOnce_iff (repo : SourceFiles) (start : Place) (hparses : Parses repo) (hclosed : Closed repo start) :
    ReadsOnce repo start ↔ IncludeTree repo start :=
  ⟨includeTree_of_readsOnce, readsOnce_of_includeTree hparses hclosed⟩

/-! ### Two examples -/

/-- The first file. -/
def index : Place := ⟨[], indexFolderName⟩

/-- A file that names another one, `a`. -/
def pair : SourceFiles :=
  { dir := [46]
    files := [([46, 47] ++ indexFolderName ++ fileExt, [[97]]), ([46, 47, 97] ++ fileExt, [])]
    parse := fun _ _ => .ok () }

theorem closed_pair : Closed pair index := by
  have hplaces : ∀ place, Includes pair index place → place = index ∨ place = ⟨[], [97]⟩ := by
    intro place hplace
    refine hplace.invariant (fun place => place = index ∨ place = ⟨[], [97]⟩) (.inl rfl) ?_
    rintro place folder (rfl | rfl) hfolder
    · exact .inr (List.mem_singleton.mp hfolder)
    · exact absurd hfolder List.not_mem_nil
  constructor
  · intro place hplace
    rcases hplaces place hplace with rfl | rfl <;> rfl
  · intro place hplace name hname
    rcases hplaces place hplace with rfl | rfl
    · obtain rfl := List.mem_singleton.mp hname
      exact List.cons_ne_nil _ _
    · exact absurd hname List.not_mem_nil

/-- A file that names another one. -/
theorem readsOnce_iff_pair : ReadsOnce pair index ↔ IncludeTree pair index :=
  readsOnce_iff pair index (fun _ _ _ => rfl) closed_pair

/-- A file that names itself. -/
def circle : SourceFiles :=
  { dir := [46]
    files := [([46, 47] ++ indexFolderName ++ fileExt, [indexFolderName])]
    parse := fun _ _ => .ok () }

theorem readGSLFile_circle (depth : Nat) (sources : List Path) : readGSLFile circle depth index sources = none := by
  induction depth generalizing sources with
  | zero => rfl
  | succ depth ih =>
      have hloop : readGSLFile circle (depth + 1) index sources =
          readFolders (readGSLFile circle depth) [index] (sources ++ [circle.path index]) := rfl
      rw [hloop, readFolders, ih]

/-- **A file that names itself** is read without end. -/
theorem not_readsOnce_circle :
    ¬ReadsOnce circle index ∧ ∀ depth, readGSLFile circle depth index [] = none := by
  refine ⟨?_, fun depth => readGSLFile_circle depth []⟩
  rintro ⟨depth, sources, hread, -⟩
  rw [readGSLFile_circle] at hread
  exact Option.some_ne_none _ hread.symm

end Knowdy.SourceIncludes
