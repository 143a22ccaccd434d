import GrowthOrder.Files
import GrowthOrder.Proofs.Files.Paths

/-!
# Walking a tree of files

A walk meets every file at and below a path once, each on a path that leads to that very file: the
names below the path are joined to it one by one, and the paths of two files differ in their parts.
Which paths are met depends on the places of directories and files alone, not on any bytes.
-/
namespace GrowthOrder.FileTree

/-- The places of the files. -/
def filePlaces (t : FileTree) : List (List String) :=
  t.files.map Prod.fst

/-- A place holds a directory. -/
def IsDirectory (t : FileTree) (place : List String) : Prop :=
  place ∉ t.filePlaces ∧ (place = [] ∨ place ∈ t.directories)

instance (t : FileTree) (place : List String) : Decidable (t.IsDirectory place) :=
  inferInstanceAs (Decidable (_ ∧ _))

/-- A tree as a file system holds it: names are names, no two files are at one place, and what is
above a file is a directory. -/
structure WellFormed (t : FileTree) : Prop where
  names : ∀ place ∈ t.filePlaces, ∀ name ∈ place, Path.IsName name
  distinct : t.filePlaces.Nodup
  above : ∀ place ∈ t.filePlaces, ∀ n < place.length, t.IsDirectory (place.take n)

/-- A walk from a directory meets a file on a path: the names from the directory to the file, joined
to the path of the directory. -/
def Met (t : FileTree) (directory path : String) (file : List String × List UInt8) : Prop :=
  file ∈ t.files ∧ ∃ place names, t.place directory = .ok place ∧ file.1 = place ++ names ∧
    path = names.foldl Path.join directory

variable {t t' : FileTree} {place names : List String} {directory path : String}
  {file other : List String × List UInt8}

/-! ## Entries -/

theorem eq_of_place_eq (ht : t.WellFormed) (h : file ∈ t.files) (h' : other ∈ t.files)
    (hplace : file.1 = other.1) : file = other := by
  have hdistinct : t.files.Pairwise (fun a b => a.1 ≠ b.1) := List.pairwise_map.1 ht.distinct
  obtain ⟨i, hi, rfl⟩ := List.getElem_of_mem h
  obtain ⟨j, hj, rfl⟩ := List.getElem_of_mem h'
  rcases Nat.lt_trichotomy i j with hij | rfl | hji
  · exact absurd hplace (List.pairwise_iff_getElem.1 hdistinct i j hi hj hij)
  · rfl
  · exact absurd hplace.symm (List.pairwise_iff_getElem.1 hdistinct j i hj hi hji)

theorem lookup_eq_none_iff : t.files.lookup place = none ↔ place ∉ t.filePlaces := by
  rw [List.lookup_eq_none_iff, filePlaces, List.mem_map]
  constructor
  · rintro h ⟨file, hfile, rfl⟩
    simpa using h file hfile
  · intro h file hfile
    rw [bne_iff_ne]
    rintro rfl
    exact h ⟨file, hfile, rfl⟩

theorem entry?_of_mem_filePlaces (h : place ∈ t.filePlaces) :
    ∃ bytes, (place, bytes) ∈ t.files ∧ t.entry? place = some (.file bytes) := by
  cases hlookup : t.files.lookup place with
  | none => exact absurd h (lookup_eq_none_iff.1 hlookup)
  | some bytes =>
    obtain ⟨before, after, hfiles, -⟩ := List.lookup_eq_some_iff.1 hlookup
    refine ⟨bytes, ?_, ?_⟩
    · rw [hfiles]
      exact List.mem_append_right _ List.mem_cons_self
    · unfold entry?
      rw [hlookup]

theorem entry?_of_mem (ht : t.WellFormed) (h : file ∈ t.files) :
    t.entry? file.1 = some (.file file.2) := by
  obtain ⟨bytes, hmem, hentry⟩ := entry?_of_mem_filePlaces (List.mem_map_of_mem h)
  rw [hentry, ← eq_of_place_eq ht hmem h rfl]

theorem entry?_of_isDirectory (h : t.IsDirectory place) : t.entry? place = some .directory := by
  unfold entry?
  rw [lookup_eq_none_iff.2 h.1]
  exact if_pos h.2

theorem entry?_eq_none (hfile : place ∉ t.filePlaces) (hdir : ¬ t.IsDirectory place) :
    t.entry? place = none := by
  unfold entry?
  rw [lookup_eq_none_iff.2 hfile]
  exact if_neg fun h => hdir ⟨hfile, h⟩

theorem isDirectory_of_below (ht : t.WellFormed) (h : place ++ names ∈ t.filePlaces)
    (hnames : names ≠ []) : t.IsDirectory place := by
  have hlength : place.length < (place ++ names).length := by
    rw [List.length_append]
    exact Nat.lt_add_of_pos_right (List.length_pos_iff.2 hnames)
  simpa using ht.above _ h _ hlength

/-! ## Following a path -/

theorem follow_cons (t : FileTree) (place : List String) (segment : String) (rest : List String) :
    t.follow place (segment :: rest) =
      if place ∈ t.filePlaces then .error .notDirectory
      else if t.IsDirectory place then
        if segment = "" ∨ segment = "." then t.follow place rest
        else if segment = ".." then t.follow place.dropLast rest
        else t.follow (place ++ [segment]) rest
      else .error .notFound := by
  rw [follow]
  by_cases hfile : place ∈ t.filePlaces
  · obtain ⟨bytes, -, hentry⟩ := entry?_of_mem_filePlaces hfile
    rw [hentry, if_pos hfile]
  · by_cases hdir : t.IsDirectory place
    · rw [entry?_of_isDirectory hdir, if_neg hfile, if_pos hdir]
    · rw [entry?_eq_none hfile hdir, if_neg hfile, if_neg hdir]

theorem follow_append (t : FileTree) (place front back : List String) :
    t.follow place (front ++ back) = (t.follow place front).bind (t.follow · back) := by
  induction front generalizing place with
  | nil => rfl
  | cons segment front ih =>
    rw [List.cons_append, follow_cons, follow_cons, ih, ih, ih]
    split
    · rfl
    · split
      · split
        · rfl
        · split <;> rfl
      · rfl

theorem follow_name {name : String} (h : t.IsDirectory place) (hname : Path.IsName name) :
    t.follow place [name] = .ok (place ++ [name]) := by
  rw [follow_cons, if_neg h.1, if_pos h, if_neg (not_or.2 ⟨hname.1, hname.2.1⟩),
    if_neg hname.2.2.1]
  rfl

theorem eq_of_follow_empty {back : List String} (h : t.follow place [""] = .ok back) :
    place = back := by
  rw [follow] at h
  split at h
  · cases h
  · cases h
  · exact Except.ok.inj h

theorem ne_empty_of_place (h : t.place directory = .ok place) : directory ≠ "" := by
  rintro rfl
  cases h

theorem place_eq_follow (h : path ≠ "") : t.place path = t.follow [] (Path.segments path) :=
  if_neg h

/-- Going on by a name from a directory leads to the place of that name in it. -/
theorem place_join {name : String} (h : t.place directory = .ok place) (hplace : t.IsDirectory place)
    (hname : Path.IsName name) : t.place (Path.join directory name) = .ok (place ++ [name]) := by
  have hdir := ne_empty_of_place h
  rw [place_eq_follow hdir] at h
  rw [place_eq_follow (Path.join_ne_empty hname)]
  rcases Path.segments_join hdir hname with ⟨front, -, hsegments, hjoin⟩ | hjoin
  · rw [hsegments, follow_append] at h
    rw [hjoin, follow_append]
    cases hfront : t.follow [] front with
    | error cause =>
      rw [hfront] at h
      cases h
    | ok back =>
      rw [hfront] at h
      obtain rfl := eq_of_follow_empty h
      exact follow_name hplace hname
  · rw [hjoin, follow_append, h]
    exact follow_name hplace hname

theorem place_foldl_join (h : t.place directory = .ok place)
    (hnames : ∀ name ∈ names, Path.IsName name)
    (habove : ∀ n < names.length, t.IsDirectory (place ++ names.take n)) :
    t.place (names.foldl Path.join directory) = .ok (place ++ names) := by
  induction names generalizing directory place with
  | nil => rwa [List.append_nil]
  | cons name names ih =>
    have hplace : t.IsDirectory place := by
      simpa using habove 0 (Nat.zero_lt_succ _)
    have hjoin := place_join h hplace (hnames name List.mem_cons_self)
    rw [List.foldl_cons, ih hjoin fun x hx => hnames x (List.mem_cons_of_mem _ hx)]
    · rw [List.append_assoc]
      rfl
    · intro n hn
      rw [List.append_assoc]
      exact habove (n + 1) (Nat.succ_lt_succ hn)

/-- A path on which a file is met leads to it. -/
theorem place_of_met (ht : t.WellFormed) (h : t.Met directory path file) :
    t.place path = .ok file.1 := by
  obtain ⟨hfile, place, names, hplace, hbelow, rfl⟩ := h
  have hmem : place ++ names ∈ t.filePlaces := hbelow ▸ List.mem_map_of_mem hfile
  rw [hbelow]
  refine place_foldl_join hplace (fun name hname => ?_) fun n hn => ?_
  · exact ht.names _ hmem name (List.mem_append_right _ hname)
  · rw [← List.take_length_add_append]
    exact ht.above _ hmem _ (by rw [List.length_append]; omega)

theorem read_of_met (ht : t.WellFormed) (h : t.Met directory path file) :
    t.read path = .ok file.2 := by
  rw [read, find, place_of_met ht h]
  simp only [bind, Except.bind, entry?_of_mem ht h.1]

/-- Only one file is met on a path. -/
theorem eq_of_met (ht : t.WellFormed) (h : t.Met directory path file)
    (h' : t.Met directory path other) : other = file :=
  eq_of_place_eq ht h'.1 h.1
    (Except.ok.inj ((place_of_met ht h').symm.trans (place_of_met ht h)))

/-! ## What a walk meets -/

theorem below?_eq_some_iff {top : List String} :
    below? top place = some names ↔ place = top ++ names ∧ names ≠ [] := by
  unfold below?
  constructor
  · intro h
    split at h
    next hbelow =>
      rw [Bool.and_eq_true, List.isPrefixOf_iff_prefix, decide_eq_true_eq] at hbelow
      obtain ⟨⟨rest, rfl⟩, hlength⟩ := hbelow
      rw [List.drop_left, Option.some.injEq] at h
      subst h
      refine ⟨rfl, ?_⟩
      rintro rfl
      simp at hlength
    next => cases h
  · rintro ⟨rfl, hnames⟩
    have hlength := List.length_pos_iff.2 hnames
    simp [hlength]

theorem mem_filterMap_below? : names ∈ t.filePlaces.filterMap (below? place) ↔
    place ++ names ∈ t.filePlaces ∧ names ≠ [] := by
  rw [List.mem_filterMap]
  constructor
  · rintro ⟨other, hother, hsome⟩
    obtain ⟨rfl, hnames⟩ := below?_eq_some_iff.1 hsome
    exact ⟨hother, hnames⟩
  · rintro ⟨hmem, hnames⟩
    exact ⟨place ++ names, hmem, below?_eq_some_iff.2 ⟨rfl, hnames⟩⟩

/-- A walk by the places of files: a file is met on its own path, and a directory is gone through. -/
theorem walk_eq (h : t.place directory = .ok place) :
    t.walk directory =
      if place ∈ t.filePlaces then [directory]
      else if t.IsDirectory place then
        (t.filePlaces.filterMap (below? place)).map (·.foldl Path.join directory)
      else [] := by
  rw [walk, h]
  by_cases hfile : place ∈ t.filePlaces
  · obtain ⟨bytes, -, hentry⟩ := entry?_of_mem_filePlaces hfile
    simp only [hentry, if_pos hfile]
  · by_cases hdir : t.IsDirectory place
    · simp only [entry?_of_isDirectory hdir, if_neg hfile, if_pos hdir]
      rw [filePlaces, List.filterMap_map]
      rfl
    · simp only [entry?_eq_none hfile hdir, if_neg hfile, if_neg hdir]

theorem walk_eq_nil {cause : FileError} (h : t.place directory = .error cause) :
    t.walk directory = [] := by
  rw [walk, h]

theorem exists_met_iff (h : t.place directory = .ok place) :
    (∃ file, t.Met directory path file) ↔
      ∃ names, place ++ names ∈ t.filePlaces ∧ path = names.foldl Path.join directory := by
  constructor
  · rintro ⟨file, hfile, other, names, hother, hbelow, hpath⟩
    obtain rfl := Except.ok.inj (h.symm.trans hother)
    exact ⟨names, hbelow ▸ List.mem_map_of_mem hfile, hpath⟩
  · rintro ⟨names, hmem, hpath⟩
    obtain ⟨file, hfile, hbelow⟩ := List.mem_map.1 hmem
    exact ⟨file, hfile, place, names, h, hbelow, hpath⟩

theorem mem_walk_iff (ht : t.WellFormed) :
    path ∈ t.walk directory ↔ ∃ file, t.Met directory path file := by
  cases hplace : t.place directory with
  | error cause => simp [walk_eq_nil hplace, Met, hplace]
  | ok place =>
    rw [exists_met_iff hplace, walk_eq hplace]
    by_cases hfile : place ∈ t.filePlaces
    -- Nothing is below a file, so the names can only be none.
    · rw [if_pos hfile, List.mem_singleton]
      constructor
      · rintro rfl
        exact ⟨[], by rwa [List.append_nil], rfl⟩
      · rintro ⟨names, hmem, rfl⟩
        by_cases hnames : names = []
        · rw [hnames, List.foldl_nil]
        · exact absurd hfile (isDirectory_of_below ht hmem hnames).1
    · have hbelow (names) (hmem : place ++ names ∈ t.filePlaces) : names ≠ [] := by
        rintro rfl
        exact hfile (by rwa [List.append_nil] at hmem)
      rw [if_neg hfile]
      by_cases hdir : t.IsDirectory place
      · rw [if_pos hdir, List.mem_map]
        constructor
        · rintro ⟨names, hnames, rfl⟩
          exact ⟨names, (mem_filterMap_below?.1 hnames).1, rfl⟩
        · rintro ⟨names, hmem, rfl⟩
          exact ⟨names, mem_filterMap_below?.2 ⟨hmem, hbelow names hmem⟩, rfl⟩
      · rw [if_neg hdir]
        constructor
        · exact fun h => absurd h List.not_mem_nil
        · rintro ⟨names, hmem, -⟩
          exact absurd (isDirectory_of_below ht hmem (hbelow names hmem)) hdir

/-- No two files are met on paths with the same parts. -/
theorem pairwise_differ_walk (ht : t.WellFormed) (directory : String) :
    (t.walk directory).Pairwise Path.Differ := by
  cases hplace : t.place directory with
  | error cause => exact walk_eq_nil hplace ▸ .nil
  | ok place =>
    rw [walk_eq hplace]
    split
    · exact List.pairwise_singleton _ _
    · split
      · rw [List.pairwise_map, List.pairwise_filterMap]
        refine ht.distinct.imp_of_mem fun ha hb hne names hnames names' hnames' hparts => hne ?_
        obtain ⟨rfl, -⟩ := below?_eq_some_iff.1 hnames
        obtain ⟨rfl, -⟩ := below?_eq_some_iff.1 hnames'
        have hdir := ne_empty_of_place hplace
        rw [Path.parts_foldl_join hdir fun x hx => ht.names _ ha x (List.mem_append_right _ hx),
          Path.parts_foldl_join hdir fun x hx => ht.names _ hb x (List.mem_append_right _ hx),
          List.append_cancel_left_eq] at hparts
        rw [List.map_inj_right fun _ _ h => Path.Part.name.inj h] at hparts
        rw [hparts]
      · exact .nil

/-! ## Trees that differ in bytes -/

/-- Two trees have directories and files at the same places. -/
structure SameShape (t t' : FileTree) : Prop where
  directories : t'.directories = t.directories
  files : t'.filePlaces.Perm t.filePlaces

namespace SameShape

theorem isDirectory_iff (h : SameShape t t') (place : List String) :
    t'.IsDirectory place ↔ t.IsDirectory place := by
  rw [IsDirectory, IsDirectory, h.files.mem_iff, h.directories]

theorem wellFormed (h : SameShape t t') (ht : t.WellFormed) : t'.WellFormed where
  names place hplace := ht.names place (h.files.mem_iff.1 hplace)
  distinct := h.files.nodup_iff.2 ht.distinct
  above place hplace n hn :=
    (h.isDirectory_iff _).2 (ht.above place (h.files.mem_iff.1 hplace) n hn)

theorem follow (h : SameShape t t') (place segments : List String) :
    t'.follow place segments = t.follow place segments := by
  induction segments generalizing place with
  | nil => rfl
  | cons segment rest ih => simp only [follow_cons, h.files.mem_iff, h.isDirectory_iff, ih]

theorem place_eq (h : SameShape t t') (path : String) : t'.place path = t.place path := by
  rw [FileTree.place, FileTree.place, h.follow]

theorem walk_perm (h : SameShape t t') (directory : String) :
    (t'.walk directory).Perm (t.walk directory) := by
  cases hplace : t.place directory with
  | error cause => rw [walk_eq_nil hplace, walk_eq_nil ((h.place_eq _).trans hplace)]
  | ok place =>
    rw [walk_eq hplace, walk_eq ((h.place_eq _).trans hplace)]
    simp only [h.files.mem_iff, h.isDirectory_iff]
    split
    · exact .refl _
    · split
      · exact (h.files.filterMap _).map _
      · exact .refl _

end SameShape

/-- Changing the bytes of a file leaves everything at its place. -/
theorem sameShape_put (ht : t.WellFormed) (h : place ∈ t.filePlaces) (bytes : List UInt8) :
    SameShape t (t.put place bytes) := by
  refine ⟨rfl, ?_⟩
  have hplaces : (t.put place bytes).filePlaces = place :: t.filePlaces.erase place := by
    rw [ht.distinct.erase_eq_filter, filePlaces, filePlaces, put, List.map_cons, List.filter_map]
    have htest : (fun x => x != place) ∘ Prod.fst =
        fun file : List String × List UInt8 => decide (file.1 ≠ place) := by
      funext file
      by_cases hplace : file.1 = place <;> simp [hplace]
    rw [htest]
  rw [hplaces]
  exact (List.perm_cons_erase h).symm

/-- Changing the bytes of a file changes nothing about the paths on which other files are met. -/
theorem read_put (ht : t.WellFormed) (h : file ∈ t.files) (bytes : List UInt8)
    (hother : t.Met directory path other) (hne : ¬ t.Met directory path file) :
    (t.put file.1 bytes).read path = t.read path := by
  have hshape := sameShape_put ht (List.mem_map_of_mem h) bytes
  have hplace : other.1 ≠ file.1 := fun heq => hne (eq_of_place_eq ht hother.1 h heq ▸ hother)
  have hmet : (t.put file.1 bytes).Met directory path other := by
    obtain ⟨hmem, place, names, hdirectory, hbelow, hpath⟩ := hother
    refine ⟨?_, place, names, (hshape.place_eq _).trans hdirectory, hbelow, hpath⟩
    rw [put]
    exact List.mem_cons_of_mem _ (List.mem_filter.2 ⟨hmem, decide_eq_true hplace⟩)
  rw [read_of_met ht hother, read_of_met (hshape.wellFormed ht) hmet]

end GrowthOrder.FileTree
