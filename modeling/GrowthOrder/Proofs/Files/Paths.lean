import GrowthOrder.Path

/-!
# Paths part by part

The order of paths is a strict total order of their parts: the first part in which two paths differ
decides, and a path comes before every path that goes on from it. Going on by the name of a file or
directory adds that name to the parts, whether or not the path ends in a slash, so paths that go on
from one directory by different names have different parts. The last part tells whether a path is
that of a source file.
-/
namespace GrowthOrder.Path

/-! ## The order -/

/-- A part is before another by kind, or by text where the kinds are the same. -/
def Part.Less (a b : Part) : Prop :=
  a.rank < b.rank ∨ a.rank = b.rank ∧ a.text < b.text

/-- A path is before another: the first part in which they differ decides. -/
def Before (a b : String) : Prop :=
  List.Lex Part.Less (parts a) (parts b)

/-- Two paths differ in some part. -/
def Differ (a b : String) : Prop :=
  parts a ≠ parts b

theorem Differ.symm {a b : String} (h : Differ a b) : Differ b a :=
  Ne.symm h

theorem Part.before_iff {a b : Part} : a.before b = true ↔ a.Less b := by
  simp [before, Less]

theorem Part.eq_of_rank_text {a b : Part} (hrank : a.rank = b.rank) (htext : a.text = b.text) :
    a = b := by
  cases a <;> cases b <;> simp_all [rank, text]

theorem Part.Less.irrefl (a : Part) : ¬ a.Less a := by
  rintro (h | ⟨-, h⟩)
  · exact Nat.lt_irrefl _ h
  · exact String.lt_irrefl _ h

theorem Part.Less.trans {a b c : Part} (hab : a.Less b) (hbc : b.Less c) : a.Less c := by
  rcases hab with hab | ⟨hab, htext⟩
  · rcases hbc with hbc | ⟨hbc, -⟩ <;> exact .inl (by omega)
  · rcases hbc with hbc | ⟨hbc, htext'⟩
    · exact .inl (by omega)
    · exact .inr ⟨hab.trans hbc, String.lt_trans htext htext'⟩

theorem Part.Less.total (a b : Part) : a.Less b ∨ a = b ∨ b.Less a := by
  rcases Nat.lt_trichotomy a.rank b.rank with h | h | h
  · exact .inl (.inl h)
  · by_cases hab : a.text < b.text
    · exact .inl (.inr ⟨h, hab⟩)
    · by_cases hba : b.text < a.text
      · exact .inr (.inr (.inr ⟨h.symm, hba⟩))
      · exact .inr (.inl (eq_of_rank_text h
          (String.le_antisymm (String.not_lt.1 hba) (String.not_lt.1 hab))))
  · exact .inr (.inr (.inl h))

theorem notAfter_iff {as bs : List Part} :
    notAfter as bs = true ↔ as = bs ∨ List.Lex Part.Less as bs := by
  induction as generalizing bs with
  | nil =>
    cases bs with
    | nil => exact ⟨fun _ => .inl rfl, fun _ => rfl⟩
    | cons b bs => exact ⟨fun _ => .inr .nil, fun _ => rfl⟩
  | cons a as ih =>
    cases bs with
    | nil =>
      constructor
      · intro h
        cases h
      · rintro (h | h) <;> cases h
    | cons b bs =>
      rw [notAfter, Bool.or_eq_true, Bool.and_eq_true, Part.before_iff, decide_eq_true_eq, ih]
      constructor
      · rintro (h | ⟨rfl, rfl | h⟩)
        · exact .inr (.rel h)
        · exact .inl rfl
        · exact .inr (.cons h)
      · rintro (h | h)
        · obtain ⟨rfl, rfl⟩ := List.cons.inj h
          exact .inr ⟨rfl, .inl rfl⟩
        · cases h with
          | rel h => exact .inl h
          | cons h => exact .inr ⟨rfl, .inr h⟩

theorem lex_total (as bs : List Part) :
    List.Lex Part.Less as bs ∨ as = bs ∨ List.Lex Part.Less bs as := by
  induction as generalizing bs with
  | nil =>
    cases bs with
    | nil => exact .inr (.inl rfl)
    | cons b bs => exact .inl .nil
  | cons a as ih =>
    cases bs with
    | nil => exact .inr (.inr .nil)
    | cons b bs =>
      rcases Part.Less.total a b with h | rfl | h
      · exact .inl (.rel h)
      · rcases ih bs with h | rfl | h
        · exact .inl (.cons h)
        · exact .inr (.inl rfl)
        · exact .inr (.inr (.cons h))
      · exact .inr (.inr (.rel h))

theorem le_iff {a b : String} : le a b = true ↔ parts a = parts b ∨ Before a b :=
  notAfter_iff

theorem Before.trans {a b c : String} (hab : Before a b) (hbc : Before b c) : Before a c :=
  List.lex_trans (fun h h' => Part.Less.trans h h') hab hbc

theorem Before.irrefl (a : String) : ¬ Before a a :=
  List.lex_irrefl Part.Less.irrefl _

theorem le_trans (a b c : String) (hab : le a b = true) (hbc : le b c = true) : le a c = true := by
  rw [le_iff] at hab hbc ⊢
  rcases hab with hab | hab
  · rcases hbc with hbc | hbc
    · exact .inl (hab.trans hbc)
    · exact .inr (by rwa [Before, hab])
  · rcases hbc with hbc | hbc
    · exact .inr (by rwa [Before, ← hbc])
    · exact .inr (hab.trans hbc)

theorem le_total (a b : String) : (le a b || le b a) = true := by
  rw [Bool.or_eq_true, le_iff, le_iff]
  rcases lex_total (parts a) (parts b) with h | h | h
  · exact .inl (.inr h)
  · exact .inl (.inl h)
  · exact .inr (.inr h)

/-! ## Going on by a name -/

/-- What a file or a directory can be called. -/
def IsName (name : String) : Prop :=
  name ≠ "" ∧ name ≠ "." ∧ name ≠ ".." ∧ '/' ∉ name.toList

instance (name : String) : Decidable (IsName name) :=
  inferInstanceAs (Decidable (_ ∧ _ ∧ _ ∧ _))

theorem segments_name {name : String} (h : '/' ∉ name.toList) : segments name = [name] := by
  rw [segments, List.splitOn_eq_singleton h, List.map_singleton, String.ofList_toList]

theorem segments_append (a b : String) : segments (a ++ "/" ++ b) = segments a ++ segments b := by
  have hlist : (a ++ "/" ++ b).toList = a.toList ++ '/' :: b.toList := by simp
  rw [segments, hlist, List.splitOn_append_cons_self, List.map_append]
  rfl

theorem segments_ne_nil (path : String) : segments path ≠ [] := by
  rw [segments, Ne, List.map_eq_nil_iff]
  exact List.splitOn_ne_nil _ _

theorem eq_empty_of_segments {path : String} (h : segments path = [""]) : path = "" := by
  obtain ⟨part, hpart, hempty⟩ := List.map_eq_singleton_iff.1 h
  have hpath : ['/'].intercalate (path.toList.splitOn '/') = path.toList :=
    List.intercalate_splitOn _
  have hnil : part = [] := by
    rw [← String.toList_ofList (l := part), hempty]
    rfl
  rw [hpart, hnil] at hpath
  rw [← String.ofList_toList (s := path), ← hpath]
  rfl

/-- The segments of a path that goes on by a name: an empty last segment gives way to the name. -/
theorem segments_join {directory name : String} (hdir : directory ≠ "") (hname : IsName name) :
    (∃ front, front ≠ [] ∧ segments directory = front ++ [""] ∧
      segments (join directory name) = front ++ [name]) ∨
    segments (join directory name) = segments directory ++ [name] := by
  have hsegment := segments_name hname.2.2.2
  by_cases hslash : directory.toList.getLast? = some '/'
  · obtain ⟨front, hfront⟩ := List.getLast?_eq_some_iff.1 hslash
    have hdirectory : directory = String.ofList front ++ "/" := by
      rw [← String.ofList_toList (s := directory), hfront, String.ofList_append]
    refine .inl ⟨segments (String.ofList front), segments_ne_nil _, ?_, ?_⟩
    · rw [hdirectory, ← String.append_empty (s := String.ofList front ++ "/"), segments_append]
      rfl
    · rw [join, if_pos (.inr hslash), hdirectory, segments_append, hsegment]
  · rw [join, if_neg (not_or.2 ⟨hdir, hslash⟩), segments_append, hsegment]
    exact .inr rfl

theorem join_ne_empty {directory name : String} (hname : IsName name) :
    join directory name ≠ "" := by
  unfold join
  intro h
  split at h
  · exact hname.1 (String.append_eq_empty_iff.1 h).2
  · exact hname.1 (String.append_eq_empty_iff.1 h).2

theorem ofSegment?_name {name : String} (h : IsName name) :
    Part.ofSegment? name = some (.name name) := by
  obtain ⟨hempty, hdot, hdots, -⟩ := h
  rw [Part.ofSegment?, if_neg (not_or.2 ⟨hempty, hdot⟩), if_neg hdots]

/-- The parts of a path whose first segment is not all of an empty path. -/
theorem parts_eq {path first : String} {rest : List String} (h : segments path = first :: rest)
    (hrest : first = "" → rest ≠ []) :
    parts path = (if first = "" then some Part.root
      else if first = "." then some Part.current
      else Part.ofSegment? first).toList ++ rest.filterMap Part.ofSegment? := by
  rw [parts, h]
  simp only [and_iff_left_of_imp hrest]

/-- Going on by a name adds the name to the parts. -/
theorem parts_join {directory name : String} (hdir : directory ≠ "") (hname : IsName name) :
    parts (join directory name) = parts directory ++ [.name name] := by
  have hpart := ofSegment?_name hname
  rcases segments_join hdir hname with ⟨front, hfront, hsegments, hjoin⟩ | hjoin
  · obtain ⟨first, rest, rfl⟩ := List.exists_cons_of_ne_nil hfront
    rw [parts_eq hsegments fun _ => List.concat_ne_nil _ _,
      parts_eq hjoin fun _ => List.concat_ne_nil _ _]
    have hempty : Part.ofSegment? "" = none := rfl
    simp [hpart, hempty]
  · obtain ⟨first, rest, hsegments⟩ := List.exists_cons_of_ne_nil (segments_ne_nil directory)
    rw [hsegments] at hjoin
    have hrest : first = "" → rest ≠ [] := by
      rintro rfl rfl
      exact hdir (eq_empty_of_segments hsegments)
    rw [parts_eq hsegments hrest, parts_eq hjoin fun _ => List.concat_ne_nil _ _]
    simp [hpart]

theorem parts_foldl_join {directory : String} {names : List String} (hdir : directory ≠ "")
    (hnames : ∀ name ∈ names, IsName name) :
    parts (names.foldl join directory) = parts directory ++ names.map .name := by
  induction names generalizing directory with
  | nil => rw [List.foldl_nil, List.map_nil, List.append_nil]
  | cons name names ih =>
    have hname := hnames name List.mem_cons_self
    rw [List.foldl_cons, ih (join_ne_empty hname) fun x hx => hnames x (List.mem_cons_of_mem _ hx),
      parts_join hdir hname, List.append_assoc]
    rfl

/-! ## Extensions -/

/-- The last part of a path is a name with an extension of source files behind the dot. -/
def IsSource (path : String) : Prop :=
  ∃ stem extension : String, stem ≠ "" ∧ extension ∈ ["c", "h", "java"] ∧
    (parts path).getLast? = some (.name (stem ++ "." ++ extension))

theorem extensionOf?_append {stem : List Char} {extension : String} (hstem : stem ≠ [])
    (hdot : '.' ∉ extension.toList) :
    extensionOf? (stem ++ '.' :: extension.toList) = some extension := by
  have hreverse : (stem ++ '.' :: extension.toList).reverse =
      extension.toList.reverse ++ '.' :: stem.reverse := by simp
  have htail : (stem ++ '.' :: extension.toList).reverse.takeWhile (· ≠ '.') =
      extension.toList.reverse := by
    rw [hreverse, List.takeWhile_append_of_pos, List.takeWhile_cons_of_neg (by simp),
      List.append_nil]
    intro c hc
    simpa using fun h : c = '.' => hdot (h ▸ List.mem_reverse.1 hc)
  have hlength := List.length_pos_iff.2 hstem
  rw [extensionOf?, htail, if_pos (by simp; omega), List.reverse_reverse, String.ofList_toList]

theorem exists_of_extensionOf? {name : List Char} {extension : String}
    (h : extensionOf? name = some extension) :
    ∃ stem ≠ [], name = stem ++ '.' :: extension.toList := by
  unfold extensionOf? at h
  dsimp only at h
  split at h
  next hlength =>
    have hname := List.takeWhile_append_dropWhile (p := (· ≠ '.')) (l := name.reverse)
    have hdot := List.head?_dropWhile_not (· ≠ '.') name.reverse
    generalize name.reverse.takeWhile (· ≠ '.') = tail at *
    obtain rfl := Option.some.inj h
    have htotal := congrArg List.length hname
    rw [List.length_append, List.length_reverse] at htotal
    -- The tail leaves more than one character: the dot, and what stands before it.
    cases hdrop : name.reverse.dropWhile (· ≠ '.') with
    | nil =>
      rw [hdrop, List.length_nil] at htotal
      omega
    | cons c rest =>
      rw [hdrop] at hname hdot htotal
      have hc : c = '.' := by simpa using hdot
      refine ⟨rest.reverse, ?_, ?_⟩
      · intro hnil
        rw [List.reverse_eq_nil_iff.1 hnil, List.length_singleton] at htotal
        omega
      · rw [← List.reverse_inj, ← hname]
        simp [hc]
  next => cases h

theorem isSome_ofExtension? {extension : String} :
    (Grammar.ofExtension? extension).isSome ↔ extension ∈ ["c", "h", "java"] := by
  unfold Grammar.ofExtension?
  by_cases hc : extension = "c" ∨ extension = "h"
  · rcases hc with rfl | rfl <;> decide
  · rw [not_or] at hc
    by_cases hjava : extension = "java"
    · subst hjava
      decide
    · simp [hc, hjava]

/-- A path stands for a grammar exactly if it is that of a source file. -/
theorem isSome_grammar? {path : String} : (grammar? path).isSome ↔ IsSource path := by
  have hextension : (grammar? path).isSome ↔
      ∃ extension, extension? path = some extension ∧ extension ∈ ["c", "h", "java"] := by
    rw [grammar?]
    cases extension? path with
    | none => simp
    | some extension => simpa using isSome_ofExtension?
  rw [hextension]
  constructor
  · rintro ⟨extension, hsome, hmem⟩
    unfold extension? at hsome
    split at hsome
    next text hlast =>
      obtain ⟨stem, hstem, htext⟩ := exists_of_extensionOf? hsome
      refine ⟨String.ofList stem, extension, ?_, hmem, ?_⟩
      · exact fun h => hstem (String.ofList_eq_empty_iff.1 h)
      · rw [hlast, ← String.ofList_toList (s := text), htext, String.ofList_append,
          String.ofList_cons, String.ofList_toList, String.append_assoc]
        rfl
    next => cases hsome
  · rintro ⟨stem, extension, hstem, hmem, hlast⟩
    refine ⟨extension, ?_, hmem⟩
    have htext : (stem ++ "." ++ extension).toList = stem.toList ++ '.' :: extension.toList := by
      simp
    have hdot : '.' ∉ extension.toList := by
      simp only [List.mem_cons, List.not_mem_nil, or_false] at hmem
      rcases hmem with rfl | rfl | rfl <;> decide
    rw [extension?, hlast]
    simp only [htext]
    exact extensionOf?_append (fun h => hstem (String.toList_eq_nil_iff.1 h)) hdot

end GrowthOrder.Path
