import GrowthOrder.Command.Session
import GrowthOrder.Proofs.Files.Walk

/-!
# Batches file by file

A batch has one report for every source file that is met, in the order of paths, and each is what
becomes of that file by itself. Nothing else is in it: neither the order in which the files are met
nor the bytes of another file. A host that reads one file after the other makes the same batch, as
long as reading changes nothing.
-/
namespace GrowthOrder.BatchReport

variable {met met' : List String} {path : String}

theorem sourcePaths_perm (met : List String) :
    (sourcePaths met).Perm (met.filter fun path => (Path.grammar? path).isSome) :=
  List.mergeSort_perm _ _

theorem mem_sourcePaths_iff : path ∈ sourcePaths met ↔ path ∈ met ∧ Path.IsSource path := by
  rw [(sourcePaths_perm met).mem_iff, List.mem_filter, Path.isSome_grammar?]

/-- Paths that differ in their parts are put in strict order. -/
theorem pairwise_sourcePaths (h : met.Pairwise Path.Differ) :
    (sourcePaths met).Pairwise Path.Before := by
  have hle : (sourcePaths met).Pairwise fun a b => Path.le a b = true :=
    List.pairwise_mergeSort Path.le_trans Path.le_total _
  have hne : (sourcePaths met).Pairwise Path.Differ :=
    ((sourcePaths_perm met).pairwise_iff Path.Differ.symm).2 (h.filter _)
  exact (hle.and hne).imp fun ⟨hle, hne⟩ => (Path.le_iff.1 hle).resolve_left hne

theorem sourcePaths_eq_of_perm (h : met.Pairwise Path.Differ) (hperm : met'.Perm met) :
    sourcePaths met' = sourcePaths met := by
  have h' : met'.Pairwise Path.Differ := (hperm.pairwise_iff Path.Differ.symm).2 h
  refine List.Perm.eq_of_pairwise ?_ (pairwise_sourcePaths h') (pairwise_sourcePaths h) ?_
  · exact fun a b _ _ hab hba => absurd (hab.trans hba) (Path.Before.irrefl a)
  · exact (sourcePaths_perm met').trans ((hperm.filter _).trans (sourcePaths_perm met).symm)

section

variable (s : Settings) {read : String → Except FileError (List UInt8)}

theorem paths_ofWalk (met : List String) (read : String → Except FileError (List UInt8)) :
    (ofWalk s met read).files.map (·.path) = sourcePaths met := by
  rw [ofWalk, List.map_map]
  exact List.map_id _

theorem mem_files_iff {r : FileReport} :
    r ∈ (ofWalk s met read).files ↔
      r.path ∈ sourcePaths met ∧ r = FileReport.ofBytes s r.path (read r.path) := by
  rw [ofWalk, List.mem_map]
  constructor
  · rintro ⟨path, hpath, rfl⟩
    exact ⟨hpath, rfl⟩
  · rintro ⟨hpath, hr⟩
    exact ⟨r.path, hpath, hr.symm⟩

end

/-- The batch of a tree, in whatever order its files are met. It has reports on the source files
that are met and on nothing else, in strict order of their paths; each is that of its file alone,
read on its path; the order of meeting does not matter; and changing the bytes of a file changes no
path and no report on another file. -/
theorem ofWalk_filewise (s : Settings) {t : FileTree} (ht : t.WellFormed) {directory : String}
    {met : List String} (hmet : met.Perm (t.walk directory)) :
    (∀ path, (∃ r ∈ (ofWalk s met t.read).files, r.path = path) ↔
      Path.IsSource path ∧ ∃ file, t.Met directory path file) ∧
    (ofWalk s met t.read).files.Pairwise (fun r r' => Path.Before r.path r'.path) ∧
    (∀ r ∈ (ofWalk s met t.read).files, ∃ file,
      (∀ other, t.Met directory r.path other ↔ other = file) ∧
      t.read r.path = .ok file.2 ∧ r = FileReport.ofBytes s r.path (.ok file.2)) ∧
    (∀ met', met'.Perm (t.walk directory) → ofWalk s met' t.read = ofWalk s met t.read) ∧
    ∀ file ∈ t.files, ∀ bytes met', met'.Perm ((t.put file.1 bytes).walk directory) →
      (ofWalk s met' (t.put file.1 bytes).read).files.map (·.path) =
        (ofWalk s met t.read).files.map (·.path) ∧
      ∀ r ∈ (ofWalk s met t.read).files, ¬ t.Met directory r.path file →
        r ∈ (ofWalk s met' (t.put file.1 bytes).read).files := by
  have hdiffer : met.Pairwise Path.Differ :=
    (hmet.pairwise_iff Path.Differ.symm).2 (t.pairwise_differ_walk ht directory)
  have hpath (path) : path ∈ sourcePaths met ↔
      Path.IsSource path ∧ ∃ file, t.Met directory path file := by
    rw [mem_sourcePaths_iff, hmet.mem_iff, FileTree.mem_walk_iff ht, and_comm]
  refine ⟨fun path => ?_, ?_, fun r hr => ?_, fun met' hmet' => ?_,
    fun file hfile bytes met' hmet' => ?_⟩
  · rw [← hpath, ← paths_ofWalk s met t.read, List.mem_map]
  · rw [← List.pairwise_map (f := FileReport.path) (R := Path.Before), paths_ofWalk]
    exact pairwise_sourcePaths hdiffer
  · obtain ⟨hsource, hreport⟩ := (mem_files_iff s).1 hr
    obtain ⟨-, file, hfile⟩ := (hpath r.path).1 hsource
    have hread := FileTree.read_of_met ht hfile
    refine ⟨file, fun other => ⟨FileTree.eq_of_met ht hfile, ?_⟩, hread, hread ▸ hreport⟩
    rintro rfl
    exact hfile
  · rw [ofWalk, ofWalk, sourcePaths_eq_of_perm hdiffer (hmet'.trans hmet.symm)]
  · have hshape := FileTree.sameShape_put ht (List.mem_map_of_mem hfile) bytes
    have hpaths : sourcePaths met' = sourcePaths met :=
      sourcePaths_eq_of_perm hdiffer (hmet'.trans ((hshape.walk_perm _).trans hmet.symm))
    refine ⟨by rw [paths_ofWalk, paths_ofWalk, hpaths], fun r hr hother => ?_⟩
    obtain ⟨hsource, hreport⟩ := (mem_files_iff s).1 hr
    obtain ⟨-, other, hmeet⟩ := (hpath r.path).1 hsource
    rw [mem_files_iff, hpaths, FileTree.read_put ht hfile bytes hmeet hother]
    exact ⟨hsource, hreport⟩

/-- Two sources and a text. Of the sources, the one below the directory comes first, though a hyphen
is before a slash; the other cannot be read as a program. -/
def hyphenated : FileTree :=
  ((({} : FileTree).withFile "p/a-b.c" (Utf8.encode "for (")).withFile "p/a/b.c" []).withFile
    "p/n.txt" []

theorem ofWalk_filewise_hyphenated :
    hyphenated.WellFormed ∧ ["p/a-b.c", "p/n.txt", "p/a/b.c"].Perm (hyphenated.walk "p") ∧
    (ofWalk {} ["p/a-b.c", "p/n.txt", "p/a/b.c"] hyphenated.read).files.map (·.path) =
      ["p/a/b.c", "p/a-b.c"] ∧
    ∀ bytes met', met'.Perm ((hyphenated.put ["p", "a-b.c"] bytes).walk "p") →
      FileReport.ofBytes {} "p/a/b.c" (.ok []) ∈
        (ofWalk {} met' (hyphenated.put ["p", "a-b.c"] bytes).read).files := by
  have hwell : hyphenated.WellFormed := ⟨by decide, by decide, by decide⟩
  have hperm : ["p/a-b.c", "p/n.txt", "p/a/b.c"].Perm (hyphenated.walk "p") := by decide
  have hsources : sourcePaths ["p/a-b.c", "p/n.txt", "p/a/b.c"] = ["p/a/b.c", "p/a-b.c"] := by
    have hfilter : ["p/a-b.c", "p/n.txt", "p/a/b.c"].filter
        (fun path => (Path.grammar? path).isSome) = ["p/a-b.c", "p/a/b.c"] := by decide
    have hle : Path.le "p/a-b.c" "p/a/b.c" = false := by decide
    rw [sourcePaths, hfilter]
    simp [List.mergeSort, hle]
  have hmet : hyphenated.Met "p" "p/a/b.c" (["p", "a", "b.c"], []) :=
    ⟨by decide, ["p"], ["a", "b.c"], rfl, rfl, by decide⟩
  refine ⟨hwell, hperm, by rw [paths_ofWalk, hsources], fun bytes met' hmet' => ?_⟩
  obtain ⟨-, -, -, -, hchange⟩ := ofWalk_filewise {} hwell hperm
  refine (hchange (["p", "a-b.c"], Utf8.encode "for (") (by decide) bytes met' hmet').2 _ ?_ ?_
  · refine (mem_files_iff {}).2 ⟨hsources ▸ List.mem_cons_self, ?_⟩
    exact congrArg (FileReport.ofBytes {} "p/a/b.c") (FileTree.read_of_met hwell hmet).symm
  · intro hother
    have hplaces := congrArg Prod.fst (FileTree.eq_of_met hwell hmet hother)
    exact absurd hplaces (by decide)

end GrowthOrder.BatchReport

namespace GrowthOrder.Session

/-- Actions that leave the session as it is leave it so one after the other. -/
theorem mapM_eq_map {α β : Type} {f : α → StateM Session β} {g : α → β} {s : Session}
    (h : ∀ x, f x s = (g x, s)) (xs : List α) : xs.mapM f s = (xs.map g, s) := by
  induction xs with
  | nil => rfl
  | cons x xs ih =>
    have hcons : (x :: xs).mapM f s =
        ((f x s).1 :: (xs.mapM f (f x s).2).1, (xs.mapM f (f x s).2).2) := by
      rw [List.mapM_cons]
      rfl
    rw [hcons, h x, ih, List.map_cons]

/-- The report that a run makes on a directory is the batch of the files that are there. -/
theorem batchReport_eq (s : Session) (settings : Settings) (directory : String) :
    host.batchReport settings directory s =
      (.ofWalk settings (s.files.walk directory) s.files.read, s) := by
  have hread (path : String) :
      (do return FileReport.ofBytes settings path (← host.read path) : StateM Session FileReport) s
        = (FileReport.ofBytes settings path (s.files.read path), s) := rfl
  have hfiles := mapM_eq_map hread (BatchReport.sourcePaths (s.files.walk directory))
  exact congrArg (fun r => (BatchReport.mk r.1, r.2)) hfiles

end GrowthOrder.Session
