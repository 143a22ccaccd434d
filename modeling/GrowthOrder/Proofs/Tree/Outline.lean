import GrowthOrder.Proofs.Tree.Descent
import GrowthOrder.Tree.Outline
import Mathlib.Data.List.Nodup
import Mathlib.Logic.Function.Iterate

/-!
# Walks down and up a tree

In a linked tree the depth-first walk from the root meets every node exactly once. The outline of
the tree has one line for each node that the walk meets, in that order, indented by the number of
the node's ancestors, and the node's tag and label can be read off the line. The way up from a node
ends after at most as many steps as the node's number says, and the function around the node is the
nearest one on it.
-/
namespace GrowthOrder

namespace NodeKind

theorem isAlpha_of_mem_tag (k : NodeKind) : ∀ c ∈ k.tag.toList, c.isAlpha = true := by
  apply List.all_eq_true.1
  cases k with
  | loop form header => cases form <;> (dsimp only [tag]; decide)
  | _ => dsimp only [tag]; decide

/-- The details begin with a blank or a bracket. -/
theorem head?_details (k : NodeKind) : ∀ c ∈ k.details.toList.head?, c = ' ' ∨ c = '[' := by
  intro c hc
  cases k with
  | loop form header =>
    rw [details] at hc
    split at hc
    · rw [String.append_assoc, String.toList_append, List.head?_append] at hc
      exact .inl (Option.some.inj hc).symm
    · cases hc
  | arrayDeclaration shape =>
    rw [details] at hc
    cases hd : shape.dimensions with
    | nil => exact absurd hd shape.nonempty
    | cons d dimensions =>
      rw [hd, List.map_cons, String.join_cons, String.append_assoc, String.append_assoc,
        String.toList_append, List.head?_append] at hc
      exact .inr (Option.some.inj hc).symm
  | typeDeclaration d =>
    rw [details] at hc
    cases hname : d.name with
    | none =>
      rw [hname] at hc
      cases hc
    | some name =>
      rw [hname] at hc
      dsimp only at hc
      rw [String.append_assoc, String.append_assoc, String.append_assoc, String.toList_append,
        List.head?_append] at hc
      exact .inl (Option.some.inj hc).symm
  | _ => cases hc

end NodeKind

namespace SyntaxTree

variable {t : SyntaxTree} {c f id u : Nat}

theorem nodup_preorder (ht : t.Linked) (id : Nat) : (t.preorder id).Nodup := by
  induction id using t.induction with
  | step id ih =>
    rw [preorder_eq, List.nodup_cons, List.nodup_flatMap]
    refine ⟨?_, ih, ?_⟩
    · intro hmem
      obtain ⟨c, hc, hid⟩ := List.mem_flatMap.1 hmem
      have hlt := (mem_children_range hc).1
      have hle := le_of_mem_preorder ht hid
      omega
    · -- children are in increasing order, so two of them differ and share no node
      refine (ht.increasing id).imp_of_mem ?_
      intro c d hc hd hlt u huc hud
      have heq := child_unique ht hc hd huc hud
      omega

theorem mem_preorder_root_iff (ht : t.Linked) (hs : 0 < t.size) :
    u ∈ t.preorder 0 ↔ u < t.size := by
  constructor
  · intro hu
    rcases List.mem_cons.1 ((mem_preorder_iff ht).1 hu) with h0 | h0
    · rwa [← h0]
    · exact lt_size_of_mem_lineage h0
  · exact mem_preorder_root ht

/-- The walk from the root meets every node exactly once. -/
theorem perm_preorder_root (ht : t.Linked) (hs : 0 < t.size) :
    (t.preorder 0).Perm (List.range t.size) := by
  refine (List.perm_ext_iff_of_nodup (nodup_preorder ht 0) List.nodup_range).2 fun u => ?_
  rw [mem_preorder_root_iff ht hs, List.mem_range]

/-! ## The outline -/

/-- The number of proper ancestors. -/
def depth (t : SyntaxTree) (u : Nat) : Nat :=
  (t.lineage u).length

/-- The line of a node in the outline of the whole tree. -/
def outlineLine (t : SyntaxTree) (u : Nat) : String :=
  String.join (List.replicate (t.depth u) "  ") ++ t.line u ++ "\n"

theorem depth_root (t : SyntaxTree) : t.depth 0 = 0 := by
  rw [depth, lineage_of_none t.parent_root, List.length_nil]

theorem depth_of_mem_children (ht : t.Linked) (hc : c ∈ t.children id) :
    t.depth c = t.depth id + 1 := by
  rw [depth, lineage_of_mem_children ht hc, List.length_cons, depth]

theorem depth_le_of_mem_preorder (ht : t.Linked) (hu : u ∈ t.preorder id) :
    t.depth id ≤ t.depth u := by
  rcases List.mem_cons.1 ((mem_preorder_iff ht).1 hu) with rfl | h
  · exact Nat.le_refl _
  · have hlen := (lineage_suffix h).length_le
    rw [List.length_cons] at hlen
    exact Nat.le_of_succ_le hlen

theorem lines_eq (t : SyntaxTree) (id level : Nat) :
    t.lines id level =
      (level, t.line id) :: (t.children id).flatMap fun c => t.lines c (level + 1) := by
  rw [lines, fold_eq, List.flatMap_map]
  rfl

/-- The lines below a node are those of the nodes that the walk meets, and a line is as much
further in as its node has more ancestors. -/
theorem lines_eq_map (ht : t.Linked) (id level : Nat) :
    t.lines id level =
      (t.preorder id).map fun u => (level + (t.depth u - t.depth id), t.line u) := by
  induction id using t.induction generalizing level with
  | step id ih =>
    have hbelow : ∀ c ∈ t.children id, t.lines c (level + 1) =
        (t.preorder c).map fun u => (level + (t.depth u - t.depth id), t.line u) := by
      intro c hc
      rw [ih c hc]
      refine List.map_congr_left fun u hu => ?_
      have hd := depth_of_mem_children ht hc
      have hle := depth_le_of_mem_preorder ht hu
      have hlevel : level + 1 + (t.depth u - t.depth c) = level + (t.depth u - t.depth id) := by
        omega
      rw [hlevel]
    rw [lines_eq, List.flatMap_congr hbelow, preorder_eq, List.map_cons, List.map_flatMap,
      Nat.sub_self, Nat.add_zero]

theorem outline_eq (ht : t.Linked) (hs : 0 < t.size) :
    t.outline = String.join ((t.preorder 0).map t.outlineLine) := by
  have hroot : t.root? = some 0 := if_neg (Nat.ne_of_gt hs)
  have hlines : t.lines 0 0 = (t.preorder 0).map fun u => (t.depth u, t.line u) := by
    rw [lines_eq_map ht]
    refine List.map_congr_left fun u _ => ?_
    rw [depth_root, Nat.zero_add, Nat.sub_zero]
  rw [outline, hroot]
  dsimp only
  rw [hlines, List.map_map]
  rfl

/-! ## What a line shows -/

/-- What a line shows behind the tag. -/
def lineRest (t : SyntaxTree) (id : Nat) : String :=
  ((t.label id).map (": " ++ ·)).getD "" ++ (t.kind id).details

theorem toList_line (t : SyntaxTree) (id : Nat) :
    (t.line id).toList = (t.kind id).tag.toList ++ (t.lineRest id).toList := by
  rw [line, String.append_assoc, String.toList_append]
  rfl

theorem lineRest_of_label {label : String} (h : t.label id = some label) :
    (t.lineRest id).toList = ':' :: ' ' :: (label.toList ++ (t.kind id).details.toList) := by
  rw [lineRest, h, Option.map_some, Option.getD_some, String.toList_append, String.toList_append]
  rfl

/-- Behind the tag comes a colon if there is a label, and no letter in any case. -/
theorem head?_lineRest (t : SyntaxTree) (id : Nat) : ∀ c ∈ (t.lineRest id).toList.head?,
    c.isAlpha = false ∧ (c = ':' ↔ (t.label id).isSome) := by
  intro c hc
  cases hlabel : t.label id with
  | some label =>
    rw [lineRest_of_label hlabel] at hc
    obtain rfl : ':' = c := Option.some.inj hc
    exact ⟨by decide, by simp⟩
  | none =>
    have hrest : t.lineRest id = (t.kind id).details := by
      rw [lineRest, hlabel]
      exact String.empty_append
    rw [hrest] at hc
    rcases (t.kind id).head?_details c hc with rfl | rfl
    · exact ⟨by decide, by decide⟩
    · exact ⟨by decide, by decide⟩

/-- The letters at the beginning of a line are the tag. -/
theorem takeWhile_line (t : SyntaxTree) (id : Nat) :
    (t.line id).toList.takeWhile Char.isAlpha = (t.kind id).tag.toList := by
  rw [toList_line, List.takeWhile_append_of_pos (t.kind id).isAlpha_of_mem_tag]
  cases hrest : (t.lineRest id).toList with
  | nil => exact List.append_nil _
  | cons c rest =>
    have hc := (t.head?_lineRest id c (by rw [hrest]; rfl)).1
    rw [List.takeWhile_cons_of_neg (by rw [hc]; exact Bool.false_ne_true), List.append_nil]

theorem dropWhile_line (t : SyntaxTree) (id : Nat) :
    (t.line id).toList.dropWhile Char.isAlpha = (t.lineRest id).toList := by
  rw [toList_line, List.dropWhile_append_of_pos (t.kind id).isAlpha_of_mem_tag]
  cases hrest : (t.lineRest id).toList with
  | nil => rfl
  | cons c rest =>
    have hc := (t.head?_lineRest id c (by rw [hrest]; rfl)).1
    rw [List.dropWhile_cons_of_neg (by rw [hc]; exact Bool.false_ne_true)]

/-- The line of a node shows its tag and its label: the letters at the beginning are the tag, a
colon stands behind them exactly if there is a label, and then the label comes next. -/
theorem line_shows (t : SyntaxTree) (id : Nat) :
    (t.line id).toList.takeWhile Char.isAlpha = (t.kind id).tag.toList ∧
    (((t.line id).toList.dropWhile Char.isAlpha).head? = some ':' ↔ (t.label id).isSome) ∧
    ∀ label, t.label id = some label →
      ": ".toList ++ label.toList <+: (t.line id).toList.dropWhile Char.isAlpha := by
  rw [dropWhile_line]
  refine ⟨t.takeWhile_line id, ⟨fun h => ((t.head?_lineRest id ':' h).2).1 rfl, fun h => ?_⟩, ?_⟩
  · obtain ⟨label, hlabel⟩ := Option.isSome_iff_exists.1 h
    rw [lineRest_of_label hlabel]
    rfl
  · intro label hlabel
    rw [lineRest_of_label hlabel]
    exact ⟨(t.kind id).details.toList, by rw [List.append_assoc]; rfl⟩

/-! ## The way up -/

/-- The walk from parent to parent leaves the tree after at most `n` steps from a number below
`n`. -/
theorem iterate_parent (t : SyntaxTree) {n : Nat} (h : u < n) :
    (fun w => w.bind t.parent)^[n] (some u) = none := by
  have hnone : ∀ m, (fun w => Option.bind w t.parent)^[m] none = none := by
    intro m
    exact Function.iterate_fixed rfl m
  induction n generalizing u with
  | zero => omega
  | succ n ih =>
    rw [Function.iterate_succ_apply, Option.bind_some]
    cases hp : t.parent u with
    | none => exact hnone n
    | some p =>
      have hlt := parent_eq_some_lt hp
      exact ih (by omega)

/-- `f` is a definition at or above `u`, and all such definitions are at or above `f`. -/
structure Surrounds (t : SyntaxTree) (f u : Nat) : Prop where
  mem : f ∈ u :: t.lineage u
  isFunction : (t.kind f).isFunction
  nearest : ∀ v ∈ u :: t.lineage u, (t.kind v).isFunction → v ∈ f :: t.lineage f

theorem surrounds_self (hu : (t.kind u).isFunction) : t.Surrounds f u ↔ f = u := by
  constructor
  · rintro ⟨hmem, -, hnear⟩
    rcases List.mem_cons.1 hmem with hfu | hfu
    · exact hfu
    · rcases List.mem_cons.1 (hnear u List.mem_cons_self hu) with huf | huf
      · exact huf.symm
      · have h1 := mem_lineage_lt hfu
        have h2 := mem_lineage_lt huf
        omega
  · rintro rfl
    exact ⟨List.mem_cons_self, hu, fun v hv _ => hv⟩

theorem surrounds_parent {p : Nat} (hu : (t.kind u).isFunction = false)
    (hp : t.parent u = some p) : t.Surrounds f u ↔ t.Surrounds f p := by
  have hline := lineage_of_parent hp
  constructor
  · rintro ⟨hmem, hf, hnear⟩
    rw [hline] at hmem hnear
    refine ⟨?_, hf, fun v hv => hnear v (List.mem_cons_of_mem _ hv)⟩
    rcases List.mem_cons.1 hmem with rfl | hmem
    · rw [hu] at hf
      cases hf
    · exact hmem
  · rintro ⟨hmem, hf, hnear⟩
    refine ⟨?_, hf, ?_⟩
    · rw [hline]
      exact List.mem_cons_of_mem _ hmem
    · intro v hv hk
      rw [hline] at hv
      rcases List.mem_cons.1 hv with rfl | hv
      · rw [hu] at hk
        cases hk
      · exact hnear v hv hk

/-- The enclosing function is the nearest definition at or above a node. -/
theorem enclosingFunction?_eq_some_iff : t.enclosingFunction? u = some f ↔ t.Surrounds f u := by
  induction u using Nat.strongRecOn with
  | ind u ih =>
    rw [enclosingFunction?_eq]
    cases hu : (t.kind u).isFunction with
    | true =>
      rw [if_pos rfl, surrounds_self hu, Option.some_inj]
      exact eq_comm
    | false =>
      rw [if_neg Bool.false_ne_true]
      cases hp : t.parent u with
      | none =>
        constructor
        · intro h
          cases h
        · rintro ⟨hmem, hf, -⟩
          rw [lineage_of_none hp] at hmem
          obtain rfl := List.mem_singleton.1 hmem
          rw [hu] at hf
          cases hf
      | some p =>
        rw [surrounds_parent hu hp]
        exact ih p (parent_eq_some_lt hp)

theorem enclosingFunction?_isSome :
    (t.enclosingFunction? u).isSome ↔ ∃ v ∈ u :: t.lineage u, (t.kind v).isFunction := by
  rw [enclosingFunction?_eq_find, List.find?_isSome]

end SyntaxTree

end GrowthOrder
