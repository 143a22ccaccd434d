import GrowthOrder.Output.Table
import Mathlib

/-!
# The columns of a table

Every line of a table is a row of fields with three characters between every two: the cells of the
headers or of a row, filled with blanks, or the dashes of the rule. A field has as many characters
as its column is wide, so all lines are equally long and a column begins at the same place in each.
Widths are counted in bytes and the filling in characters; a text has no more characters than bytes,
so that no cell is too long for its column.
-/
namespace GrowthOrder.Table

/-- The place at which a column begins. -/
def column (widths : List Nat) (i : Nat) : Nat :=
  (widths.take i).sum + 3 * i

/-- The number of characters of a line. -/
def lineLength (widths : List Nat) : Nat :=
  widths.sum + 3 * (widths.length - 1)

/-- What a line holds in a column. -/
def fieldAt (widths : List Nat) (i : Nat) (line : String) : List Char :=
  (line.toList.drop (column widths i)).take (widths.getD i 0)

/-- Every text stands in its column, whole and with nothing but blanks behind it. -/
def InColumns (widths : List Nat) (cells : List String) (line : String) : Prop :=
  ∀ i cell, cells[i]? = some cell → ∃ blanks, i < widths.length ∧
    fieldAt widths i line = cell.toList ++ List.replicate blanks ' ' ∧
    cell.length + blanks = widths.getD i 0

variable {widths : List Nat} {cells : List String}

/-! ## Fields -/

theorem column_cons_succ (width : Nat) (widths : List Nat) (i : Nat) :
    column (width :: widths) (i + 1) = width + 3 + column widths i := by
  simp only [column, List.take_succ_cons, List.sum_cons]
  omega

theorem lineLength_cons_cons (width next : Nat) (widths : List Nat) :
    lineLength (width :: next :: widths) = width + 3 + lineLength (next :: widths) := by
  simp only [lineLength, List.sum_cons, List.length_cons]
  omega

section

variable {sep : List Char}

theorem length_intercalate (hsep : sep.length = 3) (fields : List (List Char)) :
    (sep.intercalate fields).length = lineLength (fields.map List.length) := by
  induction fields with
  | nil => rfl
  | cons f fields ih =>
    cases fields with
    | nil => simp [lineLength]
    | cons g fields =>
      rw [List.intercalate_cons_cons, List.length_append, List.length_append, ih, hsep]
      exact (lineLength_cons_cons ..).symm

/-- A field is found at the place of its column. -/
theorem take_drop_intercalate (hsep : sep.length = 3) {fields : List (List Char)} {i : Nat}
    {f : List Char} (h : fields[i]? = some f) :
    ((sep.intercalate fields).drop (column (fields.map List.length) i)).take f.length = f := by
  induction fields generalizing i with
  | nil => simp at h
  | cons g fields ih =>
    cases i with
    | zero =>
      obtain rfl : g = f := by simpa using h
      cases fields with
      | nil => simp [column]
      | cons g' fields =>
        rw [List.intercalate_cons_cons, List.append_assoc]
        exact List.take_left
    | succ i =>
      rw [List.getElem?_cons_succ] at h
      cases fields with
      | nil => simp at h
      | cons g' fields =>
        have hfront : (g ++ sep).length = g.length + 3 := by rw [List.length_append, hsep]
        rw [List.intercalate_cons_cons, List.map_cons, column_cons_succ, ← List.drop_drop, ← hfront,
          List.drop_left]
        exact ih h

end

/-! ## Widths -/

theorem length_le_utf8ByteSize (text : String) : text.length ≤ text.utf8ByteSize := by
  have hchars : ∀ cs : List Char, cs.length ≤ (String.ofList cs).utf8ByteSize := by
    intro cs
    induction cs with
    | nil => exact Nat.zero_le _
    | cons c cs ih =>
      have hpos := c.utf8Size_pos
      rw [String.ofList_cons, String.utf8ByteSize_append, String.utf8ByteSize_singleton,
        List.length_cons]
      omega
  have htext := hchars text.toList
  rwa [String.ofList_toList, String.length_toList] at htext

/-- No text has more bytes than its column is wide. -/
def Covers : List Nat → List String → Prop :=
  List.Forall₂ fun width cell => cell.utf8ByteSize ≤ width

theorem covers_map (cells : List String) : Covers (cells.map String.utf8ByteSize) cells := by
  induction cells with
  | nil => exact .nil
  | cons cell cells ih => exact .cons (Nat.le_refl _) ih

theorem length_widen (widths : List Nat) (cells : List String) :
    (widen widths cells).length = widths.length := by
  fun_induction widen widths cells with
  | case1 width widths cell cells ih => rw [List.length_cons, List.length_cons, ih]
  | case2 => rfl

theorem covers_widen (h : cells.length = widths.length) : Covers (widen widths cells) cells := by
  fun_induction widen widths cells with
  | case1 width widths cell cells ih =>
    exact .cons (Nat.le_max_right _ _) (ih (Nat.succ.inj h))
  | case2 widths cells hcons =>
    cases widths with
    | nil =>
      rw [List.eq_nil_of_length_eq_zero h]
      exact .nil
    | cons width widths =>
      cases cells with
      | nil => cases h
      | cons cell cells => exact absurd rfl (hcons width widths cell cells rfl)

theorem Covers.widen (h : Covers widths cells) (others : List String) :
    Covers (widen widths others) cells := by
  fun_induction Table.widen widths others generalizing cells with
  | case1 width widths other others ih =>
    cases h with
    | cons hcell hcells => exact .cons (Nat.le_trans hcell (Nat.le_max_left _ _)) (ih hcells)
  | case2 => exact h

theorem Covers.foldl_widen (h : Covers widths cells) (rows : List (List String)) :
    Covers (rows.foldl Table.widen widths) cells := by
  induction rows generalizing widths with
  | nil => exact h
  | cons row rows ih => exact ih (h.widen row)

/-- A row of the right length is covered once it has been seen, and stays so. -/
theorem covers_foldl_widen {rows : List (List String)} {row : List String} (hrow : row ∈ rows)
    (h : ∀ row ∈ rows, row.length = widths.length) : Covers (rows.foldl widen widths) row := by
  induction rows generalizing widths with
  | nil => cases hrow
  | cons first rows ih =>
    rcases List.mem_cons.1 hrow with rfl | hrow
    · exact (covers_widen (h row List.mem_cons_self)).foldl_widen rows
    · refine ih hrow fun other hother => ?_
      rw [length_widen]
      exact h other (List.mem_cons_of_mem _ hother)

theorem length_foldl_widen (rows : List (List String)) :
    (rows.foldl widen widths).length = widths.length := by
  induction rows generalizing widths with
  | nil => rfl
  | cons row rows ih =>
    rw [List.foldl_cons, ih, length_widen]

/-! ## Lines -/

theorem length_pad {width : Nat} {cell : String} (h : cell.length ≤ width) :
    (pad width cell).length = width := by
  rw [pad, String.length_append, String.length_ofList, List.length_replicate]
  omega

theorem Covers.map_length_padded (h : Covers widths cells) :
    (padded widths cells).map (fun field => field.toList.length) = widths := by
  induction h with
  | nil => rfl
  | @cons width cell widths cells hcell _ ih =>
    have hfits := Nat.le_trans (length_le_utf8ByteSize cell) hcell
    rw [padded, List.map_cons, ih, String.length_toList, length_pad hfits]

theorem Covers.getElem?_padded (h : Covers widths cells) {i : Nat} {cell : String}
    (hi : cells[i]? = some cell) :
    ∃ width, widths[i]? = some width ∧ cell.length ≤ width ∧
      (padded widths cells)[i]? = some (pad width cell) := by
  induction h generalizing i with
  | nil => simp at hi
  | @cons width first widths cells hfirst _ ih =>
    cases i with
    | zero =>
      obtain rfl : first = cell := by simpa using hi
      exact ⟨width, rfl, Nat.le_trans (length_le_utf8ByteSize first) hfirst, rfl⟩
    | succ i => exact ih (by simpa using hi)

theorem Covers.length_row (h : Covers widths cells) :
    (row widths cells).length = lineLength widths := by
  rw [← String.length_toList, row, String.toList_intercalate, length_intercalate rfl, List.map_map]
  exact congrArg lineLength h.map_length_padded

theorem Covers.inColumns_row (h : Covers widths cells) :
    InColumns widths cells (row widths cells) := by
  intro i cell hi
  obtain ⟨width, hwidth, hfits, hfield⟩ := h.getElem?_padded hi
  have hat : ((padded widths cells).map String.toList)[i]? = some (pad width cell).toList := by
    rw [List.getElem?_map, hfield, Option.map_some]
  have htake := take_drop_intercalate (show " │ ".toList.length = 3 from rfl) hat
  rw [← String.toList_intercalate, List.map_map] at htake
  have hwidths : (padded widths cells).map (List.length ∘ String.toList) = widths :=
    h.map_length_padded
  have hgetD : widths.getD i 0 = width := by rw [List.getD_eq_getElem?_getD, hwidth]; rfl
  rw [hwidths, String.length_toList, length_pad hfits] at htake
  refine ⟨width - cell.length, (List.getElem?_eq_some_iff.1 hwidth).1, ?_, ?_⟩
  · rw [fieldAt, hgetD]
    refine htake.trans ?_
    rw [pad, String.toList_append, String.toList_ofList]
  · rw [hgetD]
    omega

theorem toList_rule (widths : List Nat) : (rule widths).toList =
    "─┼─".toList.intercalate (widths.map fun width => List.replicate width '─') := by
  rw [rule, String.toList_intercalate, List.map_map]
  exact congrArg _ (List.map_congr_left fun width _ => String.toList_ofList)

theorem map_length_dashes (widths : List Nat) :
    (widths.map fun width => List.replicate width '─').map List.length = widths := by
  simp [Function.comp_def]

theorem length_rule (widths : List Nat) : (rule widths).length = lineLength widths := by
  rw [← String.length_toList, toList_rule, length_intercalate rfl, map_length_dashes]

theorem fieldAt_rule {i : Nat} (hi : i < widths.length) :
    fieldAt widths i (rule widths) = List.replicate (widths.getD i 0) '─' := by
  have hat : (widths.map fun width => List.replicate width '─')[i]? =
      some (List.replicate (widths.getD i 0) '─') := by
    rw [List.getElem?_map, List.getElem?_eq_getElem hi, List.getD_eq_getElem _ _ hi]
    rfl
  have htake := take_drop_intercalate (show "─┼─".toList.length = 3 from rfl) hat
  rwa [map_length_dashes, List.length_replicate, ← toList_rule] at htake

/-! ## The text -/

section

variable {x : Char}

theorem not_mem_intercalate {sep : List Char} {fields : List (List Char)} (hsep : x ∉ sep)
    (h : ∀ f ∈ fields, x ∉ f) : x ∉ sep.intercalate fields := by
  induction fields with
  | nil => exact List.not_mem_nil
  | cons f fields ih =>
    have hf := h f List.mem_cons_self
    have hrest := ih fun g hg => h g (List.mem_cons_of_mem _ hg)
    cases fields with
    | nil =>
      rw [List.intercalate_singleton]
      exact hf
    | cons g fields =>
      rw [List.intercalate_cons_cons, List.mem_append, List.mem_append]
      exact not_or.2 ⟨not_or.2 ⟨hf, hsep⟩, hrest⟩

theorem not_mem_padded (hblank : x ≠ ' ') (h : ∀ cell ∈ cells, x ∉ cell.toList) :
    ∀ field ∈ padded widths cells, x ∉ field.toList := by
  fun_induction padded widths cells with
  | case1 width widths cell cells ih =>
    refine List.forall_mem_cons.2 ⟨?_, ih fun c hc => h c (List.mem_cons_of_mem _ hc)⟩
    rw [pad, String.toList_append, String.toList_ofList, List.mem_append, not_or]
    exact ⟨h cell List.mem_cons_self, fun hx => hblank (List.eq_of_mem_replicate hx)⟩
  | case2 => exact h

end

theorem newline_not_mem_row (widths : List Nat) (h : ∀ cell ∈ cells, '\n' ∉ cell.toList) :
    '\n' ∉ (row widths cells).toList := by
  rw [row, String.toList_intercalate]
  refine not_mem_intercalate (by decide) fun f hf => ?_
  obtain ⟨field, hfield, rfl⟩ := List.mem_map.1 hf
  exact not_mem_padded (by decide) h field hfield

theorem newline_not_mem_rule (widths : List Nat) : '\n' ∉ (rule widths).toList := by
  rw [toList_rule]
  refine not_mem_intercalate (by decide) fun f hf hx => ?_
  obtain ⟨width, -, rfl⟩ := List.mem_map.1 hf
  exact absurd (List.eq_of_mem_replicate hx) (by decide)

/-- Lines that hold no line feed are found again where the text is cut at its line feeds. -/
theorem splitOn_join {lines : List String} (h : ∀ line ∈ lines, '\n' ∉ line.toList) :
    (String.join (lines.map (· ++ "\n"))).toList.splitOn '\n' =
      lines.map String.toList ++ [[]] := by
  induction lines with
  | nil => rfl
  | cons line lines ih =>
    have hrest := ih fun other hother => h other (List.mem_cons_of_mem _ hother)
    have hend : "\n".toList = ['\n'] := rfl
    rw [List.map_cons, String.join_cons, String.toList_append, String.toList_append,
      List.append_assoc, hend, List.singleton_append,
      List.splitOn_append_cons_self_of_not_mem (h line List.mem_cons_self), hrest]
    rfl

/-- A table whose rows have as many cells as there are headers is written as the line of the
headers, the rule and one line for each row, all with the same number of characters. Each cell is
whole and begins where its header does. If no cell holds a line feed, these lines are what stands
between the line feeds of the text. -/
theorem render_aligned (t : Table) (h : ∀ row ∈ t.rows, row.length = t.headers.length) :
    ∃ (header rule : String) (body : List String),
      t.render = String.join ((header :: rule :: body).map (· ++ "\n")) ∧
      (∀ line ∈ header :: rule :: body, line.length = lineLength t.widths) ∧
      InColumns t.widths t.headers header ∧
      (∀ i, i < t.headers.length →
        fieldAt t.widths i rule = List.replicate (t.widths.getD i 0) '─') ∧
      List.Forall₂ (InColumns t.widths) t.rows body ∧
      ((∀ cell ∈ t.headers ++ t.rows.flatten, '\n' ∉ cell.toList) →
        t.render.toList.splitOn '\n' = (header :: rule :: body).map String.toList ++ [[]]) := by
  have hheaders : Covers t.widths t.headers := (covers_map t.headers).foldl_widen t.rows
  have hrows : ∀ row ∈ t.rows, Covers t.widths row := by
    intro row hrow
    refine covers_foldl_widen hrow fun other hother => ?_
    rw [List.length_map, h other hother]
  have hlength : t.widths.length = t.headers.length := by
    rw [widths, length_foldl_widen, List.length_map]
  refine ⟨row t.widths t.headers, rule t.widths, t.rows.map (row t.widths), rfl, ?_,
    hheaders.inColumns_row, fun i hi => fieldAt_rule (hlength ▸ hi), ?_, fun hcells => ?_⟩
  · refine List.forall_mem_cons.2 ⟨hheaders.length_row, List.forall_mem_cons.2 ⟨length_rule _, ?_⟩⟩
    intro line hline
    obtain ⟨row, hrow, rfl⟩ := List.mem_map.1 hline
    exact (hrows row hrow).length_row
  · rw [List.forall₂_map_right_iff, List.forall₂_same]
    exact fun row hrow => (hrows row hrow).inColumns_row
  · refine splitOn_join (List.forall_mem_cons.2 ⟨?_, List.forall_mem_cons.2
      ⟨newline_not_mem_rule _, fun line hline => ?_⟩⟩)
    · exact newline_not_mem_row _ fun cell hcell => hcells cell (List.mem_append_left _ hcell)
    · obtain ⟨row, hrow, rfl⟩ := List.mem_map.1 hline
      refine newline_not_mem_row _ fun cell hcell => hcells cell (List.mem_append_right _ ?_)
      exact List.mem_flatten.2 ⟨row, hrow, hcell⟩

/-- Cells of two and three bytes a character: the second column is six wide for two characters. -/
theorem render_aligned_multibyte :
    (∀ row ∈ [["ab", "日本"], ["", "é"]], row.length = ["é", "T"].length) ∧
    lineLength (Table.widths ⟨["é", "T"], [["ab", "日本"], ["", "é"]]⟩) = 11 ∧
    ∃ (header rule : String) (body : List String),
      render ⟨["é", "T"], [["ab", "日本"], ["", "é"]]⟩ =
        String.join ((header :: rule :: body).map (· ++ "\n")) ∧
      ∀ line ∈ header :: rule :: body, line.length = 11 := by
  have hrows : ∀ row ∈ [["ab", "日本"], ["", "é"]], row.length = ["é", "T"].length := by decide
  have hwidth : lineLength (Table.widths ⟨["é", "T"], [["ab", "日本"], ["", "é"]]⟩) = 11 := by decide
  obtain ⟨header, rule, body, hrender, hlength, -⟩ :=
    render_aligned ⟨["é", "T"], [["ab", "日本"], ["", "é"]]⟩ hrows
  exact ⟨hrows, hwidth, header, rule, body, hrender, hwidth ▸ hlength⟩

end GrowthOrder.Table
