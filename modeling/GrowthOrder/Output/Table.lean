/-!
Tables of text. A column is as wide as the longest of its cells in bytes, and cells are filled with
blanks by counting characters; as a character has at least one byte, no cell is wider than its
column. Cells to the right of the last header stand as they are.
-/
namespace GrowthOrder

structure Table where
  headers : List String
  rows : List (List String)

namespace Table

/-- The wider of a column's width so far and a cell, for each column that has a cell. -/
def widen : List Nat → List String → List Nat
  | width :: widths, cell :: cells => max width cell.utf8ByteSize :: widen widths cells
  | widths, _ => widths

def widths (t : Table) : List Nat :=
  t.rows.foldl widen (t.headers.map String.utf8ByteSize)

/-- A text filled with blanks to a width. -/
def pad (width : Nat) (text : String) : String :=
  text ++ String.ofList (List.replicate (width - text.length) ' ')

/-- Cells filled to their columns. -/
def padded : List Nat → List String → List String
  | width :: widths, cell :: cells => pad width cell :: padded widths cells
  | _, cells => cells

def row (widths : List Nat) (cells : List String) : String :=
  " │ ".intercalate (padded widths cells)

/-- The line under the headers. -/
def rule (widths : List Nat) : String :=
  "─┼─".intercalate (widths.map fun width => String.ofList (List.replicate width '─'))

def lines (t : Table) : List String :=
  row t.widths t.headers :: rule t.widths :: t.rows.map (row t.widths)

def render (t : Table) : String :=
  String.join (t.lines.map (· ++ "\n"))

end Table

end GrowthOrder
