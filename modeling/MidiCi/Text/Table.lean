import MidiCi.Text.Numeral

/-
  Tables with rounded borders. Cells hold one line each, and every character takes one column. A
  table without rows ends with the line under its header.
-/

namespace MidiCi.Text

/-- Column titles, and rows of as many cells. -/
structure Table where
  header : List String
  rows : List (List String)
deriving DecidableEq, Repr, Inhabited

namespace Table

/-- The wider of each two. -/
def wider : List Nat → List Nat → List Nat
  | a :: as, b :: bs => max a b :: wider as bs
  | [], bs => bs
  | as, [] => as

/-- The width of each column. -/
def widths (t : Table) : List Nat :=
  t.rows.foldl (fun ws row => wider ws (row.map String.length)) (t.header.map String.length)

/-- A horizontal line between its two ends. -/
def rule (left cross right : Char) (widths : List Nat) : List Char :=
  let bars := widths.map fun w => List.replicate (w + 2) '─'
  left :: ([cross].intercalate bars) ++ [right]

/-- A row of cells. -/
def line (widths : List Nat) (cells : List String) : List Char :=
  let padded := cells.zipWith (fun cell w => ' ' :: padRight w ' ' cell.toList ++ [' ']) widths
  '│' :: (['│'].intercalate padded) ++ ['│']

/-- The text of a table, without a line end at the end. -/
def render (t : Table) : String :=
  let ws := t.widths
  let head := [rule '╭' '┬' '╮' ws, line ws t.header, rule '├' '┼' '┤' ws]
  let lines := if t.rows.isEmpty then head
    else head ++ t.rows.map (line ws) ++ [rule '╰' '┴' '╯' ws]
  String.ofList (['\n'].intercalate lines)

end Table

end MidiCi.Text
