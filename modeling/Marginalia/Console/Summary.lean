import Marginalia.Console.Markup
import Marginalia.Watch

/-!
# Summaries on the console

A summary of a report is a table of its resources, a table of its models and a line of totals. It
is described row by row, each row the marked up text of its cells; a line outside of a table is a
row of one cell. What is shown (`shownRows`) has the markup worked out, and a cell with several
lines makes several rows of it.
-/

namespace Marginalia.Console

/-! ## 1. Rows -/

/-- The cells of a line. -/
abbrev Row := List String

/-- A table with its title and the number of its rows. -/
def table (title : String) (header : Row) (rows : List Row) : List Row :=
  [[title], header] ++ rows ++ [["(" ++ natText rows.length ++ " rows)"]]

/-- How many operations APIs have. -/
def operationCount : List Value → Nat
  | [] => 0
  | .note a :: more => (a.get .operations).items.length + operationCount more
  | _ :: more => operationCount more

/-- The row of a resource: its path, and how many APIs and operations it has. -/
def resourceRow (a : Note) : Row :=
  let apis := (a.get .apis).items
  [(a.text? .resourcePath).getD "", natText apis.length, natText (operationCount apis)]

/-- The row of a model: its id, its class, and how many properties it has. -/
def modelRow (a : Note) : Row :=
  [(a.text? .id).getD "", (a.text? .declaringClass).getD "",
    natText (a.get .properties).items.length]

/-- The line of totals. -/
def totals (r : Report) : String :=
  "Scanned " ++ natText r.files.length ++ " file(s): " ++ natText r.definitions.length ++
    " partial(s), " ++ natText r.warnings ++ " warning(s), " ++ natText r.notices ++ " notice(s)"

/-- The summary of a report. -/
def summary (r : Report) : List Row :=
  table "Resources" ["resourcePath", "apis", "operations"] (r.resources.map resourceRow) ++
    table "Models" ["id", "class", "properties"] (r.models.map modelRow) ++ [[totals r]]

/-- The line that names the paths that changed, if there are any. -/
def changedRows (changed : List Path) : List Row :=
  if changed.isEmpty then []
  else [["[green]Changed[/green] " ++ String.intercalate ", " (sortedTexts changed)]]

/-- What is printed about an event. -/
def eventRows : WatchEvent → List Row
  | .reported changed r => changedRows changed ++ summary r
  | _ => []

/-! ## 2. What is shown of them -/

/-- The lines that a row takes, given the lines of its cells. -/
def stack (cells : List (List String)) : List Row :=
  (List.range ((cells.map List.length).foldl max 0)).map fun i =>
    cells.map fun lines => (lines[i]?).getD ""

/-- What is shown of each marked up text. -/
def shownCells : List String → Except MarkupFault (List (List String))
  | [] => .ok []
  | cell :: more => match shownLines cell, shownCells more with
    | .ok lines, .ok rest => .ok (lines :: rest)
    | .error fault, _ => .error fault
    | _, .error fault => .error fault

/-- The lines that rows are shown with. -/
def shownRows : List Row → Except MarkupFault (List Row)
  | [] => .ok []
  | row :: more => match shownCells row, shownRows more with
    | .ok cells, .ok rest => .ok (stack cells ++ rest)
    | .error fault, _ => .error fault
    | _, .error fault => .error fault

end Marginalia.Console
