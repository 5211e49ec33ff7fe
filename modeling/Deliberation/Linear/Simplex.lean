import Deliberation.Linear.Form

/-!
The simplex method on a dense table, in two phases: artificial columns make a first basis and are
driven to zero, and then a cost is minimized over the columns that are left. Of the columns that
improve the cost the first enters, and of the lines with the smallest ratio the one with the first
basic column leaves; so exact arithmetic never comes back to a basis.
-/

namespace Deliberation

/-- Below which amounts a number counts as zero: in the choice of a pivot, and as what is left of the
artificial columns. -/
structure SimplexTolerance (R : Type) where
  pivot : R
  feasibility : R

/-- The tolerances of computation with doubles. -/
def SimplexTolerance.standard : SimplexTolerance Float := ⟨1e-9, 1e-7⟩

namespace Simplex

variable {R : Type} [Scalar R]

/-- A line of the table: the basic column is the one whose unknown the line solves. -/
structure Line (R : Type) where
  coefficients : List R
  bound : R
  basic : Nat

/-- The table: its lines, which columns are artificial, and how many pivots led to it. -/
structure Table (R : Type) where
  lines : List (Line R)
  artificial : List Bool
  pivots : Nat

namespace Line

def entry (line : Line R) (column : Nat) : R := line.coefficients.getD column 0

/-- The line divided by a number, with a new basic column. -/
def divide (line : Line R) (divisor : R) (column : Nat) : Line R :=
  ⟨line.coefficients.map (· / divisor), line.bound / divisor, column⟩

/-- The line less the multiple of another that leaves nothing in a column. -/
def clear (line unit : Line R) (column : Nat) : Line R :=
  let factor := line.entry column
  if 0 < Scalar.abs factor then
    { line with
      coefficients := List.zipWith (fun a b => a - factor * b) line.coefficients unit.coefficients
      bound := line.bound - factor * unit.bound }
  else line

end Line

/-- A row whose bound is not negative. -/
def normalize (row : LinearRow R) : LinearRow R :=
  if 0 ≤ row.bound then row
  else ⟨row.coefficients.map (-·), row.relation.flip, -row.bound⟩

/-- The columns that a row adds, with whether they are artificial: what is left below a bound, what goes
beyond it, and an artificial unknown for a row that has no other basic column. -/
def addedColumns : Relation → List (R × Bool)
  | .le => [(1, false)]
  | .ge => [(-1, false), (1, true)]
  | .eq => [(1, true)]

/-- A list with zeros added up to a length. -/
def padTo (length : Nat) (l : List R) : List R := l ++ List.replicate (length - l.length) 0

/-- The lines of rows over `width` columns: `offset` columns were added before, and `total` are in all. -/
def linesOf (width total : Nat) : (offset : Nat) → List (LinearRow R) → List (Line R)
  | _, [] => []
  | offset, row :: rest =>
    let added := (addedColumns (R := R) row.relation).map (·.1)
    let next := offset + added.length
    ⟨padTo width row.coefficients ++ padTo total (List.replicate offset 0 ++ added), row.bound, width + next - 1⟩ ::
      linesOf width total next rest

def tableOf (width : Nat) (rows : List (LinearRow R)) : Table R :=
  let rows := rows.map normalize
  let added := rows.flatMap fun row => (addedColumns (R := R) row.relation).map (·.2)
  ⟨linesOf width added.length 0 rows, List.replicate width false ++ added, 0⟩

namespace Table

def width (table : Table R) : Nat := table.artificial.length

def isArtificial (table : Table R) (column : Nat) : Bool := table.artificial.getD column false

/-- By how much the cost grows with the unknown of a column. -/
def reducedCost (table : Table R) (cost : List R) (column : Nat) : R :=
  cost.getD column 0 -
    Scalar.sum (table.lines.map fun line => cost.getD line.basic 0 * line.entry column)

/-- The cost of the basic solution. -/
def cost (table : Table R) (cost : List R) : R :=
  Scalar.sum (table.lines.map fun line => cost.getD line.basic 0 * line.bound)

/-- Makes a column basic in a line: the line is divided by its entry, and the others are cleared. -/
def pivot (table : Table R) (row column : Nat) : Table R :=
  match table.lines[row]? with
  | none => table
  | some line =>
    let unit := line.divide (line.entry column) column
    { table with
      lines := table.lines.zipIdx.map fun (other, i) => if i = row then unit else other.clear unit column
      pivots := table.pivots + 1 }

/-- The lines that limit how far the unknown of a column may grow, with their ratios. -/
def ratios (table : Table R) (tolerance : R) (column : Nat) : List (Nat × Line R × R) :=
  (table.lines.zipIdx.filter fun (line, _) => tolerance < line.entry column).map fun (line, i) =>
    (i, line, line.bound / line.entry column)

/-- The line whose basic column leaves: of those with the least ratio, the one with the first basic column. -/
def leaving? (table : Table R) (tolerance : R) (column : Nat) : Option Nat := do
  let ratios := table.ratios tolerance column
  let least ← Scalar.leastBy? id (ratios.map (·.2.2))
  let (row, _, _) ←
    (ratios.filter fun (_, _, ratio) => ratio ≤ least + tolerance).minOn? fun (_, line, _) => line.basic
  return row

/-- The column that enters: the first of the allowed ones that improves the cost. -/
def entering? (table : Table R) (tolerance : R) (cost : List R) (allowed : Nat → Bool) : Option Nat :=
  ((List.range table.width).filter allowed).find? fun column => table.reducedCost cost column < -tolerance

/-- The values of the first columns in the basic solution. -/
def solution (table : Table R) (width : Nat) : List R :=
  table.lines.foldl (fun values line => values.set line.basic line.bound) (List.replicate width 0)

end Table

/-- What comes of minimizing a cost. -/
inductive Outcome (R : Type) where
  | optimal (table : Table R)
  | unbounded
  | unending

/-- Pivots until no column improves the cost or one improves it without limit, at most `steps` times. -/
def minimize (tolerance : R) (cost : List R) (allowed : Nat → Bool) : (steps : Nat) → Table R → Outcome R
  | 0, _ => .unending
  | steps + 1, table =>
    match table.entering? tolerance cost allowed with
    | none => .optimal table
    | some column =>
      match table.leaving? tolerance column with
      | none => .unbounded
      | some row => minimize tolerance cost allowed steps (table.pivot row column)

/-- As many steps as there are sets of columns: no basis comes twice. -/
def stepBound (table : Table R) : Nat := Nat.pow 2 table.width + 1

/-- Makes the first real column with an entry basic in a line whose basic column is artificial; a line without
one is redundant. -/
def expel (tolerance : R) (table : Table R) (row : Nat) : Table R :=
  match table.lines[row]? with
  | none => table
  | some line =>
    if table.isArtificial line.basic then
      match (List.range table.width).find? fun column =>
          !table.isArtificial column && decide (tolerance < Scalar.abs (line.entry column)) with
      | some column => table.pivot row column
      | none => table
    else table

/-- The table after its artificial columns were driven to zero, or none if they cannot be. -/
def phaseOne (tolerance : SimplexTolerance R) (table : Table R) : Except Abort (Option (Table R)) :=
  if table.artificial.any id then
    let cost := table.artificial.map fun artificial => if artificial then 1 else 0
    match minimize tolerance.pivot cost (fun _ => true) (stepBound table) table with
    | .unending => .error .endlessPivoting
    | .unbounded => .ok none
    | .optimal reached =>
      if tolerance.feasibility < reached.cost cost then .ok none
      else .ok (some ((List.range reached.lines.length).foldl (expel tolerance.pivot) reached))
  else .ok (some table)

/-- The cheapest basic solution that uses no artificial column, unless the cost has no least value. -/
def phaseTwo (tolerance : SimplexTolerance R) (cost : List R) (table : Table R) :
    Except Abort (Option (Table R)) :=
  match minimize tolerance.pivot cost (fun column => !table.isArtificial column) (stepBound table) table with
  | .unending => .error .endlessPivoting
  | .unbounded => .ok none
  | .optimal reached => .ok (some reached)

end Simplex

end Deliberation
