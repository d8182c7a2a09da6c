import Mathlib.Data.List.GetD
import StudyLinux.Store.Slots

/-!
# The `flat-table` directive

`ListTableBuilder` of rstFlatTable.py. A two-level list becomes a table: the roles
`cspan` and `rspan` are taken out of the cells, empty slots make room for the columns and
rows that cells span, and short rows are rounded off on the right.
-/

namespace StudyLinux.FlatTable

variable {κ : Type}

/-! ## The parsed list -/

/-- What stands in a block: a role or anything else. -/
inductive Inline (κ : Type) where
  | colSpan (span : Int)
  | rowSpan (span : Int)
  | other (node : κ)
deriving DecidableEq

def Inline.isSpan : Inline κ → Bool
  | .other _ => false
  | _ => true

structure Block (κ : Type) where
  shell : κ
  children : List (Inline κ)
deriving DecidableEq

/-- The children of an item of the first level. -/
inductive RowChild (κ : Type) where
  | comment
  | systemMessage
  | target (node : Block κ)
  | bulletList (cells : List (List (Block κ)))
  | other

inductive BodyNode (κ : Type) where
  | bulletList (rows : List (List (RowChild κ)))
  | other

structure Cell (κ : Type) where
  cspan : Int
  rspan : Int
  elements : List (Block κ)
deriving DecidableEq

/-- A row of a table, with a slot for each column. -/
abbrev Row (κ : Type) := List (Option (Cell κ))

inductive Failure where
  | message (text : String)
  | indexError
deriving DecidableEq

/-- The directive with its options. The widths are a matter of docutils. -/
structure Directive where
  name : String
  headerRows : Nat
  stubColumns : Nat
  fillCells : Bool
  getColumnWidths : Nat → Except Failure (List Nat)

/-! ## Reading cells -/

/-- What the loop of `parseCellItem` has of the first block. -/
structure Found (κ : Type) where
  children : List (Inline κ)
  cspan : Int
  rspan : Int
deriving DecidableEq

/-- One round of that loop. Taking a role out moves what follows to its index, and the
next round is about the next index. -/
def removeSpan (found : Found κ) (i : Nat) : Found κ :=
  match found.children[i]? with
  | some (.colSpan span) => { found with children := found.children.eraseIdx i, cspan := span }
  | some (.rowSpan span) => { found with children := found.children.eraseIdx i, rspan := span }
  | _ => found

def removeSpans (children : List (Inline κ)) : Found κ :=
  (List.range children.length).foldl removeSpan ⟨children, 0, 0⟩

def parseCellItem : List (Block κ) → Cell κ
  | [] => ⟨0, 0, []⟩
  | first :: rest =>
      let found := removeSpans first.children
      ⟨found.cspan, found.rspan, { first with children := found.children } :: rest⟩

/-- What the loop of `parseRowItem` has seen. -/
structure RowSeen (κ : Type) where
  childNo : Nat
  cell : List (List (Block κ))
  target : Option (Block κ)

def RowSeen.read (seen : RowSeen κ) : List (RowChild κ) → Option (RowSeen κ)
  | [] => some seen
  | .comment :: rest => seen.read rest
  | .systemMessage :: rest => seen.read rest
  | .target node :: rest => { seen with target := some node }.read rest
  | .bulletList cells :: rest =>
      { seen with childNo := seen.childNo + 1, cell := cells }.read rest
  | .other :: _ => none

def rowMessage (directive : Directive) (rowNum : Nat) : String :=
  "Error parsing content block for the \"" ++ directive.name ++
    "\" directive: two-level bullet list expected, but row " ++ toString (rowNum + 1) ++
      " does not contain a second-level bullet list."

def listMessage (directive : Directive) : String :=
  "Error parsing content block for the \"" ++ directive.name ++
    "\" directive: exactly one bullet list expected."

def parseRowItem (directive : Directive) (rowItem : List (RowChild κ)) (rowNum : Nat) :
    Except Failure (List (Cell κ)) :=
  match RowSeen.read ⟨0, [], none⟩ rowItem with
  | none => .error (.message (rowMessage directive rowNum))
  | some seen =>
      if seen.childNo ≠ 1 then
        .error (.message (rowMessage directive rowNum))
      else
        .ok (seen.cell.map fun cellItem =>
          let cell := parseCellItem cellItem
          { cell with elements := seen.target.toList ++ cell.elements })

/-! ## Rounding the table off -/

/-- The columns that a cell spans to its right, and its columns in the rows that it
spans, each by one empty slot. A row that is not there is passed over. -/
def spanCell (rows : List (Row κ)) (y x : Nat) (cell : Cell κ) : List (Row κ) :=
  let own := (List.range cell.cspan.toNat).foldl
    (fun rows c => rows.modify y fun row => insertSlot row (x + c + 1) none) rows
  (List.range cell.rspan.toNat).foldl
    (fun rows r => (List.range (cell.cspan + 1).toNat).foldl
      (fun rows c => rows.modify (y + r + 1) fun row => insertSlot row (x + c) none) rows) own

/-- The loop over the slots of row `y`. -/
def spanRow (y : Nat) : Nat → Nat → List (Row κ) → Option (List (Row κ))
  | 0, _, _ => none
  | fuel + 1, x, rows =>
      match (rows.getD y [])[x]? with
      | none => some rows
      | some none => spanRow y fuel (x + 1) rows
      | some (some cell) => spanRow y fuel (x + 1) (spanCell rows y x cell)

/-- The slots that come to be in a row while its loop runs. -/
def room (row : Row κ) : Nat :=
  (row.map fun slot => slot.elim 1 fun cell => 1 + cell.cspan.toNat).sum

/-- The first half of `roundOffTableDefinition`. -/
def spanRows (rows : List (Row κ)) : Option (List (Row κ)) :=
  (List.range rows.length).foldlM
    (fun rows y => spanRow y (room (rows.getD y []) + 1) 0 rows) rows

def maxCols (rows : List (Row κ)) : Nat := rows.foldl (fun cols row => max cols row.length) 0

/-- The missing cells on the right of a row. The empty cells have a comment node for
their elements, and no elements of that. -/
def fillRow (fillCells : Bool) (cols : Nat) (row : Row κ) : Option (Row κ) :=
  let x := cols - row.length
  if x = 0 then
    some row
  else if fillCells then
    some (row ++ List.replicate x (some ⟨0, 0, []⟩))
  else
    match row.getLast? with
    | none => none
    | some none => some (row ++ [some ⟨x - 1, 0, []⟩])
    | some (some cell) => some (row.dropLast ++ [some { cell with cspan := cell.cspan + x }])

/-- The second half. -/
def fillRows (fillCells : Bool) (rows : List (Row κ)) : Option (List (Row κ)) :=
  rows.mapM (fillRow fillCells (maxCols rows))

/-! ## The nodes -/

structure Entry (κ : Type) where
  morerows : Option Int
  morecols : Option Int
  elements : List (Block κ)
deriving DecidableEq

structure Colspec where
  colwidth : Nat
  stub : Bool
deriving DecidableEq

/-- A table node. Without header rows it has no head. -/
structure Table (κ : Type) where
  colspecs : List Colspec
  thead : Option (List (List (Entry κ)))
  tbody : List (List (Entry κ))
deriving DecidableEq

def Cell.entry (cell : Cell κ) : Entry κ where
  morerows := if cell.rspan = 0 then none else some cell.rspan
  morecols := if cell.cspan = 0 then none else some cell.cspan
  elements := cell.elements

def buildTableRowNode (row : Row κ) : List (Entry κ) := row.reduceOption.map Cell.entry

def buildTableNode (directive : Directive) (maxCols : Nat) (rows : List (Row κ)) :
    Except Failure (Table κ) := do
  let colwidths ← directive.getColumnWidths maxCols
  return {
    colspecs := colwidths.mapIdx fun i colwidth => ⟨colwidth, decide (i < directive.stubColumns)⟩
    thead :=
      if directive.headerRows = 0 then none
      else some ((rows.take directive.headerRows).map buildTableRowNode)
    tbody := (rows.drop directive.headerRows).map buildTableRowNode }

/-- The rows of a table, the head first. -/
def Table.rows (table : Table κ) : List (List (Entry κ)) := table.thead.getD [] ++ table.tbody

def roundOffTableDefinition (fillCells : Bool) (rows : List (Row κ)) :
    Except Failure (Nat × List (Row κ)) :=
  match spanRows rows with
  | none => .error .indexError
  | some spanned =>
      match fillRows fillCells spanned with
      | none => .error .indexError
      | some filled => .ok (maxCols spanned, filled)

def parseFlatTableNode (directive : Directive) :
    List (BodyNode κ) → Except Failure (List (List (Cell κ)))
  | [.bulletList rows] =>
      rows.zipIdx.mapM fun (rowItem, rowNum) => parseRowItem directive rowItem rowNum
  | _ => .error (.message (listMessage directive))

/-- `run` on the nodes that docutils has made of the content. -/
def run (directive : Directive) (body : List (BodyNode κ)) : Except Failure (Table κ) := do
  let parsed ← parseFlatTableNode directive body
  let (cols, rows) ← roundOffTableDefinition directive.fillCells (parsed.map (·.map some))
  buildTableNode directive cols rows

end StudyLinux.FlatTable
