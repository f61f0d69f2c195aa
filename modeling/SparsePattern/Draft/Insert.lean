import SparsePattern.Draft

/-!
# Recording entries

One entry at a time (`Draft.insert`), several in turn (`Draft.insertPairs`), or the transpose of all
that is recorded (`Draft.symmetrize`).  A sequence that fails keeps what it has recorded, as its
`Progress` shows.
-/

namespace SparsePattern

namespace Draft

/-! ### One entry -/

/-- What the slots of a row say about a column. -/
inductive Probe where
  /-- The column is recorded. -/
  | present
  /-- The column is missing, and this is the first free slot. -/
  | room (slot : Nat)
  /-- The column is missing, and no slot is free. -/
  | full
deriving DecidableEq, Repr

/-- Looks for `col` in the `count` slots from `slot` on, up to the first free one. -/
def probe (slots : Array UInt32) (col : UInt32) : (slot count : Nat) → Probe
  | _, 0 => .full
  | slot, count + 1 =>
    let held := slots.getD slot free
    if held = col then .present
    else if held = free then .room slot
    else probe slots col (slot + 1) count

/-- How far insertions came: the draft as it stands, and what stopped them early. -/
structure Progress where
  draft : Draft
  failure : Option Fault := none
deriving DecidableEq, Repr

/-- The draft of insertions that ran to their end. -/
def Progress.finished (p : Progress) : Except Fault Draft :=
  match p.failure with
  | none => .ok p.draft
  | some fault => .error fault

/-- Goes on from the draft as it stands, unless something stopped the insertions. -/
def Progress.andThen (p : Progress) (next : Draft → Progress) : Progress :=
  match p.failure with
  | none => next p.draft
  | some _ => p

/-- Records the entry at `row` and `col`; one that is recorded already changes nothing. -/
def insert (d : Draft) (row col : Nat) : Progress :=
  if d.nRows ≤ row then { draft := d, failure := some (.rowOutOfRange row d.nRows) }
  else if d.nCols ≤ col then { draft := d, failure := some (.columnOutOfRange col d.nCols) }
  else
    match probe d.slots col.toUInt32 (d.start row) (d.capacity row) with
    | .present => { draft := d }
    | .room slot => { draft := { d with slots := d.slots.setIfInBounds slot col.toUInt32 } }
    | .full => { draft := d, failure := some (.rowFull row (d.capacity row)) }

/-! ### Several entries -/

/-- Records the entries in turn, up to the first that is refused. -/
def insertPairs (d : Draft) : List (Nat × Nat) → Progress
  | [] => { draft := d }
  | (row, col) :: entries => (d.insert row col).andThen fun d => insertPairs d entries

/-- Records several columns of one row in turn. -/
def insertRow (d : Draft) (row : Nat) (cols : List Nat) : Progress :=
  d.insertPairs (cols.map (row, ·))

/-! ### Transposition -/

/-- Records the transpose of what `row` holds in the `count` slots from `slot` on, up to the first
free one.  A slot is read when its turn comes, for the insertions write to the same array. -/
def transposeSlots (d : Draft) (row : Nat) : (slot count : Nat) → Progress
  | _, 0 => { draft := d }
  | slot, count + 1 =>
    let held := d.slots.getD slot free
    if held = free then { draft := d }
    else (d.insert held.toNat row).andThen fun d => transposeSlots d row (slot + 1) count

/-- Records the transpose of what the rows `row, …, row + count - 1` hold, one row after another. -/
def transposeRows (d : Draft) (row : Nat) : (count : Nat) → Progress
  | 0 => { draft := d }
  | count + 1 =>
    (d.transposeSlots row (d.start row) (d.capacity row)).andThen fun d =>
      transposeRows d (row + 1) count

/-- Closes the recorded entries of a square draft under transposition. -/
def symmetrize (d : Draft) : Progress :=
  if d.nRows = d.nCols then d.transposeRows 0 d.nRows
  else { draft := d, failure := some (.notSquare d.nRows d.nCols) }

end Draft

end SparsePattern
