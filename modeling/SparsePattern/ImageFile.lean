import SparsePattern.Image.Encoding
import SparsePattern.Trouble
import SparsePattern.View

/-!
# Image files

A pattern file holds one image and nothing after it.  Opening one checks it as a whole; its view is
then taken from the header that was checked (`ImageFile.view`).
-/

namespace SparsePattern

/-! ### Files by path -/

/-- The files within reach. -/
structure Store where
  files : List (String × Bytes) := []
  /-- Whether files can be created in a directory; the empty name stands for the current one. -/
  hasDirectory : String → Bool := fun _ => true

namespace Store

/-- The content of the file at `path`. -/
def read? (s : Store) (path : String) : Option Bytes := s.files.lookup path

/-- The directory of `path`: all up to its last slash. -/
def directory (path : String) : String :=
  String.ofList ((path.toList.reverse.dropWhile (· ≠ '/')).drop 1).reverse

/-- Replaces or creates the file at `path`. -/
def write (s : Store) (path : String) (content : Bytes) : Except Trouble Store :=
  if s.hasDirectory (directory path) then .ok { s with files := (path, content) :: s.files }
  else .error .noSuchFile

end Store

/-! ### Pattern files -/

/-- A pattern file that has been opened. -/
structure ImageFile where
  path : String
  content : Bytes
  header : Header
deriving DecidableEq, Repr

namespace ImageFile

/-- Writes the image of `p` to the file at `path`. -/
def write (s : Store) (path : String) (p : Pattern) : Except Trouble Store :=
  s.write path p.toBytes

/-- Opens the file at `path`, which must hold one image and nothing after it. -/
def load (s : Store) (path : String) : Except Trouble ImageFile :=
  match s.read? path with
  | none => .error .noSuchFile
  | some content =>
    match View.ofExactBytes content with
    | .ok v => .ok { path, content, header := v.header }
    | .error fault => .error (.fault fault)

/-- The bytes of the file. -/
def size (f : ImageFile) : Nat := f.content.length

/-- The bytes from `start` up to `stop`. -/
def stretch (f : ImageFile) (start stop : Nat) : Bytes :=
  (f.content.drop start).take (stop - start)

/-- The view of the file, its arrays found from the header alone. -/
def view (f : ImageFile) : View :=
  let h := f.header
  let nOffsets := h.nRows.toNat + 1
  let nColumns := h.entryCount.toNat
  let offsets :=
    f.stretch h.offsetsStart.toNat (h.offsetsStart.toNat + Header.offsetWidth * nOffsets)
  let columns :=
    f.stretch h.columnsStart.toNat (h.columnsStart.toNat + Header.columnWidth * nColumns)
  { header := h
    rowStart := (LittleEndian.decodeArray Header.offsetWidth nOffsets offsets).toArray
    columns := ((LittleEndian.decodeArray Header.columnWidth nColumns columns).map
      Nat.toUInt32).toArray }

/-- A pattern of its own with the entries of the file. -/
def toPattern (f : ImageFile) : Except Fault Pattern := f.view.toPattern

end ImageFile

end SparsePattern
