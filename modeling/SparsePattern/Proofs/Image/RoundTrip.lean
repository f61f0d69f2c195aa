import SparsePattern.Image.Encoding
import SparsePattern.Proofs.Image.Header
import SparsePattern.Proofs.Pattern

/-!
# Images read back

The image of a well-formed pattern that fits is its header and its two arrays without gaps
(`appendTo_eq`), and reading it gives the pattern back, whatever follows.
-/

namespace SparsePattern

open Rows (require require_eq_ok require_bind_eq_ok require_bind_of_not)

/-! ### Sections -/

namespace Sections

/-- Once its header is accepted, an image that is long enough is split where the header says. -/
theorem ofBytes_eq {bytes : Bytes} {h : Header} (hread : Header.ofBytes bytes = .ok h)
    (hlen : h.columnsStart.toNat + Header.columnWidth * h.entryCount.toNat ≤ bytes.length) :
    ofBytes bytes = .ok {
      header := h
      offsets := (bytes.drop h.offsetsStart.toNat).take (Header.offsetWidth * (h.nRows.toNat + 1))
      columns := (bytes.drop h.columnsStart.toNat).take
        (Header.columnWidth * h.entryCount.toNat) } := by
  obtain ⟨-, -, -, -, hv⟩ := Header.ofBytes_eq_ok_iff.1 hread
  rw [ofBytes, hread, Rows.ok_bind, hv.imageSize_eq, hv.offsetsSize_eq, hv.columnsSize_eq]
  exact require_bind_eq_ok.2 ⟨hlen, rfl⟩

/-- Whole elements are counted, up to the largest array that can be addressed. -/
theorem elementCount_mul {width count : Nat} (hw : 0 < width) :
    elementCount width (width * count) =
      if count ≤ (sizeLimit - 1) / 8 then .ok count else .error (.malformed .arrayTooLarge) := by
  rw [elementCount, Nat.mul_mod_right, Nat.mul_div_cancel_left count hw]
  have huneven : require (0 = 0) (.malformed .unevenArray) = .ok () := require_eq_ok.2 rfl
  rw [huneven, Rows.ok_bind]
  by_cases hcount : count ≤ (sizeLimit - 1) / 8
  · rw [if_pos hcount]
    exact require_bind_eq_ok.2 ⟨hcount, rfl⟩
  · rw [if_neg hcount]
    exact require_bind_of_not hcount

end Sections

namespace Pattern

variable {p : Pattern}

/-! ### The bytes of an image -/

/-- The bytes of the pattern's image, counted without overflow. -/
def byteCount (p : Pattern) : Nat :=
  Header.size + Header.offsetWidth * (p.nRows + 1) + Header.columnWidth * p.columns.size

/-- A vector in memory holds fewer bytes than this. -/
def vectorLimit : Nat := 0x8000000000000000

private theorem resize_of_length_eq {out : Bytes} {n : Nat} (h : out.length = n) :
    resize out n = out := by
  subst h
  simp [resize]

private theorem length_offsetsBytes (hp : p.WellFormed) :
    p.offsetsBytes.length = Header.offsetWidth * (p.nRows + 1) := by
  rw [offsetsBytes, LittleEndian.length_encodeArray, Array.length_toList, hp.layout.size_rowStart]

private theorem length_columnsBytes (p : Pattern) :
    p.columnsBytes.length = Header.columnWidth * p.columns.size := by
  rw [columnsBytes, LittleEndian.length_encodeArray, List.length_map, Array.length_toList]

theorem columnsStart_header (hsize : p.byteCount < sizeLimit) :
    p.header.columnsStart.toNat = Header.size + Header.offsetWidth * (p.nRows + 1) :=
  Header.columnsStart_describe (Nat.lt_of_le_of_lt (Nat.le_add_right _ _) hsize)

theorem nRows_header (hsize : p.byteCount < sizeLimit) : p.header.nRows.toNat = p.nRows := by
  refine toNat_toUInt64 ?_
  simp only [byteCount, Header.offsetWidth] at hsize
  omega

theorem entryCount_header (hsize : p.byteCount < sizeLimit) :
    p.header.entryCount.toNat = p.columns.size := by
  refine toNat_toUInt64 ?_
  simp only [byteCount, Header.columnWidth] at hsize
  omega

theorem nCols_header (hp : p.WellFormed) : p.header.nCols.toNat = p.nCols :=
  toNat_toUInt64 (Nat.lt_trans hp.layout.nCols_lt (by decide))

theorem longestRow_header (hp : p.WellFormed) : p.header.longestRow.toNat = p.longestRow :=
  toNat_toUInt64
    (Nat.lt_trans (Nat.lt_of_le_of_lt hp.longestRow_le_nCols hp.layout.nCols_lt) (by decide))

theorem diagonalFirst_header (p : Pattern) : p.header.diagonalFirst = p.diagonalFirst :=
  Header.diagonalFirst_describe

theorem imageSize_eq (hsize : p.byteCount < sizeLimit) : p.imageSize = p.byteCount := by
  rw [imageSize, columnsStart_header hsize, byteCount]

/-- The header of a well-formed pattern is valid if its image can be addressed. -/
theorem valid_header (hp : p.WellFormed) (hsize : p.byteCount < sizeLimit) : p.header.Valid :=
  Header.valid_describe hp.layout.nCols_lt hp.layout.square hp.longestRow_le_nCols
    hp.longestRow_le_size hsize

/-- Every array comes to its place by itself, so that nothing is filled up or dropped. -/
theorem appendTo_eq (hp : p.WellFormed) (hsize : p.byteCount < sizeLimit) (out : Bytes) :
    appendTo out p = out ++ (p.header.toBytes ++ (p.offsetsBytes ++ p.columnsBytes)) := by
  have hheader : (out ++ p.header.toBytes).length = out.length + p.header.offsetsStart.toNat := by
    rw [List.length_append, Header.length_toBytes, header, Header.offsetsStart_describe]
  have hoffsets : (out ++ p.header.toBytes ++ p.offsetsBytes).length =
      out.length + p.header.columnsStart.toNat := by
    rw [List.length_append, hheader, length_offsetsBytes hp, columnsStart_header hsize, header,
      Header.offsetsStart_describe, Nat.add_assoc]
  simp only [appendTo]
  rw [resize_of_length_eq hheader, resize_of_length_eq hoffsets, List.append_assoc,
    List.append_assoc]

/-- The image of a pattern is its header, its offsets and its columns, with nothing between them. -/
theorem toBytes_eq (hp : p.WellFormed) (hsize : p.byteCount < sizeLimit) :
    p.toBytes = p.header.toBytes ++ (p.offsetsBytes ++ p.columnsBytes) := by
  rw [toBytes, appendTo_eq hp hsize, List.nil_append]

theorem length_toBytes (hp : p.WellFormed) (hsize : p.byteCount < sizeLimit) :
    p.toBytes.length = p.byteCount := by
  rw [toBytes_eq hp hsize, List.length_append, List.length_append, Header.length_toBytes,
    length_offsetsBytes hp, length_columnsBytes, byteCount, Nat.add_assoc]

/-! ### Reading -/

/-- The offsets are read back from the front of their bytes. -/
theorem decode_offsetsBytes (hp : p.WellFormed) (hsize : p.byteCount < sizeLimit) (rest : Bytes) :
    LittleEndian.decodeArray Header.offsetWidth (p.nRows + 1) (p.offsetsBytes ++ rest) =
      p.rowStart.toList := by
  have hcount : p.nRows + 1 = p.rowStart.toList.length := by
    rw [Array.length_toList, hp.layout.size_rowStart]
  rw [hcount]
  refine LittleEndian.decodeArray_encodeArray (fun n hn => ?_) rest
  have hle := hp.layout.le_size_of_mem_rowStart hn
  simp only [byteCount, Header.columnWidth, sizeLimit] at hsize
  have hlimit : LittleEndian.limit Header.offsetWidth = sizeLimit := by decide
  rw [hlimit, sizeLimit]
  omega

/-- The columns are read back from the front of their bytes. -/
theorem decode_columnsBytes (p : Pattern) (rest : Bytes) :
    (LittleEndian.decodeArray Header.columnWidth p.columns.size (p.columnsBytes ++ rest)).map
        Nat.toUInt32 =
      p.columns.toList := by
  have hcount : p.columns.size = (p.columns.toList.map UInt32.toNat).length := by simp
  have hwidth : ∀ n ∈ p.columns.toList.map UInt32.toNat,
      n < LittleEndian.limit Header.columnWidth := by
    intro n hn
    obtain ⟨c, -, rfl⟩ := List.mem_map.1 hn
    exact c.toNat_lt
  rw [hcount, columnsBytes, LittleEndian.decodeArray_encodeArray hwidth, List.map_map]
  exact List.map_id'' (fun c => UInt32.ofNat_toNat) _

theorem ofBytes_header_toBytes (hp : p.WellFormed) (hsize : p.byteCount < sizeLimit)
    (rest : Bytes) : Header.ofBytes (p.header.toBytes ++ rest) = .ok p.header :=
  Header.ofBytes_toBytes (valid_header hp hsize) rfl
    (by decide : Header.newestVersion ≤ Header.newestVersion) rest

theorem header_toBytes (hp : p.WellFormed) (hsize : p.byteCount < sizeLimit) :
    Header.ofBytes p.toBytes = .ok p.header := by
  rw [toBytes_eq hp hsize]
  exact ofBytes_header_toBytes hp hsize _

/-- The image of a pattern is split into the bytes of its arrays, whatever follows it. -/
theorem sections_toBytes (hp : p.WellFormed) (hsize : p.byteCount < sizeLimit) (post : Bytes) :
    Sections.ofBytes (p.toBytes ++ post) =
      .ok { header := p.header, offsets := p.offsetsBytes, columns := p.columnsBytes } := by
  have hrows := nRows_header hsize
  have hentries := entryCount_header hsize
  have hstart : p.header.offsetsStart.toNat = Header.size := Header.offsetsStart_describe
  have hoffsets := length_offsetsBytes hp
  have hcolumns := length_columnsBytes p
  have hbytes : p.toBytes ++ post =
      p.header.toBytes ++ (p.offsetsBytes ++ (p.columnsBytes ++ post)) := by
    rw [toBytes_eq hp hsize, List.append_assoc, List.append_assoc]
  have hread : Header.ofBytes (p.toBytes ++ post) = .ok p.header := by
    rw [hbytes]
    exact ofBytes_header_toBytes hp hsize _
  have hlen : p.header.columnsStart.toNat + Header.columnWidth * p.header.entryCount.toNat ≤
      (p.toBytes ++ post).length := by
    rw [columnsStart_header hsize, hentries, List.length_append, length_toBytes hp hsize, byteCount]
    exact Nat.le_add_right _ _
  -- each array lies behind all that comes before it
  have hfirst :
      ((p.toBytes ++ post).drop Header.size).take (Header.offsetWidth * (p.nRows + 1)) =
        p.offsetsBytes := by
    rw [hbytes, List.drop_left' (Header.length_toBytes _), List.take_left' hoffsets]
  have hsecond : ((p.toBytes ++ post).drop (Header.size + Header.offsetWidth * (p.nRows + 1))).take
      (Header.columnWidth * p.columns.size) = p.columnsBytes := by
    have hfront : (p.header.toBytes ++ p.offsetsBytes).length =
        Header.size + Header.offsetWidth * (p.nRows + 1) := by
      rw [List.length_append, Header.length_toBytes, hoffsets]
    rw [hbytes, ← List.append_assoc, List.drop_left' hfront, List.take_left' hcolumns]
  rw [Sections.ofBytes_eq hread hlen, columnsStart_header hsize, hstart, hrows, hentries, hfirst,
    hsecond]

private theorem decodeOffsets_toBytes (hp : p.WellFormed) (hsize : p.byteCount < sizeLimit)
    (h : Header) (columns : Bytes) :
    Sections.decodeOffsets { header := h, offsets := p.offsetsBytes, columns } =
      .ok p.rowStart := by
  have hcount : p.nRows + 1 ≤ (sizeLimit - 1) / 8 := by
    simp only [byteCount, Header.size, Header.offsetWidth, sizeLimit] at hsize ⊢
    omega
  have hdecode := decode_offsetsBytes hp hsize []
  rw [List.append_nil] at hdecode
  rw [Sections.decodeOffsets, length_offsetsBytes hp, Sections.elementCount_mul (by decide),
    if_pos hcount, Rows.ok_bind, hdecode, Array.toArray_toList]
  rfl

private theorem decodeColumns_toBytes (p : Pattern) (h : Header) (offsets : Bytes) :
    Sections.decodeColumns { header := h, offsets, columns := p.columnsBytes } =
      if Header.columnWidth * p.columns.size < vectorLimit then .ok p.columns
      else .error (.malformed .arrayTooLarge) := by
  have hdecode := decode_columnsBytes p []
  rw [List.append_nil] at hdecode
  have hcount : p.columns.size ≤ (sizeLimit - 1) / 8 ↔
      Header.columnWidth * p.columns.size < vectorLimit := by
    simp only [sizeLimit, Header.columnWidth, vectorLimit]
    omega
  rw [Sections.decodeColumns, length_columnsBytes, Sections.elementCount_mul (by decide)]
  by_cases hv : Header.columnWidth * p.columns.size < vectorLimit
  · rw [if_pos (hcount.2 hv), if_pos hv, Rows.ok_bind, hdecode, Array.toArray_toList]
    rfl
  · rw [if_neg (mt hcount.1 hv), if_neg hv]
    rfl

/-- The image of a pattern, wherever it is appended and whatever follows it, has the length that the
pattern and its header state and is read as the pattern again.  Columns that a vector in memory
cannot hold are refused. -/
theorem image_roundTrip (hp : p.WellFormed) (hsize : p.byteCount < sizeLimit) (pre post : Bytes) :
    appendTo pre p = pre ++ p.toBytes ∧ p.toBytes.length = p.imageSize ∧ p.imageSize = p.byteCount ∧
      p.header.imageSize = .ok p.imageSize ∧
      ofBytes (p.toBytes ++ post) =
        if Header.columnWidth * p.columns.size < vectorLimit then .ok p
        else .error (.malformed .arrayTooLarge) := by
  refine ⟨?_, ?_, imageSize_eq hsize, ?_, ?_⟩
  · rw [toBytes, appendTo_eq hp hsize, appendTo_eq hp hsize, List.nil_append]
  · rw [length_toBytes hp hsize, imageSize_eq hsize]
  · rw [(valid_header hp hsize).imageSize_eq, entryCount_header hsize, imageSize]
  · rw [ofBytes, sections_toBytes hp hsize, Rows.ok_bind, decodeOffsets_toBytes hp hsize,
      Rows.ok_bind, decodeColumns_toBytes]
    split
    · rw [Rows.ok_bind, nRows_header hsize, nCols_header hp, longestRow_header hp,
        diagonalFirst_header, ofLayout_eq_ok_iff.2 ⟨hp, rfl⟩, Rows.ok_bind]
      exact require_bind_eq_ok.2 ⟨rfl, rfl⟩
    · rfl

/-- Three rows that start with their diagonal, the second out of ascending order. -/
def leading : Pattern := ⟨⟨3, 3, #[0, 2, 4, 5], #[0, 2, 1, 0, 2], true⟩, 2⟩

theorem image_roundTrip_leading :
    leading.WellFormed ∧ leading.byteCount < sizeLimit ∧
      appendTo [7] leading = 7 :: leading.toBytes ∧
      ofBytes (leading.toBytes ++ [1, 2, 3]) = .ok leading := by
  have hp : leading.WellFormed := by decide
  have hsize : leading.byteCount < sizeLimit := by decide
  obtain ⟨happend, -, -, -, hread⟩ := image_roundTrip hp hsize [7] [1, 2, 3]
  have hfits : Header.columnWidth * leading.columns.size < vectorLimit := by decide
  rw [if_pos hfits] at hread
  exact ⟨hp, hsize, happend, hread⟩

end Pattern

end SparsePattern
