import SparsePattern.Proofs.Image.RoundTrip

/-!
# Accepted sections

An image is split where its header says (`Sections.Of`), and splitting depends on no byte behind the
image (`Sections.ofBytes_take`).  What is then checked and decoded depends on the sections alone
(`Pattern.ofBytes_eq`).
-/

namespace SparsePattern

open Rows (require bind_eq_ok require_eq_ok require_bind_eq_ok require_bind_of_not)

/-! ### The front of an image -/

namespace Header

variable {h : Header} {bytes : Bytes} {n : Nat}

/-- The bytes of the image that the header states, counted without overflow. -/
def byteCount (h : Header) : Nat := h.columnsStart.toNat + columnWidth * h.entryCount.toNat

private theorem field_take {start width : Nat} (hn : start + width ≤ n) :
    field (bytes.take n) start width = field bytes start width := by
  rw [field, field, List.drop_take, List.take_take, Nat.min_eq_left (by omega)]

private theorem read_take (hn : size ≤ n) : read (bytes.take n) = read bytes := by
  unfold size at hn
  simp (disch := omega) only [read, field_take]

theorem ofBytes_take (hn : size ≤ n) : ofBytes (bytes.take n) = ofBytes bytes := by
  have hlen : size ≤ (bytes.take n).length ↔ size ≤ bytes.length := by rw [List.length_take]; omega
  simp only [ofBytes, read_take hn, hlen]

namespace Valid

/-- The offsets of a valid header end within the image. -/
theorem offsets_le_byteCount (hv : h.Valid) :
    h.offsetsStart.toNat + offsetWidth * (h.nRows.toNat + 1) ≤ h.byteCount :=
  Nat.le_trans hv.offsets_le_columns (Nat.le_add_right _ _)

/-- An image has more than a header: the first offset at least. -/
theorem size_lt_byteCount (hv : h.Valid) : size < h.byteCount := by
  have := hv.offsets_le_byteCount
  have := hv.size_le_offsets
  unfold offsetWidth at *
  omega

end Valid

theorem valid_of_ofBytes (hread : ofBytes bytes = .ok h) : h.Valid :=
  (ofBytes_eq_ok_iff.1 hread).2.2.2.2

theorem imageSize_of_ofBytes (hread : ofBytes bytes = .ok h) : h.imageSize = .ok h.byteCount :=
  (valid_of_ofBytes hread).imageSize_eq

end Header

/-! ### Sections of an image -/

namespace Sections

variable {s : Sections} {bytes : Bytes} {h : Header} {n : Nat}

/-- The sections lie in the bytes where an accepted header says. -/
structure Of (s : Sections) (bytes : Bytes) : Prop where
  header : Header.ofBytes bytes = .ok s.header
  byteCount_le : s.header.byteCount ≤ bytes.length
  offsets_eq : s.offsets =
    (bytes.drop s.header.offsetsStart.toNat).take (Header.offsetWidth * (s.header.nRows.toNat + 1))
  columns_eq : s.columns =
    (bytes.drop s.header.columnsStart.toNat).take (Header.columnWidth * s.header.entryCount.toNat)

theorem ofBytes_of_header_error {fault : Fault} (hread : Header.ofBytes bytes = .error fault) :
    ofBytes bytes = .error fault := by
  rw [ofBytes, hread, Rows.error_bind]

/-- An image that is cut short is refused as truncated, once its header is accepted. -/
theorem ofBytes_of_lt (hread : Header.ofBytes bytes = .ok h) (hlen : bytes.length < h.byteCount) :
    ofBytes bytes = .error (.malformed .truncatedImage) := by
  rw [ofBytes, hread, Rows.ok_bind, Header.imageSize_of_ofBytes hread, Rows.ok_bind]
  exact require_bind_of_not (Nat.not_le.2 hlen)

theorem ofBytes_eq_ok_iff : ofBytes bytes = .ok s ↔ s.Of bytes := by
  constructor
  · intro hs
    obtain ⟨h, hread, -⟩ := bind_eq_ok.1 hs
    rcases Nat.lt_or_ge bytes.length h.byteCount with hlen | hlen
    · rw [ofBytes_of_lt hread hlen] at hs
      cases hs
    · rw [ofBytes_eq hread hlen] at hs
      obtain rfl := Except.ok.inj hs
      exact ⟨hread, hlen, rfl, rfl⟩
  · intro hs
    rw [ofBytes_eq hs.header hs.byteCount_le, ← hs.offsets_eq, ← hs.columns_eq]

/-- Splitting looks at no byte behind the image. -/
theorem ofBytes_take (hread : Header.ofBytes bytes = .ok h) (hn : h.byteCount ≤ n) :
    ofBytes (bytes.take n) = ofBytes bytes := by
  have hv := Header.valid_of_ofBytes hread
  have hsize := hv.size_lt_byteCount
  have hread' : Header.ofBytes (bytes.take n) = .ok h := by
    rw [Header.ofBytes_take (by omega), hread]
  rcases Nat.lt_or_ge bytes.length h.byteCount with hlen | hlen
  · rw [ofBytes_of_lt hread hlen, ofBytes_of_lt hread' (by rw [List.length_take]; omega)]
  · have hlen' : h.byteCount ≤ (bytes.take n).length := by rw [List.length_take]; omega
    have hoffsets := hv.offsets_le_byteCount
    have hcolumns : h.columnsStart.toNat + Header.columnWidth * h.entryCount.toNat = h.byteCount :=
      rfl
    -- both sections end within the first `n` bytes
    rw [ofBytes_eq hread hlen, ofBytes_eq hread' hlen', List.drop_take, List.drop_take,
      List.take_take, List.take_take, Nat.min_eq_left (by omega), Nat.min_eq_left (by omega)]

namespace Of

theorem valid (hs : s.Of bytes) : s.header.Valid := Header.valid_of_ofBytes hs.header

/-- The stretch of the offsets has one more than there are rows. -/
theorem length_offsets (hs : s.Of bytes) :
    s.offsets.length = Header.offsetWidth * (s.header.nRows.toNat + 1) := by
  have := hs.valid.offsets_le_byteCount
  have := hs.byteCount_le
  rw [hs.offsets_eq, List.length_take, List.length_drop]
  omega

/-- The stretch of the columns has as many as there are entries. -/
theorem length_columns (hs : s.Of bytes) :
    s.columns.length = Header.columnWidth * s.header.entryCount.toNat := by
  have hle := hs.byteCount_le
  unfold Header.byteCount at hle
  rw [hs.columns_eq, List.length_take, List.length_drop]
  omega

end Of

/-! ### What the sections hold -/

/-- The layout that the sections state. -/
def layout (s : Sections) : Layout where
  nRows := s.header.nRows.toNat
  nCols := s.header.nCols.toNat
  rowStart := (LittleEndian.decodeArray Header.offsetWidth (s.header.nRows.toNat + 1)
    s.offsets).toArray
  columns :=
    ((LittleEndian.decodeArray Header.columnWidth s.header.entryCount.toNat s.columns).map
      Nat.toUInt32).toArray
  diagonalFirst := s.header.diagonalFirst

/-- Checks what the sections hold: a pattern with the longest row that the header states. -/
def check (s : Sections) : Except Fault Unit := do
  s.layout.check
  require (s.layout.longest = s.header.longestRow.toNat) (.malformed .longestRowMismatch)

/-- The sections pass their check if their layout does and the header states its longest row. -/
theorem check_eq_ok_iff :
    s.check = .ok () ↔ s.layout.WellFormed ∧ s.layout.longest = s.header.longestRow.toNat := by
  rw [check, bind_eq_ok]
  constructor
  · rintro ⟨_, hl, hlongest⟩
    exact ⟨Layout.check_eq_ok_iff.1 hl, require_eq_ok.1 hlongest⟩
  · rintro ⟨hl, hlongest⟩
    exact ⟨(), Layout.check_eq_ok_iff.2 hl, require_eq_ok.2 hlongest⟩

private theorem decodeOffsets_eq (hs : s.Of bytes) : s.decodeOffsets = .ok s.layout.rowStart := by
  have hcount : s.header.nRows.toNat + 1 ≤ (sizeLimit - 1) / 8 := by
    have hle := hs.valid.offsets_le_columns
    have hlt : s.header.columnsStart.toNat < sizeLimit := s.header.columnsStart.toNat_lt
    simp only [Header.offsetWidth, sizeLimit] at hle hlt ⊢
    omega
  rw [decodeOffsets, hs.length_offsets, elementCount_mul (by decide), if_pos hcount]
  rfl

/-- There are no more columns than a vector in memory can hold. -/
def Fits (s : Sections) : Prop :=
  Header.columnWidth * s.header.entryCount.toNat < Pattern.vectorLimit

/-- The columns of an image in memory fit a vector. -/
theorem Of.fits (hs : s.Of bytes) (hlen : bytes.length < Pattern.vectorLimit) : s.Fits := by
  have hle := hs.byteCount_le
  unfold Header.byteCount at hle
  unfold Fits
  omega

private theorem decodeColumns_eq_ok_iff (hs : s.Of bytes) {columns : Array UInt32} :
    s.decodeColumns = .ok columns ↔ s.Fits ∧ s.layout.columns = columns := by
  have hcount : s.header.entryCount.toNat ≤ (sizeLimit - 1) / 8 ↔ s.Fits := by
    simp only [Fits, Header.columnWidth, Pattern.vectorLimit, sizeLimit]
    omega
  rw [decodeColumns, hs.length_columns, elementCount_mul (by decide)]
  by_cases hle : s.header.entryCount.toNat ≤ (sizeLimit - 1) / 8
  · rw [if_pos hle, Rows.ok_bind]
    constructor
    · intro heq
      exact ⟨hcount.1 hle, Except.ok.inj heq⟩
    · intro hfits
      exact congrArg Except.ok hfits.2
  · rw [if_neg hle, Rows.error_bind]
    constructor
    · intro heq
      cases heq
    · intro hfits
      exact absurd (hcount.2 hfits.1) hle

end Sections

/-! ### Patterns of images -/

namespace Pattern

variable {s : Sections} {bytes : Bytes} {p : Pattern} {h : Header}

/-- Bytes that cannot be split hold no pattern, for the same fault. -/
theorem ofBytes_of_split_error {fault : Fault} (hsplit : Sections.ofBytes bytes = .error fault) :
    ofBytes bytes = .error fault := by
  rw [ofBytes, hsplit, Rows.error_bind]

theorem ofBytes_of_header_error {fault : Fault} (hread : Header.ofBytes bytes = .error fault) :
    ofBytes bytes = .error fault :=
  ofBytes_of_split_error (Sections.ofBytes_of_header_error hread)

theorem ofBytes_of_lt (hread : Header.ofBytes bytes = .ok h) (hlen : bytes.length < h.byteCount) :
    ofBytes bytes = .error (.malformed .truncatedImage) :=
  ofBytes_of_split_error (Sections.ofBytes_of_lt hread hlen)

theorem ofBytes_take (hread : Header.ofBytes bytes = .ok h) {n : Nat} (hn : h.byteCount ≤ n) :
    ofBytes (bytes.take n) = ofBytes bytes := by
  rw [ofBytes, ofBytes, Sections.ofBytes_take hread hn]

/-- The pattern that the sections state. -/
def ofSections (s : Sections) : Pattern := { s.layout with longestRow := s.layout.longest }

/-- Once the bytes are split, the check of the arrays decides. -/
theorem ofBytes_eq (hs : s.Of bytes) (hfits : s.Fits) :
    ofBytes bytes = s.check >>= fun _ => .ok (ofSections s) := by
  have hcolumns := (Sections.decodeColumns_eq_ok_iff hs).2 ⟨hfits, rfl⟩
  rw [ofBytes, Sections.ofBytes_eq_ok_iff.2 hs, Rows.ok_bind, Sections.decodeOffsets_eq hs,
    Rows.ok_bind, hcolumns, Rows.ok_bind, Sections.check]
  cases hcheck : s.layout.check with
  | error fault =>
    have hl : ofLayout s.layout = .error fault := by rw [ofLayout, hcheck, Rows.error_bind]
    exact congrArg (· >>= _) hl
  | ok u =>
    have hwf := Layout.check_eq_ok_iff.1 hcheck
    have hl : ofLayout s.layout = .ok (ofSections s) := ofLayout_eq_ok_iff.2 ⟨⟨hwf, rfl⟩, rfl⟩
    exact congrArg (· >>= _) hl

theorem ofBytes_eq_ok_iff :
    ofBytes bytes = .ok p ↔
      ∃ s : Sections, s.Of bytes ∧ s.Fits ∧ s.check = .ok () ∧ ofSections s = p := by
  constructor
  · intro h
    obtain ⟨s, hs, hrest⟩ := bind_eq_ok.1 h
    have hs := Sections.ofBytes_eq_ok_iff.1 hs
    obtain ⟨_, -, hrest⟩ := bind_eq_ok.1 hrest
    obtain ⟨_, hcolumns, -⟩ := bind_eq_ok.1 hrest
    have hfits := ((Sections.decodeColumns_eq_ok_iff hs).1 hcolumns).1
    rw [ofBytes_eq hs hfits] at h
    obtain ⟨_, hcheck, heq⟩ := bind_eq_ok.1 h
    exact ⟨s, hs, hfits, hcheck, Except.ok.inj heq⟩
  · rintro ⟨s, hs, hfits, hcheck, rfl⟩
    rw [ofBytes_eq hs hfits, hcheck, Rows.ok_bind]

/-! ### Images of patterns -/

private theorem layout_toBytes (hp : p.WellFormed) (hsize : p.byteCount < sizeLimit) :
    Sections.layout { header := p.header, offsets := p.offsetsBytes, columns := p.columnsBytes } =
      p.toLayout := by
  have hoffsets := decode_offsetsBytes hp hsize []
  have hcolumns := decode_columnsBytes p []
  rw [List.append_nil] at hoffsets hcolumns
  simp only [Sections.layout, nRows_header hsize, nCols_header hp, entryCount_header hsize,
    diagonalFirst_header, hoffsets, hcolumns, Array.toArray_toList]

/-- A pattern is read back from the front of its image, whatever follows. -/
theorem ofBytes_toBytes (hp : p.WellFormed) (hsize : p.byteCount < sizeLimit)
    (hfits : Header.columnWidth * p.columns.size < vectorLimit) (rest : Bytes) :
    ofBytes (p.toBytes ++ rest) = .ok p := by
  have hlayout := layout_toBytes hp hsize
  refine ofBytes_eq_ok_iff.2
    ⟨_, Sections.ofBytes_eq_ok_iff.1 (sections_toBytes hp hsize rest), ?_, ?_, ?_⟩
  · unfold Sections.Fits
    rwa [entryCount_header hsize]
  · refine Sections.check_eq_ok_iff.2 ?_
    rw [hlayout, longestRow_header hp]
    exact ⟨hp.layout, hp.longestRow_eq.symm⟩
  · rw [ofSections, hlayout, ← hp.longestRow_eq]

/-- An image of `leading` of the older version, with gaps around its offsets, a reserved field that
is used and bytes behind it. -/
def relocated : Bytes :=
  Header.toBytes
    { version := 0, flags := Header.diagonalFlag, nRows := 3, nCols := 3, entryCount := 5,
      longestRow := 2, offsetsStart := 72, columnsStart := 112, reserved := 9 } ++
  List.replicate 8 7 ++ leading.offsetsBytes ++ List.replicate 8 0 ++
    leading.columnsBytes ++ [1, 2, 3]

theorem ofBytes_relocated : ofBytes relocated = .ok leading := by decide +kernel

end Pattern

end SparsePattern
