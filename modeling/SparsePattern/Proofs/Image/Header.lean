import SparsePattern.Image.Header

/-!
# Headers and their bytes

A header is found again at the front of its bytes (`read_toBytes`), and they in the header
(`toBytes_read`).  What a header must satisfy is `Header.Valid`, in numbers that do not overflow;
its check decides just that (`check_eq_ok_iff`), and the header of a pattern that fits satisfies it
(`valid_describe`).
-/

namespace SparsePattern.Header

open Rows (require_bind_eq_ok bind_eq_ok)

variable {h : Header}

/-! ### Fields -/

theorem length_toBytes (h : Header) : h.toBytes.length = size := by
  simp [toBytes, size]

private theorem field_append {front rest : Bytes} {start width : Nat} (h : front.length ≤ start) :
    field (front ++ rest) start width = field rest (start - front.length) width := by
  rw [field, field, List.drop_append, List.drop_of_length_le h, List.nil_append]

private theorem field_encode {width n : Nat} (h : n < LittleEndian.limit width) (rest : Bytes) :
    field (LittleEndian.encode width n ++ rest) 0 width = n := by
  rw [field, List.drop_zero, List.take_left' (LittleEndian.length_encode width n),
    LittleEndian.decode_encode_of_lt h]

private theorem field_cons_zero (b : UInt8) (rest : Bytes) : field (b :: rest) 0 1 = b.toNat := by
  simp [field, LittleEndian.decode]

private theorem field_cons_succ (b : UInt8) (rest : Bytes) (start width : Nat) :
    field (b :: rest) (start + 1) width = field rest start width := rfl

/-- A header is read back from the front of its bytes. -/
theorem read_toBytes (h : Header) (rest : Bytes) : read (h.toBytes ++ rest) = h := by
  have hmagic (n : UInt32) (rest : Bytes) :
      field (LittleEndian.encode 4 n.toNat ++ rest) 0 4 = n.toNat :=
    field_encode n.toNat_lt rest
  have hword (n : UInt64) (rest : Bytes) :
      field (LittleEndian.encode 8 n.toNat ++ rest) 0 8 = n.toNat :=
    field_encode n.toNat_lt rest
  simp only [read, toBytes, List.append_assoc, List.cons_append, List.nil_append]
  -- every field but the first stands behind the ones before it
  simp (disch := simp only [LittleEndian.length_encode, Nat.reduceLeDiff]) only
    [field_append, LittleEndian.length_encode, Nat.reduceSub, field_cons_succ, field_cons_zero,
      hmagic, hword]
  simp only [Nat.toUInt8_eq, Nat.toUInt32_eq, Nat.toUInt64_eq, UInt8.ofNat_toNat,
    UInt32.ofNat_toNat, UInt64.ofNat_toNat]

section Bytes

variable {bytes : Bytes} {start : Nat}

/-- A field has the bytes that it is read from, and fits them. -/
theorem encode_field {width : Nat} (h : start + width ≤ bytes.length) :
    LittleEndian.encode width (field bytes start width) = (bytes.drop start).take width ∧
      field bytes start width < LittleEndian.limit width := by
  have hlen : ((bytes.drop start).take width).length = width := by
    rw [List.length_take, List.length_drop]
    omega
  have hencode := LittleEndian.encode_decode ((bytes.drop start).take width)
  have hlt := LittleEndian.decode_lt ((bytes.drop start).take width)
  rw [hlen] at hencode hlt
  exact ⟨hencode, hlt⟩

private theorem encode_byteField (h : start + 1 ≤ bytes.length) :
    [(field bytes start 1).toUInt8] = (bytes.drop start).take 1 := (encode_field h).1

theorem encode_magicField (h : start + 4 ≤ bytes.length) :
    LittleEndian.encode 4 (field bytes start 4).toUInt32.toNat = (bytes.drop start).take 4 := by
  obtain ⟨hencode, hlt⟩ := encode_field h
  rw [toNat_toUInt32 hlt, hencode]

private theorem encode_wordField (h : start + 8 ≤ bytes.length) :
    LittleEndian.encode 8 (field bytes start 8).toUInt64.toNat = (bytes.drop start).take 8 := by
  obtain ⟨hencode, hlt⟩ := encode_field h
  rw [toNat_toUInt64 hlt, hencode]

private theorem stretch_append {a b m : Nat} (h : b = a + m) (n : Nat) :
    (bytes.drop a).take m ++ (bytes.drop b).take n = (bytes.drop a).take (m + n) := by
  rw [h, List.take_add, List.drop_drop]

/-- No byte of a header is lost when it is read. -/
theorem toBytes_read (h : size ≤ bytes.length) : (read bytes).toBytes = bytes.take size := by
  unfold size at *
  have hsmall : [(field bytes 4 1).toUInt8, (field bytes 5 1).toUInt8, (field bytes 6 1).toUInt8,
      (field bytes 7 1).toUInt8] = (bytes.drop 4).take 4 :=
    calc
      _ = (bytes.drop 4).take 1 ++ (bytes.drop 5).take 1 ++ (bytes.drop 6).take 1 ++
          (bytes.drop 7).take 1 := by
        simp (disch := omega) only [← encode_byteField]
        rfl
      _ = _ := by simp (disch := omega) only [stretch_append, Nat.reduceAdd]
  -- the fields follow each other without gaps
  simp (disch := omega) only [toBytes, read, hsmall, encode_magicField, encode_wordField,
    stretch_append, Nat.reduceAdd]
  rfl

end Bytes

/-! ### Sizes -/

private theorem offsetsSize_eq_ok {n : Nat} :
    h.offsetsSize = .ok n ↔
      offsetWidth * (h.nRows.toNat + 1) < sizeLimit ∧ n = offsetWidth * (h.nRows.toNat + 1) := by
  simp only [offsetsSize, require_bind_eq_ok]
  constructor
  · rintro ⟨-, hlt, heq⟩
    exact ⟨hlt, (Except.ok.inj heq).symm⟩
  · rintro ⟨hlt, rfl⟩
    have hrows : h.nRows.toNat + 1 < sizeLimit := by simp only [offsetWidth] at hlt; omega
    exact ⟨hrows, hlt, rfl⟩

private theorem columnsSize_eq_ok (hw : h.indexWidth.toNat = columnWidth) {n : Nat} :
    h.columnsSize = .ok n ↔
      columnWidth * h.entryCount.toNat < sizeLimit ∧ n = columnWidth * h.entryCount.toNat := by
  simp only [columnsSize, require_bind_eq_ok, hw, Nat.mul_comm _ columnWidth]
  refine and_congr_right fun _ => ?_
  exact ⟨fun heq => (Except.ok.inj heq).symm, fun heq => heq ▸ rfl⟩

private theorem imageSize_eq_ok (hw : h.indexWidth.toNat = columnWidth) {n : Nat} :
    h.imageSize = .ok n ↔ h.columnsStart.toNat + columnWidth * h.entryCount.toNat < sizeLimit ∧
      n = h.columnsStart.toNat + columnWidth * h.entryCount.toNat := by
  rw [imageSize, bind_eq_ok]
  constructor
  · rintro ⟨_, hcolumns, htotal⟩
    obtain ⟨-, rfl⟩ := (columnsSize_eq_ok hw).1 hcolumns
    obtain ⟨hlt, heq⟩ := require_bind_eq_ok.1 htotal
    exact ⟨hlt, (Except.ok.inj heq).symm⟩
  · rintro ⟨hlt, rfl⟩
    exact ⟨_, (columnsSize_eq_ok hw).2 ⟨by omega, rfl⟩, require_bind_eq_ok.2 ⟨hlt, rfl⟩⟩

/-! ### What a header must satisfy -/

/-- The dimensions fit each other and the arrays follow each other, aligned, within the bytes that
can be numbered. -/
structure Valid (h : Header) : Prop where
  indexWidth_eq : h.indexWidth.toNat = columnWidth
  flags_known : h.flags &&& ~~~(diagonalFlag ||| ascendingFlag) = 0
  nCols_lt : h.nCols.toNat < columnLimit
  square : h.diagonalFirst = true → h.nRows = h.nCols
  longestRow_le_nCols : h.longestRow ≤ h.nCols
  longestRow_le_entryCount : h.longestRow ≤ h.entryCount
  size_le_offsets : size ≤ h.offsetsStart.toNat
  offsets_aligned : h.offsetsStart.toNat % alignment = 0
  offsets_le_columns :
    h.offsetsStart.toNat + offsetWidth * (h.nRows.toNat + 1) ≤ h.columnsStart.toNat
  columns_aligned : h.columnsStart.toNat % alignment = 0
  columns_lt_limit : h.columnsStart.toNat + columnWidth * h.entryCount.toNat < sizeLimit

namespace Valid

/-- The size of the offsets of a valid header is exact, without overflow. -/
theorem offsetsSize_eq (hv : h.Valid) :
    h.offsetsSize = .ok (offsetWidth * (h.nRows.toNat + 1)) := by
  have hstart : h.columnsStart.toNat < sizeLimit := h.columnsStart.toNat_lt
  have := hv.offsets_le_columns
  exact offsetsSize_eq_ok.2 ⟨by omega, rfl⟩

theorem columnsSize_eq (hv : h.Valid) : h.columnsSize = .ok (columnWidth * h.entryCount.toNat) := by
  have := hv.columns_lt_limit
  exact (columnsSize_eq_ok hv.indexWidth_eq).2 ⟨by omega, rfl⟩

/-- The image of a valid header ends where its columns end. -/
theorem imageSize_eq (hv : h.Valid) :
    h.imageSize = .ok (h.columnsStart.toNat + columnWidth * h.entryCount.toNat) :=
  (imageSize_eq_ok hv.indexWidth_eq).2 ⟨hv.columns_lt_limit, rfl⟩

end Valid

/-- A header passes its check exactly if it is valid. -/
theorem check_eq_ok_iff : h.check = .ok () ↔ h.Valid := by
  simp only [check, require_bind_eq_ok]
  constructor
  · rintro ⟨hw, hflags, hcols, hsquare, ⟨hlc, hle⟩, ⟨hos, hoa⟩, hrest⟩
    obtain ⟨_, hoffsets, hrest⟩ := bind_eq_ok.1 hrest
    obtain ⟨-, rfl⟩ := offsetsSize_eq_ok.1 hoffsets
    simp only [require_bind_eq_ok] at hrest
    obtain ⟨-, ⟨hoc, hca⟩, hrest⟩ := hrest
    obtain ⟨_, himage, -⟩ := bind_eq_ok.1 hrest
    exact ⟨hw, hflags, hcols, hsquare, hlc, hle, hos, hoa, hoc, hca,
      ((imageSize_eq_ok hw).1 himage).1⟩
  · intro hv
    have hstart : h.columnsStart.toNat < sizeLimit := h.columnsStart.toNat_lt
    have := hv.offsets_le_columns
    refine ⟨hv.indexWidth_eq, hv.flags_known, hv.nCols_lt, hv.square,
      ⟨hv.longestRow_le_nCols, hv.longestRow_le_entryCount⟩,
      ⟨hv.size_le_offsets, hv.offsets_aligned⟩, ?_⟩
    rw [hv.offsetsSize_eq, hv.imageSize_eq]
    simp only [Rows.ok_bind, require_bind_eq_ok]
    exact ⟨by omega, ⟨hv.offsets_le_columns, hv.columns_aligned⟩, rfl⟩

/-- A header is accepted if it is there, has the tag and a known version, and is valid. -/
theorem ofBytes_eq_ok_iff {bytes : Bytes} :
    ofBytes bytes = .ok h ↔
      size ≤ bytes.length ∧ read bytes = h ∧ h.magic = tag ∧
      h.version ≤ newestVersion ∧ h.Valid := by
  simp only [ofBytes, require_bind_eq_ok]
  constructor
  · rintro ⟨hsize, hmagic, hversion, hrest⟩
    obtain ⟨_, hcheck, heq⟩ := bind_eq_ok.1 hrest
    obtain rfl := Except.ok.inj heq
    exact ⟨hsize, rfl, hmagic, hversion, check_eq_ok_iff.1 hcheck⟩
  · rintro ⟨hsize, rfl, hmagic, hversion, hv⟩
    exact ⟨hsize, hmagic, hversion, bind_eq_ok.2 ⟨(), check_eq_ok_iff.2 hv, rfl⟩⟩

/-- A valid header is accepted from the front of its bytes. -/
theorem ofBytes_toBytes (hv : h.Valid) (hmagic : h.magic = tag)
    (hversion : h.version ≤ newestVersion) (rest : Bytes) :
    ofBytes (h.toBytes ++ rest) = .ok h := by
  have hlen : size ≤ (h.toBytes ++ rest).length := by
    rw [List.length_append, length_toBytes]
    exact Nat.le_add_right _ _
  exact ofBytes_eq_ok_iff.2 ⟨hlen, read_toBytes h rest, hmagic, hversion, hv⟩

/-! ### Described headers -/

theorem alignUp_of_mod_eq_zero {n : Nat} (h : n % alignment = 0) : alignUp n = n := by
  simp only [alignUp, alignment] at *
  omega

section Describe

variable {nRows nCols entryCount longestRow : Nat} {diagonalFirst : Bool}

theorem offsetsStart_describe :
    (describe nRows nCols entryCount longestRow diagonalFirst).offsetsStart.toNat = size := by
  have h : (alignUp size).toUInt64.toNat = size := by decide
  exact h

/-- Of a pattern's own image the columns follow the offsets. -/
theorem columnsStart_describe (hsize : size + offsetWidth * (nRows + 1) < sizeLimit) :
    (describe nRows nCols entryCount longestRow diagonalFirst).columnsStart.toNat =
      size + offsetWidth * (nRows + 1) := by
  have haligned :
      alignUp (alignUp size + offsetWidth * (nRows + 1)) = size + offsetWidth * (nRows + 1) := by
    rw [alignUp_of_mod_eq_zero (n := size) rfl]
    refine alignUp_of_mod_eq_zero ?_
    simp only [size, offsetWidth, alignment]
    omega
  rw [describe, haligned]
  exact toNat_toUInt64 hsize

theorem diagonalFirst_describe :
    (describe nRows nCols entryCount longestRow diagonalFirst).diagonalFirst = diagonalFirst := by
  cases diagonalFirst with
  | false => exact (by decide : (ascendingFlag &&& diagonalFlag != 0) = false)
  | true => exact (by decide : ((ascendingFlag ||| diagonalFlag) &&& diagonalFlag != 0) = true)

private theorem flags_describe :
    (describe nRows nCols entryCount longestRow diagonalFirst).flags &&&
      ~~~(diagonalFlag ||| ascendingFlag) = 0 := by
  cases diagonalFirst with
  | false => exact (by decide : ascendingFlag &&& ~~~(diagonalFlag ||| ascendingFlag) = 0)
  | true =>
    exact (by decide : (ascendingFlag ||| diagonalFlag) &&& ~~~(diagonalFlag ||| ascendingFlag) = 0)

/-- A header that describes a pattern within the limits passes its check. -/
theorem valid_describe (hcols : nCols < columnLimit)
    (hsquare : diagonalFirst = true → nRows = nCols) (hlc : longestRow ≤ nCols)
    (hle : longestRow ≤ entryCount)
    (hsize : size + offsetWidth * (nRows + 1) + columnWidth * entryCount < sizeLimit) :
    (describe nRows nCols entryCount longestRow diagonalFirst).Valid := by
  have hrows : nRows < sizeLimit := by simp only [offsetWidth] at hsize; omega
  have hentries : entryCount < sizeLimit := by simp only [columnWidth] at hsize; omega
  have hcols' : nCols < sizeLimit := Nat.lt_trans hcols (by decide)
  have hlongest : longestRow < sizeLimit := Nat.lt_of_le_of_lt hle hentries
  constructor
  case indexWidth_eq => rfl
  case flags_known => exact flags_describe
  case nCols_lt => rwa [describe, toNat_toUInt64 hcols']
  case square =>
    rw [diagonalFirst_describe]
    exact fun hd => congrArg Nat.toUInt64 (hsquare hd)
  case longestRow_le_nCols =>
    rwa [describe, UInt64.le_iff_toNat_le, toNat_toUInt64 hlongest, toNat_toUInt64 hcols']
  case longestRow_le_entryCount =>
    rwa [describe, UInt64.le_iff_toNat_le, toNat_toUInt64 hlongest, toNat_toUInt64 hentries]
  case size_le_offsets => exact Nat.le_of_eq offsetsStart_describe.symm
  case offsets_aligned => rw [offsetsStart_describe]; rfl
  case offsets_le_columns =>
    rw [columnsStart_describe (by omega), offsetsStart_describe]
    simp only [describe, toNat_toUInt64 hrows]
    exact Nat.le_refl _
  case columns_aligned =>
    rw [columnsStart_describe (by omega)]
    simp only [size, offsetWidth, alignment]
    omega
  case columns_lt_limit =>
    rw [columnsStart_describe (by omega)]
    simp only [describe, toNat_toUInt64 hentries]
    exact hsize

end Describe

end SparsePattern.Header
