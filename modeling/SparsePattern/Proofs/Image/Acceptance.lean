import SparsePattern.Proofs.Image.File

/-!
# Headers that are accepted, byte by byte

`Header.Acceptable` says in exact numbers what the bytes of a header have to say: nothing in it can
overflow.  The header is accepted in just this case (`Header.exists_ofBytes_iff`), so that no sum or
product that the checks form has ever wrapped around, and none of them refuses a header for a number
on the way.  The first 64 bytes and the fields that are read from them determine each other
(`Header.bytes_bijective`).  Splitting asks in addition that the bytes reach to the end of the
columns, and cuts both arrays out of the bytes behind the header (`Sections.split_exact`).
-/

namespace SparsePattern

namespace Header

variable {bytes : Bytes}

/-! ### What the bytes say -/

/-- The numbers in a header. -/
structure Numbers where
  version : Nat
  flags : Nat
  indexWidth : Nat
  nRows : Nat
  nCols : Nat
  entryCount : Nat
  longestRow : Nat
  offsetsStart : Nat
  columnsStart : Nat

/-- The numbers as they stand in the bytes, the least significant byte first. -/
def numbers (bytes : Bytes) : Numbers where
  version := field bytes 4 1
  flags := field bytes 5 1
  indexWidth := field bytes 6 1
  nRows := field bytes 8 8
  nCols := field bytes 16 8
  entryCount := field bytes 24 8
  longestRow := field bytes 32 8
  offsetsStart := field bytes 40 8
  columnsStart := field bytes 48 8

namespace Numbers

/-- Where the row offsets end. -/
def offsetsStop (n : Numbers) : Nat := n.offsetsStart + 8 * (n.nRows + 1)

/-- Where the columns end. -/
def columnsStop (n : Numbers) : Nat := n.columnsStart + 4 * n.entryCount

end Numbers

/-- What the bytes of an acceptable header say.  Flag 1 is bit 0, flag 8 is bit 3. -/
structure Acceptable (bytes : Bytes) : Prop where
  size_le : 64 ≤ bytes.length
  magic : bytes.take 4 = ['S', 'P', 'A', 'T'].map fun c => c.toNat.toUInt8
  version_le : (numbers bytes).version ≤ 1
  indexWidth_eq : (numbers bytes).indexWidth = 4
  flags_known : ∀ bit, (numbers bytes).flags.testBit bit = true → bit = 0 ∨ bit = 3
  nCols_le : (numbers bytes).nCols ≤ 0xFFFFFFFF
  square : (numbers bytes).flags.testBit 0 = true → (numbers bytes).nRows = (numbers bytes).nCols
  longestRow_le_nCols : (numbers bytes).longestRow ≤ (numbers bytes).nCols
  longestRow_le_entryCount : (numbers bytes).longestRow ≤ (numbers bytes).entryCount
  size_le_offsets : 64 ≤ (numbers bytes).offsetsStart
  offsets_aligned : 8 ∣ (numbers bytes).offsetsStart
  offsets_le_columns : (numbers bytes).offsetsStop ≤ (numbers bytes).columnsStart
  columns_aligned : 8 ∣ (numbers bytes).columnsStart
  columns_lt : (numbers bytes).columnsStop < 0x10000000000000000

/-! ### The fields that are read -/

/-- The numbers of a header as they are read. -/
def toNumbers (h : Header) : Numbers where
  version := h.version.toNat
  flags := h.flags.toNat
  indexWidth := h.indexWidth.toNat
  nRows := h.nRows.toNat
  nCols := h.nCols.toNat
  entryCount := h.entryCount.toNat
  longestRow := h.longestRow.toNat
  offsetsStart := h.offsetsStart.toNat
  columnsStart := h.columnsStart.toNat

private theorem toNat_byteField {start : Nat} (h : start + 1 ≤ bytes.length) :
    (field bytes start 1).toUInt8.toNat = field bytes start 1 :=
  UInt8.toNat_ofNat_of_lt' (encode_field h).2

private theorem toNat_wordField {start : Nat} (h : start + 8 ≤ bytes.length) :
    (field bytes start 8).toUInt64.toNat = field bytes start 8 :=
  toNat_toUInt64 (encode_field h).2

private theorem toNumbers_read (h : size ≤ bytes.length) :
    (read bytes).toNumbers = numbers bytes := by
  unfold size at h
  simp (disch := omega) only [toNumbers, read, numbers, toNat_byteField, toNat_wordField]

private theorem magic_read_iff (h : size ≤ bytes.length) :
    (read bytes).magic = tag ↔
      bytes.take 4 = ['S', 'P', 'A', 'T'].map fun c => c.toNat.toUInt8 := by
  have hsize : 0 + 4 ≤ bytes.length := by
    unfold size at h
    omega
  have htag :
      LittleEndian.encode 4 tag.toNat = ['S', 'P', 'A', 'T'].map fun c => c.toNat.toUInt8 := by
    decide
  have hencode : LittleEndian.encode 4 (read bytes).magic.toNat = bytes.take 4 :=
    encode_magicField hsize
  constructor
  · intro hmagic
    rw [← hencode, hmagic, htag]
  · intro hbytes
    rw [← hencode, ← htag] at hbytes
    -- the four bytes give the number back
    have hdecode := congrArg LittleEndian.decode hbytes
    rw [LittleEndian.decode_encode_of_lt (read bytes).magic.toNat_lt,
      LittleEndian.decode_encode_of_lt tag.toNat_lt] at hdecode
    exact UInt32.toNat_inj.1 hdecode

/-! ### Flags -/

private theorem diagonalFirst_iff {h : Header} :
    h.diagonalFirst = true ↔ h.flags.toNat.testBit 0 = true := by
  have hbit : (h.flags &&& diagonalFlag).toNat = h.flags.toNat % 2 := by
    rw [UInt8.toNat_and]
    exact Nat.and_one_is_mod _
  rw [diagonalFirst, bne_iff_ne, ne_eq, ← UInt8.toNat_inj, hbit, Nat.testBit_zero,
    decide_eq_true_iff]
  have hzero : (0 : UInt8).toNat = 0 := rfl
  omega

/-- The bits of a byte that are not those of the two flags. -/
private theorem testBit_others {bit : Nat} (h : bit < 8) :
    (~~~(diagonalFlag ||| ascendingFlag)).toNat.testBit bit = true ↔ ¬ (bit = 0 ∨ bit = 3) := by
  decide +revert

/-- The two known flags are the bits 0 and 3. -/
private theorem flags_known_iff {flags : UInt8} :
    flags &&& ~~~(diagonalFlag ||| ascendingFlag) = 0 ↔
      ∀ bit, flags.toNat.testBit bit = true → bit = 0 ∨ bit = 3 := by
  constructor
  · intro hzero bit hbit
    have hlt : bit < 8 := by
      by_contra hge
      rw [Nat.testBit_lt_two_pow
        (Nat.lt_of_lt_of_le flags.toNat_lt (Nat.pow_le_pow_right (by decide) (by omega)))] at hbit
      cases hbit
    by_contra hother
    have hand : (flags &&& ~~~(diagonalFlag ||| ascendingFlag)).toNat.testBit bit = true := by
      rw [UInt8.toNat_and, Nat.testBit_and, hbit, (testBit_others hlt).2 hother, Bool.and_true]
    rw [hzero] at hand
    exact absurd hand (by simp)
  · intro hknown
    refine UInt8.toNat_inj.1 (Nat.eq_of_testBit_eq fun bit => ?_)
    rw [UInt8.toNat_and, Nat.testBit_and]
    show _ = (0 : Nat).testBit bit
    rw [Nat.zero_testBit, Bool.and_eq_false_iff]
    by_cases hbit : flags.toNat.testBit bit = true
    · right
      rcases hknown bit hbit with rfl | rfl <;> decide
    · left
      simpa using hbit

/-! ### Acceptance -/

/-- A header is accepted exactly if its bytes say what they have to, in numbers that never wrap
around. -/
theorem exists_ofBytes_iff : (∃ h, ofBytes bytes = .ok h) ↔ Acceptable bytes := by
  simp only [ofBytes_eq_ok_iff]
  constructor
  · rintro ⟨h, hsize, rfl, hmagic, hversion, hv⟩
    have hnumbers := toNumbers_read hsize
    constructor
    case size_le => exact hsize
    case magic => exact (magic_read_iff hsize).1 hmagic
    all_goals rw [← hnumbers]
    case version_le => exact hversion
    case indexWidth_eq => exact hv.indexWidth_eq
    case flags_known => exact flags_known_iff.1 hv.flags_known
    case nCols_le => exact Nat.le_sub_one_of_lt hv.nCols_lt
    case square => exact fun hd => congrArg UInt64.toNat (hv.square (diagonalFirst_iff.2 hd))
    case longestRow_le_nCols => exact hv.longestRow_le_nCols
    case longestRow_le_entryCount => exact hv.longestRow_le_entryCount
    case size_le_offsets => exact hv.size_le_offsets
    case offsets_aligned => exact Nat.dvd_of_mod_eq_zero hv.offsets_aligned
    case offsets_le_columns => exact hv.offsets_le_columns
    case columns_aligned => exact Nat.dvd_of_mod_eq_zero hv.columns_aligned
    case columns_lt => exact hv.columns_lt_limit
  · intro ha
    have hsize : size ≤ bytes.length := ha.size_le
    have hnumbers := toNumbers_read hsize
    refine ⟨read bytes, hsize, rfl, (magic_read_iff hsize).2 ha.magic, ?_, ?_⟩
    · have hversion := ha.version_le
      rw [← hnumbers] at hversion
      exact hversion
    · rcases ha with ⟨-, -, -, hwidth, hflags, hcols, hsquare, hlc, hle, hos, hoa, hoc, hca, hlimit⟩
      rw [← hnumbers] at hwidth hflags hcols hsquare hlc hle hos hoa hoc hca hlimit
      constructor
      case indexWidth_eq => exact hwidth
      case flags_known => exact flags_known_iff.2 hflags
      case nCols_lt => exact Nat.lt_of_le_sub_one (by decide) hcols
      case square => exact fun hd => UInt64.toNat_inj.1 (hsquare (diagonalFirst_iff.1 hd))
      case longestRow_le_nCols => exact hlc
      case longestRow_le_entryCount => exact hle
      case size_le_offsets => exact hos
      case offsets_aligned => exact Nat.mod_eq_zero_of_dvd hoa
      case offsets_le_columns => exact hoc
      case columns_aligned => exact Nat.mod_eq_zero_of_dvd hca
      case columns_lt_limit => exact hlimit

/-! ### Back to the bytes -/

private theorem toBytes_of_ofBytes {h : Header} (hread : ofBytes bytes = .ok h) :
    h.toBytes = bytes.take size := by
  obtain ⟨hsize, rfl, -⟩ := ofBytes_eq_ok_iff.1 hread
  exact toBytes_read hsize

/-- Reading a header looks at no byte behind it. -/
theorem ofBytes_congr {bytes' : Bytes} (h : bytes.take size = bytes'.take size) :
    ofBytes bytes = ofBytes bytes' := by
  calc
    ofBytes bytes = ofBytes (bytes.take size) := (ofBytes_take (Nat.le_refl size)).symm
    _ = ofBytes (bytes'.take size) := congrArg ofBytes h
    _ = ofBytes bytes' := ofBytes_take (Nat.le_refl size)

private theorem eq_of_ofBytes_toBytes {h h' : Header} (hread : ofBytes h.toBytes = .ok h') :
    h' = h := by
  obtain ⟨-, hread, -⟩ := ofBytes_eq_ok_iff.1 hread
  have hback := read_toBytes h []
  rw [List.append_nil] at hback
  exact hread.symm.trans hback

/-- Nothing that `describe` computes on the way to the start of the columns reaches 2^64, not even
before it is rounded. -/
private theorem describe_lt {nRows entryCount : Nat}
    (hsize : size + offsetWidth * (nRows + 1) + columnWidth * entryCount < sizeLimit) :
    alignUp size + offsetWidth * (nRows + 1) + (alignment - 1) < sizeLimit := by
  have hfront : alignUp size = size := alignUp_of_mod_eq_zero rfl
  rw [hfront]
  simp only [size, offsetWidth, columnWidth, alignment, sizeLimit] at *
  omega

/-- What describes a pattern that can be addressed is an accepted header. -/
private theorem ofBytes_describe {nRows nCols entryCount longestRow : Nat} {diagonalFirst : Bool}
    (hcols : nCols < columnLimit) (hsquare : diagonalFirst = true → nRows = nCols)
    (hlc : longestRow ≤ nCols) (hle : longestRow ≤ entryCount)
    (hsize : size + offsetWidth * (nRows + 1) + columnWidth * entryCount < sizeLimit) :
    ofBytes (describe nRows nCols entryCount longestRow diagonalFirst).toBytes =
      .ok (describe nRows nCols entryCount longestRow diagonalFirst) := by
  have hversion : (describe nRows nCols entryCount longestRow diagonalFirst).version ≤
      newestVersion := UInt8.le_refl _
  have hback := ofBytes_toBytes (valid_describe hcols hsquare hlc hle hsize) rfl hversion []
  rwa [List.append_nil] at hback

/-- A header that is read has all of the 64 bytes in its fields, and no other byte has a say in it.
Conversely, the bytes of a header are read as this header or not at all, and those of a described
pattern are read whenever its numbers and the whole of its image stay in range. -/
theorem bytes_bijective :
    (∀ bytes h, ofBytes bytes = .ok h → h.toBytes = bytes.take size) ∧
    (∀ bytes bytes' : Bytes, bytes.take size = bytes'.take size → ofBytes bytes = ofBytes bytes') ∧
    (∀ h h' : Header, ofBytes h.toBytes = .ok h' → h' = h) ∧
    ∀ (nRows nCols entryCount longestRow : Nat) (diagonalFirst : Bool), nCols < columnLimit →
      (diagonalFirst = true → nRows = nCols) → longestRow ≤ nCols → longestRow ≤ entryCount →
      size + offsetWidth * (nRows + 1) + columnWidth * entryCount < sizeLimit →
      alignUp size + offsetWidth * (nRows + 1) + (alignment - 1) < sizeLimit ∧
        ofBytes (describe nRows nCols entryCount longestRow diagonalFirst).toBytes =
          .ok (describe nRows nCols entryCount longestRow diagonalFirst) := by
  refine ⟨fun bytes h => toBytes_of_ofBytes, fun bytes bytes' => ofBytes_congr,
    fun h h' => eq_of_ofBytes_toBytes, ?_⟩
  intro nRows nCols entryCount longestRow diagonalFirst hcols hsquare hlc hle hsize
  exact ⟨describe_lt hsize, ofBytes_describe hcols hsquare hlc hle hsize⟩

theorem bytes_bijective_relocated :
    (∃ h, ofBytes Pattern.relocated = .ok h ∧ h.toBytes = Pattern.relocated.take 64 ∧
      ofBytes (Pattern.relocated.take 64 ++ [1, 2]) = .ok h) ∧
    ofBytes (describe 5 5 17 4 true).toBytes = .ok (describe 5 5 17 4 true) := by
  obtain ⟨hback, hfront, -, hdescribe⟩ := bytes_bijective
  obtain ⟨s, hs, -⟩ := Pattern.ofBytes_eq_ok_iff.1 Pattern.ofBytes_relocated
  have hread : ofBytes Pattern.relocated = .ok s.header := hs.header
  have hsame : (Pattern.relocated.take 64 ++ [1, 2]).take size = Pattern.relocated.take size :=
    List.take_left' (by decide)
  refine ⟨⟨s.header, hread, hback _ _ hread, ?_⟩, ?_⟩
  · rw [hfront _ _ hsame, hread]
  · exact (hdescribe 5 5 17 4 true (by decide) (fun _ => rfl) (by decide) (by decide) (by decide)).2

end Header

/-! ### Splitting -/

namespace Sections

variable {s : Sections} {bytes : Bytes}

/-- The sections are stretches of the bytes that start and end where the numbers in the header say,
one behind the other and both behind the header. -/
def Cut (s : Sections) (bytes : Bytes) : Prop :=
  ∃ front gap rest, bytes = front ++ s.offsets ++ gap ++ s.columns ++ rest ∧ 64 ≤ front.length ∧
    front.length = (Header.numbers bytes).offsetsStart ∧
    (front ++ s.offsets).length = (Header.numbers bytes).offsetsStop ∧
    (front ++ s.offsets ++ gap).length = (Header.numbers bytes).columnsStart ∧
    (front ++ s.offsets ++ gap ++ s.columns).length = (Header.numbers bytes).columnsStop

private theorem Of.toNumbers_eq (hs : s.Of bytes) : s.header.toNumbers = Header.numbers bytes := by
  obtain ⟨hsize, hread, -⟩ := Header.ofBytes_eq_ok_iff.1 hs.header
  rw [← hread]
  exact Header.toNumbers_read hsize

private theorem exists_ofBytes_iff :
    (∃ s, ofBytes bytes = .ok s) ↔
      Header.Acceptable bytes ∧ (Header.numbers bytes).columnsStop ≤ bytes.length := by
  rw [← Header.exists_ofBytes_iff]
  constructor
  · rintro ⟨s, hs⟩
    have hs := ofBytes_eq_ok_iff.1 hs
    refine ⟨⟨s.header, hs.header⟩, ?_⟩
    rw [← hs.toNumbers_eq]
    exact hs.byteCount_le
  · rintro ⟨⟨h, hread⟩, hlen⟩
    obtain ⟨hsize, rfl, -⟩ := Header.ofBytes_eq_ok_iff.1 hread
    rw [← Header.toNumbers_read hsize] at hlen
    exact ⟨_, ofBytes_eq hread hlen⟩

private theorem Of.cut (hs : s.Of bytes) : s.Cut bytes := by
  have hfront : 64 ≤ s.header.offsetsStart.toNat := hs.valid.size_le_offsets
  obtain ⟨gap, hgap⟩ := Nat.exists_eq_add_of_le hs.valid.offsets_le_columns
  have hend : s.header.columnsStart.toNat + Header.columnWidth * s.header.entryCount.toNat ≤
      bytes.length :=
    hs.byteCount_le
  -- what precedes each boundary
  have hfirst : bytes.take s.header.offsetsStart.toNat ++ s.offsets =
      bytes.take
        (s.header.offsetsStart.toNat + Header.offsetWidth * (s.header.nRows.toNat + 1)) := by
    rw [hs.offsets_eq, List.take_add]
  have hsecond : bytes.take s.header.columnsStart.toNat ++ s.columns =
      bytes.take
        (s.header.columnsStart.toNat + Header.columnWidth * s.header.entryCount.toNat) := by
    rw [hs.columns_eq, List.take_add]
  refine ⟨bytes.take s.header.offsetsStart.toNat,
    (bytes.drop
      (s.header.offsetsStart.toNat + Header.offsetWidth * (s.header.nRows.toNat + 1))).take gap,
    bytes.drop (s.header.columnsStart.toNat + Header.columnWidth * s.header.entryCount.toNat), ?_⟩
  rw [hfirst, ← List.take_add, ← hgap, hsecond, List.take_append_drop, ← hs.toNumbers_eq]
  refine ⟨rfl, ?_⟩
  simp only [List.length_take]
  refine ⟨by omega, Nat.min_eq_left (by omega), Nat.min_eq_left (by omega),
    Nat.min_eq_left (by omega), Nat.min_eq_left hend⟩

/-- A header is accepted, and an image is split, in exactly the cases that exact arithmetic allows.
The sections are then the two stretches that the header states, they share no byte with each other
or with the header, and where they are cut out the bytes reach far enough and no sum or product has
wrapped around. -/
theorem split_exact (bytes : Bytes) :
    ((∃ h, Header.ofBytes bytes = .ok h) ↔ Header.Acceptable bytes) ∧
    ((∃ s, ofBytes bytes = .ok s) ↔
      Header.Acceptable bytes ∧ (Header.numbers bytes).columnsStop ≤ bytes.length) ∧
    (∀ s, ofBytes bytes = .ok s → s.Cut bytes) ∧
    ∀ h n, Header.ofBytes bytes = .ok h → h.imageSize = .ok n → n ≤ bytes.length →
      h.offsetsSize = .ok (Header.offsetWidth * (h.nRows.toNat + 1)) ∧
        h.columnsSize = .ok (Header.columnWidth * h.entryCount.toNat) ∧ h.Locates bytes.length := by
  refine ⟨Header.exists_ofBytes_iff, exists_ofBytes_iff, fun s hs => (ofBytes_eq_ok_iff.1 hs).cut,
    ?_⟩
  intro h n hread himage hlen
  have hv := Header.valid_of_ofBytes hread
  rw [Header.imageSize_of_ofBytes hread, Except.ok.injEq] at himage
  rw [← himage] at hlen
  obtain ⟨s, hs, rfl⟩ : ∃ s : Sections, s.Of bytes ∧ s.header = h :=
    ⟨_, ofBytes_eq_ok_iff.1 (ofBytes_eq hread hlen), rfl⟩
  exact ⟨hv.offsetsSize_eq, hv.columnsSize_eq, hs.locates⟩

theorem split_exact_relocated :
    ∃ s, ofBytes Pattern.relocated = .ok s ∧ Header.Acceptable Pattern.relocated ∧
      s.Cut Pattern.relocated ∧ s.header.offsetsStart = 72 ∧ s.header.columnsStart = 112 ∧
      s.header.Locates Pattern.relocated.length := by
  obtain ⟨haccept, hsplit, hcut, hlocates⟩ := split_exact Pattern.relocated
  obtain ⟨s, hs, -⟩ := Pattern.ofBytes_eq_ok_iff.1 Pattern.ofBytes_relocated
  have hok := ofBytes_eq_ok_iff.2 hs
  have himage := Header.imageSize_of_ofBytes hs.header
  have hread := (Header.ofBytes_eq_ok_iff.1 hs.header).2.1
  refine ⟨s, hok, haccept.1 ⟨_, hs.header⟩, hcut s hok, ?_, ?_,
    (hlocates _ _ hs.header himage hs.byteCount_le).2.2⟩
  · rw [← hread]
    decide +kernel
  · rw [← hread]
    decide +kernel

end Sections

end SparsePattern
