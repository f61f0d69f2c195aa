import SparsePattern.Proofs.Image.Sections

/-!
# The canonical image

An image may place its arrays anywhere behind its header and leave gaps; what is decoded from it is
encoded without them.  The result is no longer than the image, and it is the front of the image
exactly if the headers are the same (`Pattern.ofBytes_canonicalizes`).
-/

namespace SparsePattern.Pattern

variable {s : Sections} {bytes : Bytes} {p : Pattern}

/-! ### Encoding what was decoded -/

theorem offsetsBytes_ofSections (hs : s.Of bytes) : (ofSections s).offsetsBytes = s.offsets :=
  LittleEndian.encodeArray_decodeArray hs.length_offsets

/-- The decoded columns have the bytes that they were decoded from. -/
theorem columnsBytes_ofSections (hs : s.Of bytes) : (ofSections s).columnsBytes = s.columns := by
  have hlen := hs.length_columns
  have hnumbers :
      (LittleEndian.decodeArray Header.columnWidth s.header.entryCount.toNat s.columns).map
      (UInt32.toNat ∘ Nat.toUInt32) =
      LittleEndian.decodeArray Header.columnWidth s.header.entryCount.toNat s.columns :=
    calc
      _ = List.map id _ :=
        List.map_congr_left fun n hn => toNat_toUInt32 (LittleEndian.decodeArray_lt hlen n hn)
      _ = _ := List.map_id _
  rw [columnsBytes, ofSections, Sections.layout, List.map_map, hnumbers]
  exact LittleEndian.encodeArray_decodeArray hlen

private theorem size_columns_ofSections (s : Sections) :
    (ofSections s).columns.size = s.header.entryCount.toNat := by
  rw [ofSections, Sections.layout, List.size_toArray, List.length_map,
    LittleEndian.length_decodeArray]

/-- The arrays of an image do not stand closer together than those of a pattern. -/
private theorem byteCount_ofSections_le (hs : s.Of bytes) :
    (ofSections s).byteCount ≤ s.header.byteCount := by
  have hstart := hs.valid.size_le_offsets
  have hend := hs.valid.offsets_le_columns
  rw [byteCount, size_columns_ofSections, Header.byteCount]
  show Header.size + Header.offsetWidth * (s.header.nRows.toNat + 1) + _ ≤ _
  omega

private theorem byteCount_ofSections_lt (hs : s.Of bytes) : (ofSections s).byteCount < sizeLimit :=
  Nat.lt_of_le_of_lt (byteCount_ofSections_le hs) hs.valid.columns_lt_limit

private theorem wellFormed_ofSections (hcheck : s.check = .ok ()) : (ofSections s).WellFormed :=
  ⟨(Sections.check_eq_ok_iff.1 hcheck).1, rfl⟩

/-! ### The front of an image -/

private theorem take_byteCount_eq_iff (hs : s.Of bytes) (hcheck : s.check = .ok ()) :
    bytes.take (ofSections s).byteCount = (ofSections s).toBytes ↔
      s.header = (ofSections s).header := by
  have hp := wellFormed_ofSections hcheck
  have hsize := byteCount_ofSections_lt hs
  constructor
  · intro hfront
    -- the header is read from the front alone
    have hle : Header.size ≤ (ofSections s).byteCount := by
      rw [byteCount, Nat.add_assoc]; exact Nat.le_add_right _ _
    have hread : Header.ofBytes (bytes.take (ofSections s).byteCount) = .ok s.header := by
      rw [Header.ofBytes_take hle, hs.header]
    rw [hfront, toBytes_eq hp hsize, ofBytes_header_toBytes hp hsize] at hread
    exact (Except.ok.inj hread).symm
  · intro hheader
    obtain ⟨hlen, hread, -⟩ := Header.ofBytes_eq_ok_iff.1 hs.header
    have hoffsetsStart : s.header.offsetsStart.toNat = Header.size := by
      rw [hheader]
      exact Header.offsetsStart_describe
    have hcolumnsStart : s.header.columnsStart.toNat =
        Header.size + Header.offsetWidth * ((ofSections s).nRows + 1) := by
      rw [hheader, columnsStart_header hsize]
    have hfirst : bytes.take Header.size = (ofSections s).header.toBytes := by
      rw [← Header.toBytes_read hlen, hread, hheader]
    rw [toBytes_eq hp hsize, offsetsBytes_ofSections hs, columnsBytes_ofSections hs, hs.offsets_eq,
      hs.columns_eq, hoffsetsStart, hcolumnsStart, ← hfirst, byteCount, size_columns_ofSections,
      List.take_add, List.take_add, List.append_assoc]
    rfl

private theorem take_imageSize_eq_iff (h : ofBytes bytes = .ok p) :
    bytes.take p.imageSize = p.toBytes ↔ Header.ofBytes bytes = .ok p.header := by
  obtain ⟨s, hs, -, hcheck, rfl⟩ := ofBytes_eq_ok_iff.1 h
  rw [imageSize_eq (byteCount_ofSections_lt hs), take_byteCount_eq_iff hs hcheck, hs.header,
    Except.ok.injEq]

/-- What is decoded from any accepted image is encoded as an image that decodes to the same again.
It is no longer than the first, of which it is the front exactly if that has the header of the
pattern; hence all images with this header agree up to what follows them. -/
theorem ofBytes_canonicalizes (h : ofBytes bytes = .ok p) :
    ofBytes p.toBytes = .ok p ∧
      (∃ header size,
        Header.ofBytes bytes = .ok header ∧ header.imageSize = .ok size ∧ p.imageSize ≤ size) ∧
      (bytes.take p.imageSize = p.toBytes ↔ Header.ofBytes bytes = .ok p.header) ∧
      ∀ image, ofBytes image = .ok p ∧ Header.ofBytes image = .ok p.header ↔
        ∃ rest, image = p.toBytes ++ rest := by
  obtain ⟨s, hs, hfits, hcheck, hp⟩ := ofBytes_eq_ok_iff.1 h
  have hwf : p.WellFormed := hp ▸ wellFormed_ofSections hcheck
  have hsize : p.byteCount < sizeLimit := hp ▸ byteCount_ofSections_lt hs
  have hcolumns : Header.columnWidth * p.columns.size < vectorLimit := by
    rw [← hp, size_columns_ofSections]
    exact hfits
  refine ⟨?again, ?shorter, take_imageSize_eq_iff h, fun image => ⟨?front, ?back⟩⟩
  case again =>
    have hread := ofBytes_toBytes hwf hsize hcolumns []
    rwa [List.append_nil] at hread
  case shorter =>
    refine ⟨s.header, s.header.byteCount, hs.header, Header.imageSize_of_ofBytes hs.header, ?_⟩
    rw [imageSize_eq hsize, ← hp]
    exact byteCount_ofSections_le hs
  case front =>
    rintro ⟨himage, hheader⟩
    have hfront := (take_imageSize_eq_iff himage).2 hheader
    exact ⟨image.drop p.imageSize, by rw [← hfront, List.take_append_drop]⟩
  case back =>
    rintro ⟨rest, rfl⟩
    refine ⟨ofBytes_toBytes hwf hsize hcolumns rest, ?_⟩
    rw [toBytes_eq hwf hsize, List.append_assoc]
    exact ofBytes_header_toBytes hwf hsize _

/-- The image that stands apart is not the canonical one, which is shorter. -/
theorem ofBytes_canonicalizes_relocated :
    ofBytes relocated = .ok leading ∧ ofBytes leading.toBytes = .ok leading ∧
      relocated.take leading.imageSize ≠ leading.toBytes := by
  have h := ofBytes_relocated
  obtain ⟨hagain, -, hfront, -⟩ := ofBytes_canonicalizes h
  refine ⟨h, hagain, fun heq => ?_⟩
  have hversion : (Header.read relocated).version = leading.header.version := by
    rw [(Header.ofBytes_eq_ok_iff.1 (hfront.1 heq)).2.1]
  exact absurd hversion (by decide +kernel)

end SparsePattern.Pattern
