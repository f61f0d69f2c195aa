import SparsePattern.ImageFile
import SparsePattern.Proofs.Image.InPlace
import SparsePattern.Proofs.Stream.Blocks

/-!
# Pattern files

A file is opened exactly if it holds the image of a pattern and nothing after it
(`ImageFile.load_eq_ok_iff`).  The header that is kept then places both arrays within the file
(`Header.Locates`), and the view that is found from it alone is the view of all bytes
(`ImageFile.view_eq`).  What is written is opened again (`ImageFile.load_write`).
-/

namespace SparsePattern

open Rows (bind_eq_ok require_bind_eq_ok require_bind_of_not)

/-! ### Images that end with their bytes -/

/-- The header places both arrays within `n` bytes, each aligned for its numbers, and no sum or
product on the way to their ends reaches 2^64. -/
structure Header.Locates (h : Header) (n : Nat) : Prop where
  offsetCount_lt : h.nRows.toNat + 1 < sizeLimit
  offsetsSize_lt : offsetWidth * (h.nRows.toNat + 1) < sizeLimit
  offsetsStop_lt : h.offsetsStart.toNat + offsetWidth * (h.nRows.toNat + 1) < sizeLimit
  offsetsStop_le : h.offsetsStart.toNat + offsetWidth * (h.nRows.toNat + 1) ≤ n
  columnsSize_lt : columnWidth * h.entryCount.toNat < sizeLimit
  columnsStop_lt : h.columnsStart.toNat + columnWidth * h.entryCount.toNat < sizeLimit
  columnsStop_le : h.columnsStart.toNat + columnWidth * h.entryCount.toNat ≤ n
  offsets_aligned : h.offsetsStart.toNat % offsetWidth = 0
  columns_aligned : h.columnsStart.toNat % columnWidth = 0

namespace Sections

variable {s : Sections} {bytes : Bytes}

/-- The header of an image that splits states stretches within its bytes. -/
theorem Of.locates (hs : s.Of bytes) : s.header.Locates bytes.length := by
  have hv := hs.valid
  have hend : s.header.columnsStart.toNat + Header.columnWidth * s.header.entryCount.toNat ≤
      bytes.length :=
    hs.byteCount_le
  have hoffsets := hv.offsets_le_columns
  have hstart : s.header.columnsStart.toNat < sizeLimit := s.header.columnsStart.toNat_lt
  have hlimit := hv.columns_lt_limit
  constructor
  case offsetCount_lt => simp only [Header.offsetWidth] at hoffsets; omega
  case offsetsSize_lt => omega
  case offsetsStop_lt => omega
  case offsetsStop_le => omega
  case columnsSize_lt => omega
  case columnsStop_lt => exact hlimit
  case columnsStop_le => exact hend
  case offsets_aligned => exact hv.offsets_aligned
  case columns_aligned =>
    have := hv.columns_aligned
    simp only [Header.alignment, Header.columnWidth] at *
    omega

/-- What cannot be split cannot be split exactly, for the same fault. -/
theorem ofExactBytes_of_error {fault : Fault} (h : ofBytes bytes = .error fault) :
    ofExactBytes bytes = .error fault := by
  rw [ofExactBytes, h, Rows.error_bind]

private theorem ofExactBytes_of_length_eq (hs : s.Of bytes)
    (hlen : bytes.length = s.header.byteCount) : ofExactBytes bytes = .ok s := by
  rw [ofExactBytes, ofBytes_eq_ok_iff.2 hs, Rows.ok_bind, Header.imageSize_of_ofBytes hs.header,
    Rows.ok_bind]
  exact require_bind_eq_ok.2 ⟨hlen, rfl⟩

private theorem ofExactBytes_of_length_ne (hs : s.Of bytes)
    (hlen : bytes.length ≠ s.header.byteCount) :
    ofExactBytes bytes = .error (.malformed .trailingBytes) := by
  rw [ofExactBytes, ofBytes_eq_ok_iff.2 hs, Rows.ok_bind, Header.imageSize_of_ofBytes hs.header,
    Rows.ok_bind]
  exact require_bind_of_not hlen

/-- The bytes are just one image if they end where its header says. -/
theorem Of.isBlock_iff (hs : s.Of bytes) : IsBlock bytes ↔ bytes.length = s.header.byteCount := by
  have himage := Header.imageSize_of_ofBytes hs.header
  constructor
  · rintro ⟨h, hread, hsize⟩
    rw [hs.header, Except.ok.injEq] at hread
    rw [← hread, himage, Except.ok.injEq] at hsize
    exact hsize.symm
  · intro hlen
    exact ⟨s.header, hs.header, by rw [himage, hlen]⟩

private theorem exists_of_isBlock (h : IsBlock bytes) : ∃ s : Sections, s.Of bytes := by
  obtain ⟨h, hread, hsize⟩ := h
  rw [Header.imageSize_of_ofBytes hread, Except.ok.injEq] at hsize
  exact ⟨_, ofBytes_eq_ok_iff.1 (ofBytes_eq hread (Nat.le_of_eq hsize))⟩

end Sections

/-- Bytes that are just one image have the view of its sections if the arrays pass their check. -/
theorem View.ofExactBytes_eq {s : Sections} {bytes : Bytes} {address : Nat} (hs : s.Of bytes)
    (hlen : bytes.length = s.header.byteCount) (haligned : address % Header.alignment = 0) :
    ofExactBytes bytes address = s.check >>= fun _ => .ok (borrowed s) := by
  rw [ofExactBytes, Sections.ofExactBytes_of_length_eq hs hlen, Rows.ok_bind,
    ofSections_eq hs haligned]

/-! ### Files by path -/

namespace Store

variable {store written : Store} {path : String} {content : Bytes}

/-- A file that is written is read as it was written. -/
theorem read?_write (h : store.write path content = .ok written) :
    written.read? path = some content := by
  rw [write] at h
  split at h
  · obtain rfl := Except.ok.inj h
    simp [read?]
  · cases h

/-- Writing a file leaves the others as they were. -/
theorem read?_write_of_ne (h : store.write path content = .ok written) {other : String}
    (hne : other ≠ path) : written.read? other = store.read? other := by
  rw [write] at h
  split at h
  · obtain rfl := Except.ok.inj h
    rw [read?, List.lookup_cons, beq_false_of_ne hne]
    rfl
  · cases h

/-- A file can be written into a directory that is there. -/
theorem exists_write (h : store.hasDirectory (directory path) = true) (content : Bytes) :
    ∃ written, store.write path content = .ok written := ⟨_, if_pos h⟩

end Store

/-! ### Opened files -/

namespace ImageFile

variable {store written : Store} {path : String} {content : Bytes} {s : Sections} {f : ImageFile}

/-- A file is refused for the fault that splitting its bytes exactly gives. -/
theorem load_of_error (hread : store.read? path = some content) {fault : Fault}
    (h : Sections.ofExactBytes content = .error fault) :
    load store path = .error (.fault fault) := by
  have hview : View.ofExactBytes content = .error fault := by
    rw [View.ofExactBytes, h, Rows.error_bind]
  simp only [load, hread, hview]

/-- Once the bytes are just one image, the check of the arrays decides whether the file is
opened. -/
private theorem load_of_sections (hread : store.read? path = some content) (hs : s.Of content)
    (hlen : content.length = s.header.byteCount) :
    load store path =
      (s.check >>= fun _ => .ok { path, content, header := s.header }).mapError .fault := by
  have hview : View.ofExactBytes content 0 = s.check >>= fun _ => .ok (View.borrowed s) :=
    View.ofExactBytes_eq hs hlen rfl
  simp only [load, hread, hview]
  cases s.check with
  | error fault => rfl
  | ok u => rfl

/-- A file is opened if its bytes are just one image whose arrays pass their check, and its header
is kept. -/
theorem load_eq_ok_iff (hread : store.read? path = some content) :
    load store path = .ok f ↔ ∃ s : Sections, s.Of content ∧ content.length = s.header.byteCount ∧
      s.check = .ok () ∧ { path, content, header := s.header } = f := by
  constructor
  · intro h
    cases hexact : Sections.ofExactBytes content with
    | error fault =>
      rw [load_of_error hread hexact] at h
      cases h
    | ok s =>
      obtain ⟨s, hs, -⟩ := bind_eq_ok.1 hexact
      have hs := Sections.ofBytes_eq_ok_iff.1 hs
      by_cases hlen : content.length = s.header.byteCount
      · rw [load_of_sections hread hs hlen] at h
        cases hcheck : s.check with
        | error fault =>
          rw [hcheck] at h
          cases h
        | ok u =>
          rw [hcheck] at h
          exact ⟨s, hs, hlen, hcheck, Except.ok.inj h⟩
      · rw [Sections.ofExactBytes_of_length_ne hs hlen] at hexact
        cases hexact
  · rintro ⟨s, hs, hlen, hcheck, rfl⟩
    rw [load_of_sections hread hs hlen, hcheck]
    rfl

/-- The arrays are where they were found when the whole file was checked. -/
theorem view_eq (hs : s.Of content) :
    ImageFile.view { path, content, header := s.header } = View.borrowed s := by
  simp only [view, stretch, Nat.add_sub_cancel_left, ← hs.offsets_eq, ← hs.columns_eq]
  rfl

/-- At an aligned address the view of an opened file is that of its bytes. -/
theorem view_of_load (hread : store.read? path = some content) (hf : load store path = .ok f)
    {address : Nat} (haligned : address % Header.alignment = 0) :
    View.ofBytes content address = .ok f.view := by
  obtain ⟨s, hs, -, hcheck, rfl⟩ := (load_eq_ok_iff hread).1 hf
  rw [view_eq hs]
  exact View.ofBytes_eq_ok_iff.2 ⟨haligned, s, hs, hcheck, rfl⟩

private theorem toPattern_of_load (hread : store.read? path = some content)
    (hmemory : content.length < Pattern.vectorLimit) (hf : load store path = .ok f) :
    ∃ p, Pattern.ofBytes content = .ok p ∧ f.toPattern = .ok p := by
  obtain ⟨s, hs, -, hcheck, rfl⟩ := (load_eq_ok_iff hread).1 hf
  refine ⟨Pattern.ofSections s, Pattern.ofBytes_eq_ok_iff.2 ⟨s, hs, hs.fits hmemory, hcheck, rfl⟩,
    ?_⟩
  rw [toPattern, view_eq hs]
  exact View.toPattern_borrowed hcheck

/-- Arrays are refused for the same fault as when the bytes are decoded. -/
private theorem load_of_array_error (hread : store.read? path = some content)
    (hmemory : content.length < Pattern.vectorLimit) (hblock : IsBlock content) {fault : Fault}
    (hfault : Pattern.ofBytes content = .error fault) :
    load store path = .error (.fault fault) := by
  obtain ⟨s, hs⟩ := Sections.exists_of_isBlock hblock
  rw [Pattern.ofBytes_eq hs (hs.fits hmemory)] at hfault
  rw [load_of_sections hread hs (hs.isBlock_iff.1 hblock)]
  cases hcheck : s.check with
  | error refusal =>
    rw [hcheck] at hfault
    rw [← Except.error.inj hfault]
    rfl
  | ok u =>
    rw [hcheck] at hfault
    cases hfault

/-- A file whose bytes hold a pattern and are just one image is opened. -/
theorem exists_load_of_isBlock (hread : store.read? path = some content) {p : Pattern}
    (hp : Pattern.ofBytes content = .ok p) (hblock : IsBlock content) :
    ∃ f, load store path = .ok f := by
  obtain ⟨s, hs, -, hcheck, -⟩ := Pattern.ofBytes_eq_ok_iff.1 hp
  exact ⟨_, (load_eq_ok_iff hread).2 ⟨s, hs, hs.isBlock_iff.1 hblock, hcheck, rfl⟩⟩

/-- A file is opened exactly if its bytes hold a pattern and are just one image. -/
theorem exists_load_iff (hread : store.read? path = some content)
    (hmemory : content.length < Pattern.vectorLimit) :
    (∃ f, load store path = .ok f) ↔ (∃ p, Pattern.ofBytes content = .ok p) ∧ IsBlock content := by
  constructor
  · rintro ⟨f, hf⟩
    obtain ⟨p, hp, -⟩ := toPattern_of_load hread hmemory hf
    obtain ⟨s, hs, hlen, -⟩ := (load_eq_ok_iff hread).1 hf
    exact ⟨⟨p, hp⟩, hs.isBlock_iff.2 hlen⟩
  · rintro ⟨⟨p, hp⟩, hblock⟩
    exact exists_load_of_isBlock hread hp hblock

/-- A pattern that is written to a file is opened with its own header. -/
theorem load_write {p : Pattern} (hp : p.WellFormed) (hmemory : p.byteCount < Pattern.vectorLimit)
    (hwrite : write store path p = .ok written) :
    load written path = .ok { path, content := p.toBytes, header := p.header } := by
  have hsize : p.byteCount < sizeLimit := Nat.lt_trans hmemory (by decide)
  obtain ⟨s, hs, -, hcheck, -⟩ :=
    Pattern.ofBytes_eq_ok_iff.1 (Pattern.ofBytes_toBytes_of_lt hp hmemory)
  have hlen := hs.isBlock_iff.1 (Pattern.isBlock_toBytes hp hmemory)
  have hheader := Pattern.header_toBytes hp hsize
  rw [hs.header, Except.ok.injEq] at hheader
  exact (load_eq_ok_iff (Store.read?_write hwrite)).2 ⟨s, hs, hlen, hcheck, by rw [hheader]⟩

/-- A file is opened exactly if its bytes hold a pattern and end with the image that their header
states; otherwise it is refused for what splitting says, then for what follows the image, and for
its arrays last.  The view that is found from the header of an opened file reaches no byte outside
the file and is that of its bytes, and it turns into their pattern.  A pattern that is written to a
file is opened as it was.  The bounds are those of any stretch of memory. -/
theorem load_oneImage (store : Store) (path : String) :
    (∀ content, store.read? path = some content → content.length < Pattern.vectorLimit →
      ((∃ f, load store path = .ok f) ↔ (∃ p, Pattern.ofBytes content = .ok p) ∧ IsBlock content) ∧
      (∀ fault, Sections.ofBytes content = .error fault → load store path = .error (.fault fault)) ∧
      (∀ s, Sections.ofBytes content = .ok s → s.header.imageSize ≠ .ok content.length →
        ∃ defect : Defect, load store path = .error (.fault (.malformed defect)) ∧
          defect.reason = "trailing bytes after pattern image") ∧
      (∀ fault, IsBlock content → Pattern.ofBytes content = .error fault →
        load store path = .error (.fault fault)) ∧
      ∀ f, load store path = .ok f →
        f.path = path ∧ f.content = content ∧ Header.ofBytes content = .ok f.header ∧
          f.header.Locates content.length ∧
          (∀ address, address % Header.alignment = 0 → View.ofBytes content address = .ok f.view) ∧
          ∃ p, Pattern.ofBytes content = .ok p ∧ f.toPattern = .ok p) ∧
    ∀ p written, p.WellFormed → p.byteCount < Pattern.vectorLimit →
      write store path p = .ok written →
        ∃ f, load written path = .ok f ∧ f.header = p.header ∧ f.size = p.imageSize ∧
          f.toPattern = .ok p := by
  constructor
  · intro content hread hmemory
    refine ⟨exists_load_iff hread hmemory, ?split, ?trailing, ?arrays, ?opened⟩
    case split =>
      exact fun fault hsplit => load_of_error hread (Sections.ofExactBytes_of_error hsplit)
    case trailing =>
      intro s hsplit himage
      have hs := Sections.ofBytes_eq_ok_iff.1 hsplit
      have hlen : content.length ≠ s.header.byteCount := by
        intro hlen
        rw [hlen] at himage
        exact himage (Header.imageSize_of_ofBytes hs.header)
      exact ⟨.trailingBytes, load_of_error hread (Sections.ofExactBytes_of_length_ne hs hlen), rfl⟩
    case arrays => exact fun fault hblock hfault => load_of_array_error hread hmemory hblock hfault
    case opened =>
      intro f hf
      obtain ⟨s, hs, -, -, heq⟩ := (load_eq_ok_iff hread).1 hf
      subst heq
      exact ⟨rfl, rfl, hs.header, hs.locates, fun address => view_of_load hread hf,
        toPattern_of_load hread hmemory hf⟩
  · intro p written hp hmemory hwrite
    have hsize : p.byteCount < sizeLimit := Nat.lt_trans hmemory (by decide)
    have hlen := Pattern.length_toBytes hp hsize
    have hload := load_write hp hmemory hwrite
    obtain ⟨q, hq, hpattern⟩ := toPattern_of_load (Store.read?_write hwrite) (by rwa [hlen]) hload
    rw [Pattern.ofBytes_toBytes_of_lt hp hmemory, Except.ok.injEq] at hq
    refine ⟨_, hload, rfl, ?_, by rw [hpattern, hq]⟩
    show p.toBytes.length = p.imageSize
    rw [hlen, Pattern.imageSize_eq hsize]

/-- Three files: an image with bytes behind it, the same without them, and one whose last column is
out of range. -/
def shelf : Store :=
  { files := [("trailing", Pattern.relocated), ("whole", Pattern.relocated.take 132),
    ("spoiled", Source.spoiled)] }

theorem load_oneImage_shelf :
    (∃ defect : Defect, load shelf "trailing" = .error (.fault (.malformed defect)) ∧
      defect.reason = "trailing bytes after pattern image") ∧
    (∃ f, load shelf "whole" = .ok f ∧ f.toPattern = .ok Pattern.leading) ∧
    load shelf "spoiled" = .error (.fault (.malformed .columnBeyondRange)) ∧
    ∃ written f, write shelf "new" Pattern.leading = .ok written ∧ load written "new" = .ok f ∧
      f.toPattern = .ok Pattern.leading := by
  have opens (path : String) := load_oneImage shelf path
  refine ⟨?trailing, ?whole, ?spoiled, ?new⟩
  case trailing =>
    have hmemory : Pattern.relocated.length < Pattern.vectorLimit := by decide +kernel
    obtain ⟨s, hs, -⟩ := Pattern.ofBytes_eq_ok_iff.1 Pattern.ofBytes_relocated
    have himage : s.header.imageSize ≠ .ok Pattern.relocated.length := by
      rw [← (Header.ofBytes_eq_ok_iff.1 hs.header).2.1]
      decide +kernel
    obtain ⟨-, -, htrailing, -⟩ := (opens "trailing").1 Pattern.relocated rfl hmemory
    exact htrailing s (Sections.ofBytes_eq_ok_iff.2 hs) himage
  case whole =>
    have hmemory : (Pattern.relocated.take 132).length < Pattern.vectorLimit := by decide +kernel
    have hpattern : Pattern.ofBytes (Pattern.relocated.take 132) = .ok Pattern.leading := by
      decide +kernel
    have hblock : IsBlock (Pattern.relocated.take 132) :=
      ⟨Header.read Pattern.relocated, by decide +kernel, by decide +kernel⟩
    obtain ⟨hopened, -, -, -, hview⟩ := (opens "whole").1 (Pattern.relocated.take 132) rfl hmemory
    obtain ⟨f, hf⟩ := hopened.2 ⟨⟨_, hpattern⟩, hblock⟩
    obtain ⟨-, -, -, -, -, p, hp, htoPattern⟩ := hview f hf
    rw [hpattern, Except.ok.injEq] at hp
    exact ⟨f, hf, by rw [htoPattern, hp]⟩
  case spoiled =>
    have hmemory : Source.spoiled.length < Pattern.vectorLimit := by decide +kernel
    have hblock : IsBlock Source.spoiled :=
      ⟨Pattern.leading.header, by decide +kernel, by decide +kernel⟩
    obtain ⟨-, -, -, harrays, -⟩ := (opens "spoiled").1 Source.spoiled rfl hmemory
    exact harrays _ hblock (by decide +kernel)
  case new =>
    obtain ⟨f, hf, -, -, htoPattern⟩ :=
      (opens "new").2 Pattern.leading _ (by decide) (by decide) rfl
    exact ⟨_, f, rfl, hf, htoPattern⟩

end ImageFile

end SparsePattern
