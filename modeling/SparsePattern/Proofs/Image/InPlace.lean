import SparsePattern.Proofs.Image.Sections
import SparsePattern.View

/-!
# Images read in place

A view reads the arrays of an image where they stand.  At an aligned address it is had of just the
bytes that hold a pattern, and it is a view of that pattern; elsewhere no image has a view
(`View.ofBytes_agrees`).
-/

namespace SparsePattern.View

open Rows (bind_eq_ok require_bind_of_not require_eq_ok)

variable {s : Sections} {bytes : Bytes} {address : Nat}

/-! ### Arrays in memory -/

/-- An array at an aligned address is read as its bytes decode. -/
private theorem readInPlace_eq {width count : Nat} {stretch : Bytes} (hw : 0 < width)
    (haligned : address % width = 0) (hlen : stretch.length = width * count) (defect : Defect) :
    readInPlace width address stretch defect =
      .ok (LittleEndian.decodeArray width count stretch) := by
  have hfill : address % width = 0 ∧ stretch.length % width = 0 :=
    ⟨haligned, by rw [hlen, Nat.mul_mod_right]⟩
  rw [readInPlace, require_eq_ok.2 hfill, Rows.ok_bind, hlen, Nat.mul_div_cancel_left count hw]
  rfl

private theorem readInPlace_of_unaligned {width : Nat} (h : address % width ≠ 0) (stretch : Bytes)
    (defect : Defect) : readInPlace width address stretch defect = .error (.malformed defect) :=
  require_bind_of_not fun hfill => h hfill.1

/-! ### Views of images -/

/-- The view of what the sections state. -/
def borrowed (s : Sections) : View where
  header := s.header
  rowStart := s.layout.rowStart
  columns := s.layout.columns

/-- The check of a view visits all rows for the longest, where that of a pattern compares its
offsets. -/
theorem ofSections_eq (hs : s.Of bytes) (haligned : address % Header.alignment = 0) :
    ofSections address s = s.check >>= fun _ => .ok (borrowed s) := by
  have hv := hs.valid
  have hoffsets : (address + s.header.offsetsStart.toNat) % Header.offsetWidth = 0 := by
    have := hv.offsets_aligned
    simp only [Header.alignment, Header.offsetWidth] at *
    omega
  have hcolumns : (address + s.header.columnsStart.toNat) % Header.columnWidth = 0 := by
    have := hv.columns_aligned
    simp only [Header.alignment, Header.columnWidth] at *
    omega
  rw [ofSections, readInPlace_eq (by decide) hoffsets hs.length_offsets, Rows.ok_bind,
    readInPlace_eq (by decide) hcolumns hs.length_columns, Rows.ok_bind, Sections.check]
  show (s.layout.check >>= fun _ => _) = _
  cases hcheck : s.layout.check with
  | error fault => rfl
  | ok u =>
    have hwf := Layout.check_eq_ok_iff.1 hcheck
    show (s.layout.scanLongestRow >>= fun _ => _) = _
    rw [hwf.scanLongestRow_eq]
    rfl

private theorem ofBytes_eq (hs : s.Of bytes) (haligned : address % Header.alignment = 0) :
    ofBytes bytes address = s.check >>= fun _ => .ok (borrowed s) := by
  rw [ofBytes, Sections.ofBytes_eq_ok_iff.2 hs, Rows.ok_bind, ofSections_eq hs haligned]

private theorem ofBytes_of_unaligned (hunaligned : address % Header.alignment ≠ 0) :
    ofBytes bytes address = Sections.ofBytes bytes >>= fun _ =>
      .error (.malformed .unalignedOffsets) := by
  rw [ofBytes]
  cases hs : Sections.ofBytes bytes with
  | error fault => rfl
  | ok s =>
    -- the offsets are aligned within the image, so that they are not in memory
    have hoffsets : (address + s.header.offsetsStart.toNat) % Header.offsetWidth ≠ 0 := by
      have := (Sections.ofBytes_eq_ok_iff.1 hs).valid.offsets_aligned
      simp only [Header.alignment, Header.offsetWidth] at *
      omega
    rw [Rows.ok_bind, Rows.ok_bind, ofSections, readInPlace_of_unaligned hoffsets, Rows.error_bind]

/-- Bytes have a view at aligned addresses, if they split and the arrays pass their check. -/
theorem ofBytes_eq_ok_iff {v : View} :
    ofBytes bytes address = .ok v ↔
      address % Header.alignment = 0 ∧
        ∃ s : Sections, s.Of bytes ∧ s.check = .ok () ∧ borrowed s = v := by
  constructor
  · intro h
    obtain ⟨s, hs, -⟩ := bind_eq_ok.1 h
    have haligned : address % Header.alignment = 0 := by
      by_contra hunaligned
      rw [ofBytes_of_unaligned hunaligned, hs, Rows.ok_bind] at h
      cases h
    have hs := Sections.ofBytes_eq_ok_iff.1 hs
    rw [ofBytes_eq hs haligned] at h
    obtain ⟨_, hcheck, hv⟩ := bind_eq_ok.1 h
    exact ⟨haligned, s, hs, hcheck, Except.ok.inj hv⟩
  · rintro ⟨haligned, s, hs, hcheck, rfl⟩
    rw [ofBytes_eq hs haligned, hcheck, Rows.ok_bind]

/-- Bytes that hold a pattern have a view at every aligned address. -/
theorem exists_of_pattern {p : Pattern} (hp : Pattern.ofBytes bytes = .ok p)
    (haligned : address % Header.alignment = 0) : ∃ v, ofBytes bytes address = .ok v := by
  obtain ⟨s, hs, -, hcheck, -⟩ := Pattern.ofBytes_eq_ok_iff.1 hp
  exact ⟨borrowed s, ofBytes_eq_ok_iff.2 ⟨haligned, s, hs, hcheck, rfl⟩⟩

theorem toPattern_borrowed (hcheck : s.check = .ok ()) :
    (borrowed s).toPattern = .ok (Pattern.ofSections s) := by
  have hwf := (Sections.check_eq_ok_iff.1 hcheck).1
  exact Pattern.ofLayout_eq_ok_iff.2 ⟨⟨hwf, rfl⟩, rfl⟩

/-- At an aligned address, bytes have a view exactly if they hold a pattern, and are refused for the
same fault otherwise; the view has the header of the image and turns into that very pattern.
Elsewhere the offsets of every image are out of line.  The bound is that of any stretch of
memory. -/
theorem ofBytes_agrees (bytes : Bytes) (address : Nat) :
    (address % Header.alignment = 0 → bytes.length < Pattern.vectorLimit →
      ((∃ v, ofBytes bytes address = .ok v) ↔ ∃ p, Pattern.ofBytes bytes = .ok p) ∧
      (∀ fault, ofBytes bytes address = .error fault ↔ Pattern.ofBytes bytes = .error fault) ∧
      ∀ v, ofBytes bytes address = .ok v →
        v.toPattern = Pattern.ofBytes bytes ∧ Header.ofBytes bytes = .ok v.header) ∧
    (address % Header.alignment ≠ 0 →
      ofBytes bytes address = Sections.ofBytes bytes >>= fun _ =>
        .error (.malformed .unalignedOffsets)) := by
  refine ⟨fun haligned hmemory => ?_, ofBytes_of_unaligned⟩
  cases hsplit : Sections.ofBytes bytes with
  | error fault =>
    have hview : ofBytes bytes address = .error fault := by rw [ofBytes, hsplit, Rows.error_bind]
    have hpattern : Pattern.ofBytes bytes = .error fault := by
      rw [Pattern.ofBytes, hsplit, Rows.error_bind]
    simp [hview, hpattern]
  | ok s =>
    have hs := Sections.ofBytes_eq_ok_iff.1 hsplit
    rw [ofBytes_eq hs haligned, Pattern.ofBytes_eq hs (hs.fits hmemory)]
    cases hcheck : s.check with
    | error fault => simp
    | ok u =>
      refine ⟨by simp, by simp, fun v hv => ?_⟩
      obtain rfl := Except.ok.inj hv
      exact ⟨toPattern_borrowed hcheck, hs.header⟩

theorem ofBytes_agrees_relocated :
    Pattern.relocated.length < Pattern.vectorLimit ∧ 16 % Header.alignment = 0 ∧
      20 % Header.alignment ≠ 0 ∧
      (∃ v, ofBytes Pattern.relocated 16 = .ok v ∧ v.toPattern = .ok Pattern.leading) ∧
      ofBytes Pattern.relocated 20 = .error (.malformed .unalignedOffsets) := by
  have hmemory : Pattern.relocated.length < Pattern.vectorLimit := by decide +kernel
  have haligned : 16 % Header.alignment = 0 := by decide
  have hunaligned : 20 % Header.alignment ≠ 0 := by decide
  have hpattern := Pattern.ofBytes_relocated
  obtain ⟨haccepted, -, hview⟩ := (ofBytes_agrees Pattern.relocated 16).1 haligned hmemory
  obtain ⟨v, hv⟩ := haccepted.2 ⟨_, hpattern⟩
  obtain ⟨s, hs, -⟩ := Pattern.ofBytes_eq_ok_iff.1 hpattern
  refine ⟨hmemory, haligned, hunaligned, ⟨v, hv, (hview v hv).1.trans hpattern⟩, ?_⟩
  rw [(ofBytes_agrees Pattern.relocated 20).2 hunaligned, Sections.ofBytes_eq_ok_iff.2 hs,
    Rows.ok_bind]

end SparsePattern.View
