import SparsePattern.Proofs.Image.Acceptance
import SparsePattern.Proofs.Image.Canonical

/-!
# Bytes that matter

Some bytes of an image are never looked at: two fields of its header, the gaps around its arrays and
all that follows (`Header.Idle`).  Images that differ in these alone decode alike
(`Pattern.ofBytes_eq_of_idle`).  No byte of the two arrays (`Header.Loaded`) can change without
another result: a pattern leaves no choice for them (`Pattern.getElem?_eq_of_ofBytes`).
-/

namespace SparsePattern

variable {bytes bytes' : Bytes}

private theorem stretch_congr {start count : Nat}
    (h : ∀ i, start ≤ i → i < start + count → bytes'[i]? = bytes[i]?) :
    (bytes'.drop start).take count = (bytes.drop start).take count := by
  refine List.ext_getElem? fun k => ?_
  rw [List.getElem?_take, List.getElem?_take]
  split
  · rw [List.getElem?_drop, List.getElem?_drop]
    exact h (start + k) (Nat.le_add_right _ _) (by omega)
  · rfl

private theorem getElem?_eq_of_stretch_eq {start count i : Nat}
    (h : (bytes'.drop start).take count = (bytes.drop start).take count) (hi : start ≤ i)
    (hi' : i < start + count) : bytes'[i]? = bytes[i]? := by
  obtain ⟨k, rfl⟩ := Nat.exists_eq_add_of_le hi
  have hk : k < count := by omega
  have hplace := congrArg (·[k]?) h
  simpa only [List.getElem?_take_of_lt hk, List.getElem?_drop] using hplace

/-! ### Positions -/

namespace Header

variable {h : Header}

/-- The position holds an unused field of the header, or lies in a gap or behind the image. -/
def Idle (h : Header) (i : Nat) : Prop :=
  i = 7 ∨ (56 ≤ i ∧ i < size) ∨ (size ≤ i ∧ i < h.offsetsStart.toNat) ∨
    (h.offsetsStart.toNat + offsetWidth * (h.nRows.toNat + 1) ≤ i ∧ i < h.columnsStart.toNat) ∨
      h.byteCount ≤ i

/-- The position holds a byte of the row offsets or of the columns. -/
def Loaded (h : Header) (i : Nat) : Prop :=
  (h.offsetsStart.toNat ≤ i ∧ i < h.offsetsStart.toNat + offsetWidth * (h.nRows.toNat + 1)) ∨
    (h.columnsStart.toNat ≤ i ∧ i < h.byteCount)

instance (h : Header) (i : Nat) : Decidable (h.Idle i) := inferInstanceAs (Decidable (_ ∨ _))

instance (h : Header) (i : Nat) : Decidable (h.Loaded i) := inferInstanceAs (Decidable (_ ∨ _))

namespace Valid

/-- The arrays do not meet the gaps, and what follows them lies behind the image. -/
private theorem not_idle_of_loaded (hv : h.Valid) {i : Nat} (hi : h.Loaded i) : ¬ h.Idle i := by
  have hstart := hv.size_le_offsets
  have hend := hv.offsets_le_columns
  have hcount : h.byteCount = h.columnsStart.toNat + columnWidth * h.entryCount.toNat := rfl
  unfold Loaded at hi
  unfold Idle
  unfold size at *
  omega

private theorem size_le_of_loaded (hv : h.Valid) {i : Nat} (hi : h.Loaded i) : size ≤ i := by
  have hstart := hv.size_le_offsets
  have hend := hv.offsets_le_columns
  unfold Loaded at hi
  omega

end Valid

/-! ### Headers that differ in unused fields -/

/-- The header with other values in its unused fields. -/
def refill (h : Header) (spare : UInt8) (reserved : UInt64) : Header := { h with spare, reserved }

private theorem Valid.refill (hv : h.Valid) (spare : UInt8) (reserved : UInt64) :
    (h.refill spare reserved).Valid :=
  ⟨hv.indexWidth_eq, hv.flags_known, hv.nCols_lt, hv.square, hv.longestRow_le_nCols,
    hv.longestRow_le_entryCount, hv.size_le_offsets, hv.offsets_aligned, hv.offsets_le_columns,
    hv.columns_aligned, hv.columns_lt_limit⟩

private theorem read_eq_refill (hsame : ∀ i < 56, i ≠ 7 → bytes'[i]? = bytes[i]?) :
    read bytes' = (read bytes).refill (read bytes').spare (read bytes').reserved := by
  have hfield {start width : Nat} (h : start + width ≤ 7 ∨ (8 ≤ start ∧ start + width ≤ 56)) :
      field bytes' start width = field bytes start width :=
    congrArg LittleEndian.decode (stretch_congr fun i hi hi' => hsame i (by omega) (by omega))
  simp (disch := omega) only [read, refill, hfield]

/-- Two stretches of a header can be anything, and are read as they are. -/
private theorem ofBytes_refill (hread : ofBytes bytes = .ok h) (hlen : size ≤ bytes'.length)
    (hsame : ∀ i < 56, i ≠ 7 → bytes'[i]? = bytes[i]?) :
    ∃ spare reserved, ofBytes bytes' = .ok (h.refill spare reserved) := by
  obtain ⟨-, rfl, hmagic, hversion, hv⟩ := ofBytes_eq_ok_iff.1 hread
  exact ⟨_, _, ofBytes_eq_ok_iff.2 ⟨hlen, read_eq_refill hsame, hmagic, hversion, hv.refill _ _⟩⟩

end Header

/-! ### Images -/

namespace Pattern

variable {p : Pattern} {h : Header}

/-- Bytes that nothing is read from can be anything. -/
theorem ofBytes_eq_of_idle (hp : ofBytes bytes = .ok p) (hread : Header.ofBytes bytes = .ok h)
    (hlen : h.byteCount ≤ bytes'.length) (hsame : ∀ i, ¬ h.Idle i → bytes'[i]? = bytes[i]?) :
    ofBytes bytes' = .ok p := by
  obtain ⟨s, hs, hfits, hcheck, rfl⟩ := ofBytes_eq_ok_iff.1 hp
  obtain rfl : s.header = h := Except.ok.inj (hs.header.symm.trans hread)
  have hv := hs.valid
  have hsize := hv.size_lt_byteCount
  have hfront : ∀ i < 56, i ≠ 7 → bytes'[i]? = bytes[i]? := by
    intro i hi hne
    have hstart := hv.size_le_offsets
    have hend := hv.offsets_le_columns
    refine hsame i ?_
    unfold Header.Idle
    unfold Header.size at *
    omega
  obtain ⟨spare, reserved, hread'⟩ :=
    Header.ofBytes_refill hs.header (Nat.le_trans (Nat.le_of_lt hsize) hlen) hfront
  -- the sections of the other image differ in what the header leaves unused, which nothing is
  -- computed from
  have hs' : Sections.Of { s with header := s.header.refill spare reserved } bytes' := by
    refine ⟨hread', hlen, hs.offsets_eq.trans ?_, hs.columns_eq.trans ?_⟩
    · refine (stretch_congr fun i hi hi' => hsame i ?_).symm
      exact hv.not_idle_of_loaded (.inl ⟨hi, hi'⟩)
    · refine (stretch_congr fun i hi hi' => hsame i ?_).symm
      exact hv.not_idle_of_loaded (.inr ⟨hi, hi'⟩)
  exact ofBytes_eq_ok_iff.2 ⟨_, hs', hfits, hcheck, rfl⟩

/-- Bytes that are read are told by the pattern and the header. -/
theorem getElem?_eq_of_ofBytes (hp : ofBytes bytes = .ok p) (hp' : ofBytes bytes' = .ok p)
    (hread : Header.ofBytes bytes = .ok h) (hread' : Header.ofBytes bytes' = .ok h) {i : Nat}
    (hi : h.Loaded i) : bytes'[i]? = bytes[i]? := by
  obtain ⟨s, hs, -, -, rfl⟩ := ofBytes_eq_ok_iff.1 hp
  obtain ⟨s', hs', -, -, heq⟩ := ofBytes_eq_ok_iff.1 hp'
  obtain rfl : s.header = h := Except.ok.inj (hs.header.symm.trans hread)
  have hheader : s'.header = s.header := Except.ok.inj (hs'.header.symm.trans hread')
  -- the sections are what the pattern is encoded as
  have hoffsets : s'.offsets = s.offsets := by
    rw [← offsetsBytes_ofSections hs', heq, offsetsBytes_ofSections hs]
  have hcolumns : s'.columns = s.columns := by
    rw [← columnsBytes_ofSections hs', heq, columnsBytes_ofSections hs]
  rw [hs'.offsets_eq, hs.offsets_eq, hheader] at hoffsets
  rw [hs'.columns_eq, hs.columns_eq, hheader] at hcolumns
  rcases hi with ⟨hi, hi'⟩ | ⟨hi, hi'⟩
  · exact getElem?_eq_of_stretch_eq hoffsets hi hi'
  · exact getElem?_eq_of_stretch_eq hcolumns hi hi'

/-- In an image that is accepted any byte of an unused field, in a gap or behind the image may be
replaced without a change of the pattern.  A byte of the arrays may not: another value there leads
to another pattern or to a refusal. -/
theorem ofBytes_set (hp : ofBytes bytes = .ok p) :
    ∃ header, Header.ofBytes bytes = .ok header ∧ header.imageSize = .ok header.byteCount ∧ ∀ i b,
      (header.Idle i → ofBytes (bytes.set i b) = .ok p) ∧
        (header.Loaded i → bytes[i]? ≠ some b → ofBytes (bytes.set i b) ≠ .ok p) := by
  obtain ⟨s, hs, -⟩ := ofBytes_eq_ok_iff.1 hp
  have hlen : s.header.byteCount ≤ bytes.length := hs.byteCount_le
  refine ⟨s.header, hs.header, Header.imageSize_of_ofBytes hs.header,
    fun i b => ⟨fun hi => ?_, fun hi hne hset => ?_⟩⟩
  · refine ofBytes_eq_of_idle hp hs.header (by rwa [List.length_set]) fun j hj => ?_
    have hji : i ≠ j := by
      rintro rfl
      exact hj hi
    exact List.getElem?_set_ne hji
  · have hfront := hs.valid.size_le_of_loaded hi
    have hread : Header.ofBytes (bytes.set i b) = .ok s.header := by
      rw [← hs.header]
      exact Header.ofBytes_congr (List.take_set_of_le hfront)
    have hsame := getElem?_eq_of_ofBytes hp hset hs.header hread hi
    have hlt : i < bytes.length := by
      have hend := hs.valid.offsets_le_byteCount
      unfold Header.Loaded at hi
      omega
    rw [List.getElem?_set_self hlt] at hsame
    exact hne hsame.symm

/-- Each array of `relocated` stands behind a gap, and three bytes follow the image. -/
theorem ofBytes_set_relocated :
    ofBytes relocated = .ok leading ∧
      (∀ i ∈ [7, 60, 70, 107, 134], ∀ b, ofBytes (relocated.set i b) = .ok leading) ∧
      ofBytes (relocated.set 79 1) ≠ .ok leading ∧ ofBytes (relocated.set 115 1) ≠ .ok leading := by
  have hp := ofBytes_relocated
  obtain ⟨header, hread, -, hset⟩ := ofBytes_set hp
  obtain rfl := (Header.ofBytes_eq_ok_iff.1 hread).2.1
  have hidle : ∀ i ∈ [7, 60, 70, 107, 134], (Header.read relocated).Idle i := by decide +kernel
  -- the last bytes of the first offset and of the first column
  have hoffset : (Header.read relocated).Loaded 79 := by decide +kernel
  have hcolumn : (Header.read relocated).Loaded 115 := by decide +kernel
  refine ⟨hp, fun i hi b => (hset i b).1 (hidle i hi), (hset 79 1).2 hoffset ?_,
    (hset 115 1).2 hcolumn ?_⟩
  · decide +kernel
  · decide +kernel

end Pattern

end SparsePattern
