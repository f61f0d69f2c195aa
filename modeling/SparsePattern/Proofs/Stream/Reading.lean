import SparsePattern.Proofs.Image.Sections
import SparsePattern.Proofs.Stream.Pieces
import SparsePattern.Stream.Block

/-!
# Reading an image off a stream

A pattern is read off a source in two goes: the header, and as much as that states.  This gives what
decoding all bytes of the source at once gives and takes off no more than the image
(`Source.readPattern_eq`), however the source divides them and wherever it fails
(`Source.readPattern_matches_ofBytes`).
-/

namespace SparsePattern

/-! ### The image at the front -/

namespace Header

variable {bytes : Bytes} {h : Header}

/-- How many bytes are read for the image at the front of `bytes`: as many as its header states if
that is accepted, and those of a header otherwise. -/
def blockSize (bytes : Bytes) : Nat :=
  match ofBytes (bytes.take size) >>= imageSize with
  | .ok n => n
  | .error _ => size

/-- Behind an accepted header the block is the whole image. -/
theorem blockSize_of_ok (hread : ofBytes bytes = .ok h) : blockSize bytes = h.byteCount := by
  rw [blockSize, ofBytes_take (Nat.le_refl _), hread, Rows.ok_bind, imageSize_of_ofBytes hread]

private theorem blockSize_of_error {fault : Fault} (hread : ofBytes bytes = .error fault) :
    blockSize bytes = size := by
  rw [blockSize, ofBytes_take (Nat.le_refl _), hread, Rows.error_bind]

private theorem size_le_blockSize (bytes : Bytes) : size ≤ blockSize bytes := by
  cases hread : ofBytes bytes with
  | error fault => exact Nat.le_of_eq (blockSize_of_error hread).symm
  | ok h =>
    rw [blockSize_of_ok hread]
    exact Nat.le_of_lt (valid_of_ofBytes hread).size_lt_byteCount

/-- Bytes that are too few for a header are refused as truncated. -/
theorem ofBytes_of_length_lt (hlen : bytes.length < size) :
    ofBytes bytes = .error (.malformed .truncatedHeader) :=
  Rows.require_bind_of_not (Nat.not_le.2 hlen)

end Header

/-! ### Reading it -/

namespace Source

variable {s : Source}

private theorem readExactly_of_le (hgrain : ∀ n, 0 < s.grain n) {wanted : Nat}
    (hle : wanted ≤ s.reach) (short : Defect) :
    s.readExactly wanted short = (s.advance wanted, .ok (s.pending.take wanted)) := by
  have hlen : (s.pending.take wanted).length = wanted := by
    have := s.reach_le
    rw [List.length_take]
    omega
  simp [readExactly, collect_eq hgrain, Nat.min_eq_left hle, Nat.not_lt.2 hle, hlen]

/-- A source that does not reach far enough is emptied, and its own failure comes before the
shortage. -/
private theorem readExactly_of_lt (hgrain : ∀ n, 0 < s.grain n) {wanted : Nat}
    (hlt : s.reach < wanted) (short : Defect) :
    s.readExactly wanted short = (s.advance s.reach,
      .error (if (s.advance s.reach).isBroken then .io s.reason
        else .fault (.malformed short))) := by
  have hlen : min s.reach s.pending.length < wanted := Nat.lt_of_le_of_lt (Nat.min_le_left _ _) hlt
  cases hbroken : (s.advance s.reach).isBroken <;>
    simp [readExactly, collect_eq hgrain, Nat.min_eq_right (Nat.le_of_lt hlt), hlt, hlen, hbroken]

/-- Once its header is accepted, an image is taken off as far as it is there. -/
private theorem readPattern_of_header (hgrain : ∀ n, 0 < s.grain n) (hhead : Header.size ≤ s.reach)
    {h : Header} (hread : Header.ofBytes s.pending = .ok h) :
    s.readPattern = (s.advance (min h.byteCount s.reach),
      if s.reach < h.byteCount ∧ (s.advance s.reach).isBroken = true then .error (.io s.reason)
      else (Pattern.ofBytes s.pending).mapError .fault) := by
  have hcount := (Header.valid_of_ofBytes hread).size_lt_byteCount
  have hgrain' : ∀ n, 0 < (s.advance Header.size).grain n := hgrain
  have himage : (Header.ofBytes (s.pending.take Header.size) >>= fun h => h.imageSize) =
      .ok h.byteCount := by
    rw [Header.ofBytes_take (Nat.le_refl _), hread, Rows.ok_bind, Header.imageSize_of_ofBytes hread]
  rw [readPattern, readExactly_of_le hgrain hhead]
  simp only [himage]
  rcases Nat.lt_or_ge s.reach h.byteCount with hshort | hwhole
  · -- the source ends or fails within the arrays
    have hrest : (s.advance Header.size).reach < h.byteCount - Header.size := by
      rw [reach_advance]
      omega
    have hstop : Header.size + (s.reach - Header.size) = s.reach := by omega
    rw [readExactly_of_lt hgrain' hrest, reach_advance, advance_advance, hstop,
      Nat.min_eq_right (Nat.le_of_lt hshort)]
    cases hbroken : (s.advance s.reach).isBroken with
    | true => simp [hshort, advance]
    | false =>
      rw [reach_of_not_isBroken hbroken] at hshort
      simp [Pattern.ofBytes_of_lt hread hshort, Except.mapError]
  · have hrest : h.byteCount - Header.size ≤ (s.advance Header.size).reach := by
      rw [reach_advance]
      omega
    have hstop : Header.size + (h.byteCount - Header.size) = h.byteCount := by omega
    have hbytes : s.pending.take Header.size ++
        (s.advance Header.size).pending.take (h.byteCount - Header.size) =
        s.pending.take h.byteCount := by
      rw [← hstop, List.take_add, hstop]
      rfl
    rw [readExactly_of_le hgrain' hrest, advance_advance, hstop, Nat.min_eq_left hwhole]
    simp only [hbytes, Pattern.ofBytes_take hread (Nat.le_refl _), Nat.not_lt.2 hwhole, false_and,
      if_false]

/-- Reading takes off the block at the front or what there is of it.  It gives what decoding all
bytes at once gives, unless the source fails within the block. -/
theorem readPattern_eq (hgrain : ∀ n, 0 < s.grain n) :
    s.readPattern = (s.advance (min (Header.blockSize s.pending) s.reach),
      if s.reach < Header.blockSize s.pending ∧ (s.advance s.reach).isBroken = true then
        .error (.io s.reason)
      else (Pattern.ofBytes s.pending).mapError .fault) := by
  rcases Nat.lt_or_ge s.reach Header.size with hshort | hhead
  · -- the source ends or fails within the header
    have hlt : s.reach < Header.blockSize s.pending :=
      Nat.lt_of_lt_of_le hshort (Header.size_le_blockSize _)
    rw [readPattern, readExactly_of_lt hgrain hshort, Nat.min_eq_right (Nat.le_of_lt hlt)]
    cases hbroken : (s.advance s.reach).isBroken with
    | true => simp [hlt]
    | false =>
      rw [reach_of_not_isBroken hbroken] at hshort
      simp [Pattern.ofBytes_of_header_error (Header.ofBytes_of_length_lt hshort), Except.mapError]
  · cases hread : Header.ofBytes s.pending with
    | error fault =>
      have hge : ¬ s.reach < Header.size := Nat.not_lt.2 hhead
      rw [readPattern, readExactly_of_le hgrain hhead, Header.blockSize_of_error hread,
        Nat.min_eq_left hhead]
      simp [Header.ofBytes_take, hread, hge, Pattern.ofBytes_of_header_error hread, Except.mapError]
    | ok h =>
      rw [Header.blockSize_of_ok hread]
      exact readPattern_of_header hgrain hhead hread

/-- A source that does not fail gives what decoding all of it at once gives. -/
theorem readPattern_of_none (hgrain : ∀ n, 0 < s.grain n) (hsound : s.breaksAfter = none) :
    s.readPattern = (s.advance (min (Header.blockSize s.pending) s.pending.length),
      (Pattern.ofBytes s.pending).mapError .fault) := by
  have hunbroken : (s.advance s.pending.length).isBroken = false := by
    simp only [isBroken, advance, hsound]
  rw [readPattern_eq hgrain, reach_of_none hsound, hunbroken]
  simp

/-- A source without failure gives what its bytes give at once, and stands behind the block at its
front or at its own end.  One that fails after `f` bytes says so if the block is longer than that,
having handed out just these bytes; otherwise its failure is not noticed. -/
theorem readPattern_matches_ofBytes (hgrain : ∀ n, 0 < s.grain n) :
    (s.breaksAfter = none →
      s.readPattern =
        (s.advance (min (Header.blockSize s.pending) s.pending.length),
          (Pattern.ofBytes s.pending).mapError .fault)) ∧
    ∀ f ≤ s.pending.length, s.breaksAfter = some (s.given + f) →
      s.readPattern =
        if f < Header.blockSize s.pending then (s.advance f, .error (.io s.reason))
        else
          (s.advance (min (Header.blockSize s.pending) s.pending.length),
            (Pattern.ofBytes s.pending).mapError .fault) := by
  refine ⟨readPattern_of_none hgrain, ?_⟩
  intro f hf hfails
  have hreach : s.reach = f := by
    rw [reach_of_some hfails]
    omega
  have hbroken : (s.advance f).isBroken = true := by simp [isBroken, advance, hfails]
  rw [readPattern_eq hgrain, hreach]
  rcases Nat.lt_or_ge f (Header.blockSize s.pending) with hlt | hge
  · simp [hlt, hbroken, Nat.min_eq_right (Nat.le_of_lt hlt)]
  · simp [Nat.not_lt.2 hge, Nat.min_eq_left hge, Nat.min_eq_left (Nat.le_trans hge hf)]

/-- The image that stands apart, handed out in pieces of one to three bytes. -/
def trickle : Source :=
  { pending := Pattern.relocated, grain := fun n => n % 3 + 1, reason := "reset" }

theorem readPattern_matches_ofBytes_trickle :
    (∀ n, 0 < trickle.grain n) ∧ trickle.readPattern = (trickle.advance 132, .ok Pattern.leading) ∧
      Source.readPattern { trickle with breaksAfter := some 100 } =
        (Source.advance { trickle with breaksAfter := some 100 } 100, .error (.io "reset")) := by
  have hgrain : ∀ n, 0 < trickle.grain n := fun n => Nat.succ_pos _
  have hpending : trickle.pending = Pattern.relocated := rfl
  have hblock : Header.blockSize Pattern.relocated = 132 := by decide +kernel
  have hlen : Pattern.relocated.length = 135 := by decide +kernel
  refine ⟨hgrain, ?_, ?_⟩
  · have h := (readPattern_matches_ofBytes hgrain).1 rfl
    rwa [hpending, hblock, hlen, Pattern.ofBytes_relocated] at h
  · have hlate : 100 ≤ trickle.pending.length := by rw [hpending, hlen]; decide
    have h := (readPattern_matches_ofBytes (s := { trickle with breaksAfter := some 100 }) hgrain).2
      100 hlate rfl
    rwa [hpending, hblock] at h

end Source

end SparsePattern
