import SparsePattern.Proofs.Image.File

/-!
# Interrupted writes

A sink that becomes full has taken the front of an image, up to its last byte or all of it
(`Sink.putPattern_of_capacity`).  The front of an image that lacks a byte is no image: the header or
the arrays are said to be cut short wherever it is read (`Pattern.toBytes_interrupted`).
-/

namespace SparsePattern

/-! ### Full sinks -/

namespace Sink

variable {s : Sink} {n : Nat}

private theorem room_of_capacity (h : s.capacity = some (s.taken.length + n)) (offered : Nat) :
    s.room offered = min offered n := by
  simp only [room, h, Nat.add_sub_cancel_left]

/-- A sink with room for `n` bytes takes the first `n` of an image, and fails unless these are
all. -/
theorem putPattern_of_capacity (h : s.capacity = some (s.taken.length + n)) (p : Pattern) :
    s.putPattern p =
      ({ s with taken := s.taken ++ p.toBytes.take n },
        if p.toBytes.length ≤ n then none else some (.io s.reason)) := by
  have hroom := room_of_capacity h p.toBytes.length
  rw [putPattern, put_eq, hroom]
  rcases Nat.lt_or_ge n p.toBytes.length with hshort | hwhole
  · simp [Nat.min_eq_right (Nat.le_of_lt hshort), hshort, Nat.not_le.2 hshort]
  · simp [List.take_of_length_le hwhole, hwhole]

end Sink

/-! ### Images cut short -/

/-- What is missing of an image when only `n` bytes of it are there. -/
def Defect.ofCut (n : Nat) : Defect := if n < Header.size then .truncatedHeader else .truncatedImage

private theorem Sections.ofBytes_take_of_lt {bytes : Bytes} {h : Header}
    (hread : Header.ofBytes bytes = .ok h) {n : Nat} (hn : n < h.byteCount) :
    Sections.ofBytes (bytes.take n) = .error (.malformed (.ofCut n)) := by
  have hlen : (bytes.take n).length ≤ n := List.length_take_le n bytes
  unfold Defect.ofCut
  split
  · exact ofBytes_of_header_error (Header.ofBytes_of_length_lt (by omega))
  · have hread' : Header.ofBytes (bytes.take n) = .ok h := by
      rw [Header.ofBytes_take (by omega), hread]
    exact ofBytes_of_lt hread' (by omega)

namespace Pattern

variable {p : Pattern}

private theorem sections_take_toBytes (hp : p.WellFormed) (hsize : p.byteCount < sizeLimit)
    {n : Nat} (hn : n < p.imageSize) :
    Sections.ofBytes (p.toBytes.take n) = .error (.malformed (.ofCut n)) := by
  refine Sections.ofBytes_take_of_lt (header_toBytes hp hsize) ?_
  rwa [Header.byteCount, entryCount_header hsize]

/-- A sink that takes `n` more bytes, in whatever pieces, takes the first `n` bytes of an image, and
fails exactly if these are not all.  The bytes before any place in an image are refused by all that
read them, for the header or for the arrays.  The bound is that of the sizes that a header can
state. -/
theorem toBytes_interrupted (hp : p.WellFormed) (hsize : p.byteCount < sizeLimit) :
    (∀ (out : Sink) (n : Nat), out.capacity = some (out.taken.length + n) →
      (out.putPattern p).1.taken = out.taken ++ p.toBytes.take (min n p.imageSize) ∧
      (out.putPattern p).2 = if p.imageSize ≤ n then none else some (.io out.reason)) ∧
    ∀ n < p.imageSize, ∃ defect : Defect,
      defect.reason = (if n < Header.size then "truncated header" else "truncated pattern image") ∧
      ofBytes (p.toBytes.take n) = .error (.malformed defect) ∧
      (∀ address, View.ofBytes (p.toBytes.take n) address = .error (.malformed defect)) ∧
      (∀ source : Source, (∀ given, 0 < source.grain given) → source.breaksAfter = none →
        source.pending = p.toBytes.take n →
        source.readPattern.2 = .error (.fault (.malformed defect))) ∧
      ∀ (store : Store) (path : String), store.read? path = some (p.toBytes.take n) →
        ImageFile.load store path = .error (.fault (.malformed defect)) := by
  have hlen : p.toBytes.length = p.imageSize := by rw [length_toBytes hp hsize, imageSize_eq hsize]
  refine ⟨fun out n hcapacity => ?_, fun n hn => ?_⟩
  · rw [Sink.putPattern_of_capacity hcapacity, List.take_eq_take_min, hlen]
    exact ⟨rfl, rfl⟩
  · have hsplit := sections_take_toBytes hp hsize hn
    have hpattern := ofBytes_of_split_error hsplit
    refine ⟨.ofCut n, ?reason, hpattern, ?view, ?source, ?file⟩
    case reason => unfold Defect.ofCut; split <;> rfl
    case view =>
      intro address
      rw [View.ofBytes, hsplit, Rows.error_bind]
    case source =>
      intro source hgrain hsound hpending
      rw [Source.readPattern_of_none hgrain hsound, hpending, hpattern]
      rfl
    case file => exact fun store path hread =>
      ImageFile.load_of_error hread (Sections.ofExactBytes_of_error hsplit)

/-- A sink with room for 100 of the 116 bytes. -/
def narrow : Sink := { grain := fun _ => 7, capacity := some 100, reason := "full" }

theorem toBytes_interrupted_leading :
    (narrow.putPattern leading).1.taken = leading.toBytes.take 100 ∧
      (narrow.putPattern leading).2 = some (.io "full") ∧
      (∃ defect : Defect, defect.reason = "truncated pattern image" ∧
        (Source.readPattern { pending := leading.toBytes.take 100, grain := fun _ => 3 }).2 =
          .error (.fault (.malformed defect))) ∧
      ∃ defect : Defect, defect.reason = "truncated header" ∧
        View.ofBytes (leading.toBytes.take 63) 16 = .error (.malformed defect) ∧
        ImageFile.load { files := [("cut", leading.toBytes.take 63)] } "cut" =
          .error (.fault (.malformed defect)) := by
  have hp : leading.WellFormed := by decide
  have hsize : leading.byteCount < sizeLimit := by decide
  have himage : leading.imageSize = 116 := by decide
  obtain ⟨hwrite, hcut⟩ := toBytes_interrupted hp hsize
  rw [himage] at hwrite hcut
  obtain ⟨htaken, hfailure⟩ := hwrite narrow 100 rfl
  obtain ⟨arrays, harrays, -, -, hread, -⟩ := hcut 100 (by decide)
  obtain ⟨header, hheader, -, hview, -, hload⟩ := hcut 63 (by decide)
  exact ⟨htaken, hfailure, ⟨arrays, harrays, hread _ (fun _ => Nat.succ_pos _) rfl rfl⟩,
    header, hheader, hview 16, hload _ _ rfl⟩

end Pattern

end SparsePattern
