import SparsePattern.Proofs.Stream.Reading

/-!
# Images one after another

Each image on a stream is taken off to its last byte, also one whose arrays are refused, so that the
next read starts at the next image.  What is decoded is what the images give each by itself, and
patterns that are written one after another come back in order (`Source.readPatterns_blocks`).
-/

namespace SparsePattern

/-! ### Successive reads -/

/-- The bytes are as long as the image that their header states. -/
def IsBlock (bytes : Bytes) : Prop :=
  ∃ h, Header.ofBytes bytes = .ok h ∧ h.imageSize = .ok bytes.length

namespace Source

variable {s : Source}

/-- Reads `n` patterns, one after another, whether they are accepted or not. -/
def readPatterns (s : Source) : (n : Nat) → Source × List (Except Trouble Pattern)
  | 0 => (s, [])
  | n + 1 =>
    let (s, result) := s.readPattern
    let (s, results) := s.readPatterns n
    (s, result :: results)

/-- The block at the front is taken off, whatever follows it. -/
private theorem readPattern_append (hgrain : ∀ n, 0 < s.grain n) (hsound : s.breaksAfter = none)
    {block rest : Bytes} (hblock : IsBlock block) (hpending : s.pending = block ++ rest) :
    s.readPattern = (s.advance block.length, (Pattern.ofBytes block).mapError .fault) := by
  obtain ⟨h, hread, himage⟩ := hblock
  have hcount : h.byteCount = block.length := by
    rw [Header.imageSize_of_ofBytes hread] at himage
    exact Except.ok.inj himage
  have hsize : Header.size ≤ block.length := (Header.ofBytes_eq_ok_iff.1 hread).1
  -- neither the header nor the rest of the image shows what follows
  have hfront : s.pending.take block.length = block := by rw [hpending, List.take_left]
  have hread' : Header.ofBytes s.pending = .ok h := by
    rw [← Header.ofBytes_take hsize, hfront, hread]
  have hpattern : Pattern.ofBytes s.pending = Pattern.ofBytes block := by
    rw [← Pattern.ofBytes_take hread' (Nat.le_of_eq hcount), hfront]
  have hreach : block.length ≤ s.reach := by
    rw [reach_of_none hsound, hpending, List.length_append]
    exact Nat.le_add_right _ _
  rw [readPattern_eq hgrain, Header.blockSize_of_ok hread', hcount, Nat.min_eq_left hreach,
    hpattern]
  simp [Nat.not_lt.2 hreach]

/-- Blocks are taken off one after another, refused ones too. -/
private theorem readPatterns_flatten (hgrain : ∀ n, 0 < s.grain n) (hsound : s.breaksAfter = none)
    {blocks : List Bytes} {rest : Bytes} (hblocks : ∀ block ∈ blocks, IsBlock block)
    (hpending : s.pending = blocks.flatten ++ rest) :
    s.readPatterns blocks.length =
      (s.advance blocks.flatten.length,
        blocks.map fun block => (Pattern.ofBytes block).mapError .fault) := by
  induction blocks generalizing s with
  | nil => rfl
  | cons block blocks ih =>
    rw [List.flatten_cons, List.append_assoc] at hpending
    have hfirst := readPattern_append hgrain hsound (hblocks block List.mem_cons_self) hpending
    have hnext : (s.advance block.length).pending = blocks.flatten ++ rest := by
      rw [advance, hpending, List.drop_left]
    have hrest := ih (s := s.advance block.length) hgrain hsound
      (fun b hb => hblocks b (List.mem_cons_of_mem block hb)) hnext
    rw [List.length_cons, readPatterns, hfirst]
    simp only [hrest, advance_advance, List.flatten_cons, List.length_append, List.map_cons]

end Source

/-! ### Successive writes -/

namespace Pattern

variable {p : Pattern}

/-- The image of a pattern is just one image. -/
theorem isBlock_toBytes (hp : p.WellFormed) (hmemory : p.byteCount < vectorLimit) :
    IsBlock p.toBytes := by
  have hsize : p.byteCount < sizeLimit := Nat.lt_trans hmemory (by decide)
  refine ⟨p.header, header_toBytes hp hsize, ?_⟩
  rw [(valid_header hp hsize).imageSize_eq, length_toBytes hp hsize, columnsStart_header hsize,
    entryCount_header hsize, byteCount]

/-- A pattern is read back from its image if this fits the memory. -/
theorem ofBytes_toBytes_of_lt (hp : p.WellFormed) (hmemory : p.byteCount < vectorLimit) :
    ofBytes p.toBytes = .ok p := by
  have hcolumns : Header.columnWidth * p.columns.size < vectorLimit :=
    Nat.lt_of_le_of_lt (Nat.le_add_left _ _) hmemory
  have h := ofBytes_toBytes hp (Nat.lt_trans hmemory (by decide)) hcolumns []
  rwa [List.append_nil] at h

end Pattern

namespace Sink

/-- Writes patterns one after another, up to the first that does not go out whole. -/
def putPatterns (s : Sink) : List Pattern → Sink × Option Trouble
  | [] => (s, none)
  | p :: patterns =>
    match s.putPattern p with
    | (s, none) => s.putPatterns patterns
    | (s, some trouble) => (s, some trouble)

private theorem putPattern_eq {s : Sink} (hroom : s.capacity = none) (p : Pattern) :
    s.putPattern p = ({ s with taken := s.taken ++ p.toBytes }, none) := by
  have hall : s.room p.toBytes.length = p.toBytes.length := by simp only [room, hroom]
  rw [putPattern, put_eq, hall, List.take_length, if_neg (Nat.lt_irrefl _)]
  rfl

private theorem putPatterns_eq {s : Sink} (hroom : s.capacity = none) (patterns : List Pattern) :
    s.putPatterns patterns =
      ({ s with taken := s.taken ++ (patterns.map Pattern.toBytes).flatten }, none) := by
  induction patterns generalizing s with
  | nil => simp [putPatterns]
  | cons p patterns ih =>
    have hrest := ih (s := { s with taken := s.taken ++ p.toBytes }) hroom
    rw [putPatterns, putPattern_eq hroom]
    simp only [hrest, List.map_cons, List.flatten_cons, List.append_assoc]

end Sink

/-! ### What is read of what was written -/

namespace Source

variable {s : Source}

/-- From images one after another, successive reads give what each image gives by itself, accepted
or refused, and after every read the source stands at the end of that image.  Patterns that are
written one after another are read back in order, and what follows them is left; the bound is that
of what a vector in memory holds. -/
theorem readPatterns_blocks (hgrain : ∀ n, 0 < s.grain n) (hsound : s.breaksAfter = none) :
    (∀ (blocks : List Bytes) (rest : Bytes), (∀ block ∈ blocks, IsBlock block) →
      s.pending = blocks.flatten ++ rest → ∀ i ≤ blocks.length,
        s.readPatterns i = (s.advance (blocks.take i).flatten.length,
          (blocks.take i).map fun block => (Pattern.ofBytes block).mapError .fault)) ∧
    ∀ (patterns : List Pattern) (out : Sink) (rest : Bytes),
      (∀ p ∈ patterns, p.WellFormed ∧ p.byteCount < Pattern.vectorLimit) →
      out.capacity = none → out.taken = [] →
        (out.putPatterns patterns).2 = none ∧
        (s.pending = (out.putPatterns patterns).1.taken ++ rest →
          (s.readPatterns patterns.length).1.pending = rest ∧
          (s.readPatterns patterns.length).2 = patterns.map .ok) := by
  constructor
  · intro blocks rest hblocks hpending i hi
    have hsplit : s.pending = (blocks.take i).flatten ++ ((blocks.drop i).flatten ++ rest) := by
      rw [hpending, ← List.append_assoc, ← List.flatten_append, List.take_append_drop]
    have h := readPatterns_flatten hgrain hsound
      (fun block hb => hblocks block (List.mem_of_mem_take hb)) hsplit
    rwa [List.length_take, Nat.min_eq_left hi] at h
  · intro patterns out rest hpatterns hroom hempty
    rw [Sink.putPatterns_eq hroom, hempty]
    refine ⟨rfl, fun hpending => ?_⟩
    have hblocks : ∀ block ∈ patterns.map Pattern.toBytes, IsBlock block := by
      intro block hblock
      obtain ⟨p, hp, rfl⟩ := List.mem_map.1 hblock
      exact Pattern.isBlock_toBytes (hpatterns p hp).1 (hpatterns p hp).2
    have h := readPatterns_flatten hgrain hsound hblocks hpending
    rw [List.length_map] at h
    rw [h]
    refine ⟨?_, ?_⟩
    · show s.pending.drop _ = rest
      rw [hpending]
      exact List.drop_left
    · rw [List.map_map]
      refine List.map_congr_left fun p hp => ?_
      simp only [Function.comp, Pattern.ofBytes_toBytes_of_lt (hpatterns p hp).1 (hpatterns p hp).2,
        Except.mapError]

/-- The image of `leading` with a column far out of range. -/
def spoiled : Bytes := Pattern.leading.toBytes.dropLast ++ [9]

theorem readPatterns_blocks_spoiled :
    (Source.readPatterns
      { pending := spoiled ++ Pattern.leading.toBytes ++ [1, 2, 3],
        grain := fun n => n % 7 + 1 } 2).2 =
        [.error (.fault (.malformed .columnBeyondRange)), .ok Pattern.leading] ∧
      (Source.readPatterns
        { pending := (Sink.putPatterns {} [Pattern.leading, .empty]).1.taken ++ [5],
          grain := fun _ => 2 } 2).2 =
        [.ok Pattern.leading, .ok .empty] := by
  have hleading : Pattern.leading.WellFormed := by decide
  have hmemory : Pattern.leading.byteCount < Pattern.vectorLimit := by decide
  constructor
  · have hspoiled : IsBlock spoiled :=
      ⟨Pattern.leading.header, by decide +kernel, by decide +kernel⟩
    have hblocks : ∀ block ∈ [spoiled, Pattern.leading.toBytes], IsBlock block := by
      simp [hspoiled, Pattern.isBlock_toBytes hleading hmemory]
    have h := (readPatterns_blocks
      (s := { pending := spoiled ++ Pattern.leading.toBytes ++ [1, 2, 3],
              grain := fun n => n % 7 + 1 })
      (fun n => Nat.succ_pos _) rfl).1
      [spoiled, Pattern.leading.toBytes] [1, 2, 3] hblocks (by simp) 2 (by simp)
    rw [h]
    have hrefused : Pattern.ofBytes spoiled = .error (.malformed .columnBeyondRange) := by
      decide +kernel
    simp [hrefused, Pattern.ofBytes_toBytes_of_lt hleading hmemory, Except.mapError]
  · have hpatterns : ∀ p ∈ [Pattern.leading, .empty],
        p.WellFormed ∧ p.byteCount < Pattern.vectorLimit := by
      simp only [List.forall_mem_cons]
      exact ⟨⟨hleading, hmemory⟩, ⟨by decide, by decide⟩, fun p hp => absurd hp List.not_mem_nil⟩
    have h := (readPatterns_blocks
      (s := { pending := (Sink.putPatterns {} [Pattern.leading, .empty]).1.taken ++ [5],
              grain := fun _ => 2 })
      (fun _ => Nat.succ_pos _) rfl).2 [Pattern.leading, .empty] {} [5] hpatterns rfl rfl
    exact (h.2 rfl).2

end Source

end SparsePattern
