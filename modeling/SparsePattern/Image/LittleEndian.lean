/-!
# Numbers as bytes

A number in a fixed count of bytes, least significant first.  Encoding and decoding undo each other
(`decode_encode`, `encode_decode`), also for arrays of numbers (`decodeArray_encodeArray`,
`encodeArray_decodeArray`).
-/

namespace SparsePattern

/-- A stretch of bytes. -/
abbrev Bytes := List UInt8

namespace LittleEndian

/-- The low `width` bytes of `n`. -/
def encode : (width n : Nat) → Bytes
  | 0, _ => []
  | width + 1, n => n.toUInt8 :: encode width (n / 256)

/-- The number with the given bytes. -/
def decode : Bytes → Nat
  | [] => 0
  | b :: bytes => b.toNat + 256 * decode bytes

/-- How many numbers `width` bytes can hold. -/
def limit : (width : Nat) → Nat
  | 0 => 1
  | width + 1 => 256 * limit width

@[simp] theorem length_encode (width n : Nat) : (encode width n).length = width := by
  induction width generalizing n with
  | zero => rfl
  | succ width ih => simp [encode, ih]

theorem decode_encode (width n : Nat) : decode (encode width n) = n % limit width := by
  induction width generalizing n with
  | zero => simp [encode, decode, limit, Nat.mod_one]
  | succ width ih =>
    rw [encode, decode, ih, limit, Nat.mod_mul]
    rfl

/-- A number that fits its bytes is read back as it was. -/
theorem decode_encode_of_lt {width n : Nat} (h : n < limit width) :
    decode (encode width n) = n := by
  rw [decode_encode, Nat.mod_eq_of_lt h]

/-- Bytes are those of the number that they spell. -/
theorem encode_decode (bytes : Bytes) : encode bytes.length (decode bytes) = bytes := by
  induction bytes with
  | nil => rfl
  | cons b bytes ih =>
    have hb : b.toNat < 256 := b.toNat_lt
    have hmod : (b.toNat + 256 * decode bytes) % 256 = b.toNat := by omega
    have hdiv : (b.toNat + 256 * decode bytes) / 256 = decode bytes := by omega
    rw [List.length_cons, decode, encode, hdiv, ih]
    congr 1
    exact UInt8.toNat_inj.1 hmod

theorem decode_lt (bytes : Bytes) : decode bytes < limit bytes.length := by
  induction bytes with
  | nil => simp [decode, limit]
  | cons b bytes ih =>
    have hb : b.toNat < 256 := b.toNat_lt
    rw [decode, List.length_cons, limit]
    omega

/-! ### Arrays -/

/-- The first `count` numbers of `width` bytes each. -/
def decodeArray (width : Nat) : (count : Nat) → Bytes → List Nat
  | 0, _ => []
  | count + 1, bytes => decode (bytes.take width) :: decodeArray width count (bytes.drop width)

/-- The numbers one after another, in `width` bytes each. -/
def encodeArray (width : Nat) (numbers : List Nat) : Bytes := numbers.flatMap (encode width)

theorem length_encodeArray (width : Nat) (numbers : List Nat) :
    (encodeArray width numbers).length = width * numbers.length := by
  induction numbers with
  | nil => rfl
  | cons n numbers ih =>
    rw [encodeArray, List.flatMap_cons, List.length_append, length_encode, List.length_cons,
      Nat.mul_succ, Nat.add_comm]
    exact congrArg (· + width) ih

/-- An array is read back from the front of its bytes, whatever stands behind them. -/
theorem decodeArray_encodeArray {width : Nat} {numbers : List Nat}
    (h : ∀ n ∈ numbers, n < limit width) (rest : Bytes) :
    decodeArray width numbers.length (encodeArray width numbers ++ rest) = numbers := by
  induction numbers with
  | nil => rfl
  | cons n numbers ih =>
    have hsplit : encodeArray width (n :: numbers) ++ rest =
        encode width n ++ (encodeArray width numbers ++ rest) := List.append_assoc ..
    have hlen := length_encode width n
    rw [List.length_cons, decodeArray, hsplit, List.take_left' hlen, List.drop_left' hlen,
      decode_encode_of_lt (h n List.mem_cons_self), ih fun m hm => h m (List.mem_cons_of_mem n hm)]

theorem length_decodeArray (width count : Nat) (bytes : Bytes) :
    (decodeArray width count bytes).length = count := by
  induction count generalizing bytes with
  | zero => rfl
  | succ count ih => rw [decodeArray, List.length_cons, ih]

private theorem length_take_drop {width count : Nat} {bytes : Bytes}
    (h : bytes.length = width * (count + 1)) :
    (bytes.take width).length = width ∧ (bytes.drop width).length = width * count := by
  rw [Nat.mul_succ] at h
  rw [List.length_take, List.length_drop]
  omega

/-- What is read from bytes that fill the array fits the width of an element. -/
theorem decodeArray_lt {width count : Nat} {bytes : Bytes} (h : bytes.length = width * count) :
    ∀ n ∈ decodeArray width count bytes, n < limit width := by
  induction count generalizing bytes with
  | zero => exact fun n hn => absurd hn List.not_mem_nil
  | succ count ih =>
    obtain ⟨hfirst, hrest⟩ := length_take_drop h
    intro n hn
    rcases List.mem_cons.1 hn with rfl | hn
    · have hlt := decode_lt (bytes.take width)
      rwa [hfirst] at hlt
    · exact ih hrest n hn

/-- Bytes that fill an array are those of the numbers that they spell. -/
theorem encodeArray_decodeArray {width count : Nat} {bytes : Bytes}
    (h : bytes.length = width * count) :
    encodeArray width (decodeArray width count bytes) = bytes := by
  induction count generalizing bytes with
  | zero =>
    rw [List.length_eq_zero_iff.1 h]
    rfl
  | succ count ih =>
    obtain ⟨hfirst, hrest⟩ := length_take_drop h
    have hencode := encode_decode (bytes.take width)
    rw [hfirst] at hencode
    have htail : (decodeArray width count (bytes.drop width)).flatMap (encode width) =
        bytes.drop width := ih hrest
    rw [decodeArray, encodeArray, List.flatMap_cons, hencode, htail, List.take_append_drop]

end LittleEndian

end SparsePattern
