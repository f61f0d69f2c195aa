import SparsePattern.Stream.Sink
import SparsePattern.Stream.Source

/-!
# Streams in pieces

The sizes of the pieces leave no trace.  A source that hands out pieces of positive sizes hands out
its bytes in order up to where it ends or fails (`Source.collect_eq`), and a sink takes the bytes in
order up to where it is full (`Sink.put_eq`).
-/

namespace SparsePattern

/-! ### Sources -/

namespace Source

variable {s : Source}

/-- How many bytes the source hands out before it ends or fails. -/
def reach (s : Source) : Nat :=
  match s.breaksAfter with
  | none => s.pending.length
  | some limit => min s.pending.length (limit - s.given)

theorem reach_of_none (h : s.breaksAfter = none) : s.reach = s.pending.length := by
  simp only [reach, h]

theorem reach_of_some {limit : Nat} (h : s.breaksAfter = some limit) :
    s.reach = min s.pending.length (limit - s.given) := by
  simp only [reach, h]

theorem reach_le (s : Source) : s.reach ≤ s.pending.length := by
  cases h : s.breaksAfter with
  | none => exact Nat.le_of_eq (reach_of_none h)
  | some limit => rw [reach_of_some h]; exact Nat.min_le_left _ _

private theorem pieceSize_eq (s : Source) (wanted : Nat) :
    s.pieceSize wanted = min (s.window wanted) s.reach := by
  cases h : s.breaksAfter with
  | none => simp only [pieceSize, h, reach_of_none h]
  | some limit => simp only [pieceSize, h, reach_of_some h, Nat.min_assoc]

@[simp] theorem advance_zero (s : Source) : s.advance 0 = s := rfl

@[simp] theorem advance_advance (s : Source) (m n : Nat) :
    (s.advance m).advance n = s.advance (m + n) := by
  simp only [advance, List.drop_drop, Nat.add_assoc]

@[simp] theorem reach_advance (s : Source) (n : Nat) : (s.advance n).reach = s.reach - n := by
  cases h : s.breaksAfter with
  | none => simp only [reach, advance, h, List.length_drop]
  | some limit =>
    simp only [reach, advance, h, List.length_drop]
    omega

private theorem reach_of_isBroken (h : s.isBroken = true) : s.reach = 0 := by
  cases hlimit : s.breaksAfter with
  | none => simp [isBroken, hlimit] at h
  | some limit =>
    simp only [isBroken, hlimit, decide_eq_true_eq] at h
    rw [reach_of_some hlimit]
    omega

/-- A source that does not fail where it stops has handed out all it had. -/
theorem reach_of_not_isBroken (h : (s.advance s.reach).isBroken = false) :
    s.reach = s.pending.length := by
  cases hlimit : s.breaksAfter with
  | none => exact reach_of_none hlimit
  | some limit =>
    simp only [isBroken, advance, hlimit, decide_eq_false_iff_not, reach_of_some hlimit] at h
    rw [reach_of_some hlimit]
    omega

/-- Reading gathers the same bytes, and fails in the same place, whatever the sizes of the pieces
are. -/
theorem collect_eq (hgrain : ∀ n, 0 < s.grain n) (wanted : Nat) :
    s.collect wanted = {
      bytes := s.pending.take (min wanted s.reach)
      source := s.advance (min wanted s.reach)
      failure := if s.reach < wanted ∧ (s.advance s.reach).isBroken = true then some s.reason
        else none } := by
  fun_induction collect s wanted with
  | case1 s wanted hwindow =>
    have hwanted : wanted = 0 := by
      have := hgrain s.given
      unfold window at hwindow
      omega
    subst hwanted
    simp
  | case2 s wanted hwindow hbroken =>
    have hwanted : 0 < wanted := by unfold window at hwindow; omega
    simp [reach_of_isBroken hbroken, hbroken, hwanted]
  | case3 s wanted hwindow hbroken n hn =>
    have hreach : s.reach = 0 := by
      have := s.pieceSize_eq wanted
      omega
    simp [hreach, hbroken]
  | case4 s wanted hwindow hbroken n hn rest ih =>
    have hsize : n = min (s.window wanted) s.reach := s.pieceSize_eq wanted
    have hle : n ≤ wanted := s.pieceSize_le wanted
    have hsum : n + min (wanted - n) (s.reach - n) = min wanted s.reach := by omega
    have hreach : n + (s.reach - n) = s.reach := by omega
    have hshort : s.reach - n < wanted - n ↔ s.reach < wanted := by omega
    simp only [rest, ih hgrain, reach_advance, advance_advance, hsum, hreach, hshort]
    -- the piece and what is gathered after it are one stretch
    have htake : s.pending.take n ++ (s.advance n).pending.take (min (wanted - n) (s.reach - n)) =
        s.pending.take (min wanted s.reach) := by
      rw [← hsum, List.take_add]
      rfl
    rw [htake]
    rfl

end Source

/-! ### Sinks -/

namespace Sink

private theorem pieceSize_eq_zero_iff {s : Sink} {offered : Nat} :
    s.pieceSize offered = 0 ↔ s.room offered = 0 := by
  unfold pieceSize
  omega

private theorem room_le (s : Sink) (offered : Nat) : s.room offered ≤ offered := by
  unfold room
  split <;> omega

private theorem room_append (s : Sink) (piece : Bytes) (offered : Nat) :
    Sink.room { s with taken := s.taken ++ piece } (offered - piece.length) =
      s.room offered - piece.length := by
  cases h : s.capacity with
  | none => simp only [room, h]
  | some capacity =>
    simp only [room, h, List.length_append]
    omega

/-- Writing puts out the bytes that there is room for, and fails if that is not all of them. -/
theorem put_eq (s : Sink) (bytes : Bytes) :
    s.put bytes =
      ({ s with taken := s.taken ++ bytes.take (s.room bytes.length) },
        if s.room bytes.length < bytes.length then some s.reason else none) := by
  fun_induction put s bytes with
  | case1 s => simp
  | case2 s b bytes n hn =>
    have hroom : s.room (bytes.length + 1) = 0 := pieceSize_eq_zero_iff.1 hn
    simp [hroom]
  | case3 s b bytes n hn ih =>
    have hle : n ≤ s.room (bytes.length + 1) := Nat.min_le_left _ _
    have hroom := s.room_le (bytes.length + 1)
    have hpiece : ((b :: bytes).take n).length = n := by
      rw [List.length_take, List.length_cons]
      omega
    have hrest := s.room_append ((b :: bytes).take n) (bytes.length + 1)
    rw [hpiece] at hrest
    have hshort : s.room (bytes.length + 1) - n < bytes.length + 1 - n ↔
        s.room (bytes.length + 1) < bytes.length + 1 := by
      omega
    have hsum : n + (s.room (bytes.length + 1) - n) = s.room (bytes.length + 1) := by omega
    rw [ih, List.length_drop, List.length_cons, hrest, List.append_assoc, ← List.take_add, hsum]
    simp only [hshort]

end Sink

end SparsePattern
