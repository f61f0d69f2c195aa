import SparsePattern.ImageFile
import SparsePattern.Json.Forms
import SparsePattern.Proofs.Compressed.Lawful
import SparsePattern.Proofs.Draft.Compression
import SparsePattern.Proofs.Draft.Creation
import SparsePattern.Stream.Block

/-!
# Sessions of calls

A `Session` holds all drafts and patterns that a sequence of calls has produced; a call that fails
leaves what it has recorded so far.  Every call keeps drafts and patterns well-formed
(`wellFormed_step`), and so does every sequence (`wellFormed_run`).
-/

namespace SparsePattern

open Rows (bind_eq_ok require_bind_eq_ok)

/-! ### Calls -/

/-- What has been produced so far, oldest first. -/
structure Session where
  drafts : List Draft := []
  patterns : List Pattern := []

/-- A call that makes or changes a draft or a pattern.  Earlier results are named by their place in
the session. -/
inductive Call where
  | emptyDraft
  | uniform (nRows nCols wanted : Nat) (policy : Policy)
  | ofReservations (nRows nCols : Nat) (wanted : List Nat) (policy : Policy)
  | draftOfRows (nRows nCols : Nat) (rows : List (List Nat)) (policy : Policy)
  | widen (pattern wanted reach : Nat)
  | insert (draft row col : Nat)
  | insertRow (draft row : Nat) (cols : List Nat)
  | symmetrize (draft : Nat)
  | compress (draft : Nat)
  | emptyPattern
  | patternOfRows (nRows nCols : Nat) (rows : List (List Nat)) (policy : Policy)
  | ofLayout (l : Layout)
  | ofBytes (bytes : Bytes)
  | ofJson (text : String)
  | read (source : Source)
  | view (bytes : Bytes) (address : Nat)
  | exactView (bytes : Bytes) (address : Nat)
  | file (store : Store) (path : String)

namespace Session

/-- The session with one more draft, if there is one. -/
def keepDraft {ε : Type} (s : Session) : Except ε Draft → Session
  | .ok d => { s with drafts := s.drafts ++ [d] }
  | .error _ => s

/-- The session with one more pattern, if there is one. -/
def keepPattern {ε : Type} (s : Session) : Except ε Pattern → Session
  | .ok p => { s with patterns := s.patterns ++ [p] }
  | .error _ => s

/-- The session with the draft at `i` brought as far as the insertions came. -/
def change (s : Session) (i : Nat) (insertions : Draft → Draft.Progress) : Session :=
  { s with drafts := s.drafts.modify i fun d => (insertions d).draft }

/-- The session after one call.  A draft stays when it is compressed, for there may be copies of
it. -/
def step (s : Session) : Call → Session
  | .emptyDraft => s.keepDraft (.ok .empty : Except Fault Draft)
  | .uniform nRows nCols wanted policy => s.keepDraft (Draft.uniform nRows nCols wanted policy)
  | .ofReservations nRows nCols wanted policy =>
    s.keepDraft (Draft.ofReservations nRows nCols wanted policy)
  | .draftOfRows nRows nCols rows policy => s.keepDraft (Draft.ofRows nRows nCols rows policy)
  | .widen pattern wanted reach =>
    match s.patterns[pattern]? with
    | some p => s.keepDraft (Draft.widen p wanted reach)
    | none => s
  | .insert draft row col => s.change draft (·.insert row col)
  | .insertRow draft row cols => s.change draft (·.insertRow row cols)
  | .symmetrize draft => s.change draft Draft.symmetrize
  | .compress draft =>
    match s.drafts[draft]? with
    | some d => s.keepPattern d.compress
    | none => s
  | .emptyPattern => s.keepPattern (.ok .empty : Except Fault Pattern)
  | .patternOfRows nRows nCols rows policy => s.keepPattern (Pattern.ofRows nRows nCols rows policy)
  | .ofLayout l => s.keepPattern (Pattern.ofLayout l)
  | .ofBytes bytes => s.keepPattern (Pattern.ofBytes bytes)
  | .ofJson text => s.keepPattern (Pattern.ofJson text)
  | .read source => s.keepPattern source.readPattern.2
  | .view bytes address => s.keepPattern (View.ofBytes bytes address >>= View.toPattern)
  | .exactView bytes address => s.keepPattern (View.ofExactBytes bytes address >>= View.toPattern)
  | .file store path =>
    match ImageFile.load store path with
    | .ok f => s.keepPattern f.toPattern
    | .error _ => s

/-- The session of a sequence of calls. -/
def run (calls : List Call) : Session := calls.foldl step {}

end Session

/-! ### Patterns from outside -/

namespace Json

private theorem exists_build_of_parse {α : Type} {fields : List Field}
    {build : Record fields → Except Fault α} {text : String} {a : α}
    (h : parse fields build text = .ok a) : ∃ record, build record = .ok a := by
  rw [parse] at h
  split at h
  · cases h
  · rename_i record _ _
    split at h
    · cases h
    · rename_i value hvalue
      split at h
      · exact ⟨record, Except.ok.inj h ▸ hvalue⟩
      · cases h

end Json

namespace Pattern

variable {p : Pattern}

private theorem wellFormed_empty : empty.WellFormed := by decide

private theorem wellFormed_ofLayout {l : Layout} (h : ofLayout l = .ok p) : p.WellFormed :=
  (ofLayout_eq_ok_iff.1 h).1

/-- Bytes hold well-formed patterns only. -/
theorem wellFormed_ofBytes {bytes : Bytes} (h : ofBytes bytes = .ok p) : p.WellFormed := by
  rw [ofBytes] at h
  obtain ⟨sections, -, h⟩ := bind_eq_ok.1 h
  obtain ⟨rowStart, -, h⟩ := bind_eq_ok.1 h
  obtain ⟨columns, -, h⟩ := bind_eq_ok.1 h
  obtain ⟨q, hq, h⟩ := bind_eq_ok.1 h
  obtain ⟨-, h⟩ := require_bind_eq_ok.1 h
  obtain rfl := Except.ok.inj h
  exact wellFormed_ofLayout hq

private theorem wellFormed_ofJson {text : String} (h : ofJson text = .ok p) : p.WellFormed := by
  obtain ⟨⟨nRows, nCols, rowStart, columns, diagonalFirst, _⟩, hbuild⟩ :=
    Json.exists_build_of_parse h
  exact wellFormed_ofLayout hbuild

private theorem wellFormed_read {source : Source} (h : source.readPattern.2 = .ok p) :
    p.WellFormed := by
  simp only [Source.readPattern] at h
  split at h
  · cases h
  · split at h
    · cases h
    · split at h
      · cases h
      · rename_i head _ _ _ _ _ _ body _
        cases hp : ofBytes (head ++ body) with
        | error _ => rw [hp] at h; cases h
        | ok q =>
          rw [hp] at h
          obtain rfl := Except.ok.inj h
          exact wellFormed_ofBytes hp

/-- The view of a file and every other view turn into patterns in the same way. -/
private theorem wellFormed_toPattern {v : View} (h : v.toPattern = .ok p) : p.WellFormed :=
  wellFormed_ofLayout h

end Pattern

/-! ### Sessions -/

namespace Session

variable {s : Session} {ε : Type}

/-- All that a session holds is well-formed. -/
structure WellFormed (s : Session) : Prop where
  drafts : ∀ d ∈ s.drafts, d.WellFormed
  patterns : ∀ p ∈ s.patterns, p.WellFormed

private theorem wellFormed_keepDraft (h : s.WellFormed) {x : Except ε Draft}
    (hx : ∀ d, x = .ok d → d.WellFormed) : (s.keepDraft x).WellFormed := by
  cases x with
  | error _ => exact h
  | ok d =>
    refine ⟨fun e he => ?_, h.patterns⟩
    rcases List.mem_append.1 he with he | he
    · exact h.drafts e he
    · rw [List.mem_singleton.1 he]
      exact hx d rfl

private theorem wellFormed_keepPattern (h : s.WellFormed) {x : Except ε Pattern}
    (hx : ∀ p, x = .ok p → p.WellFormed) : (s.keepPattern x).WellFormed := by
  cases x with
  | error _ => exact h
  | ok p =>
    refine ⟨h.drafts, fun q hq => ?_⟩
    rcases List.mem_append.1 hq with hq | hq
    · exact h.patterns q hq
    · rw [List.mem_singleton.1 hq]
      exact hx p rfl

/-- Insertions that stop early leave a well-formed draft as well. -/
private theorem wellFormed_change (h : s.WellFormed) (i : Nat) {insertions : Draft → Draft.Progress}
    (hgrows : ∀ d : Draft, d.WellFormed → d.Grows (insertions d).draft) :
    (s.change i insertions).WellFormed := by
  refine ⟨fun e he => ?_, h.patterns⟩
  obtain ⟨j, hj⟩ := List.mem_iff_getElem?.1 he
  rw [change, List.getElem?_modify] at hj
  obtain ⟨d, hd, rfl⟩ := Option.map_eq_some_iff.1 hj
  have hwf := h.drafts d (List.mem_of_getElem? hd)
  split
  · exact (hgrows d hwf).wellFormed hwf
  · exact hwf

/-- Every call keeps all drafts and patterns well-formed. -/
theorem wellFormed_step (h : s.WellFormed) (call : Call) : (s.step call).WellFormed := by
  cases call with
  | emptyDraft =>
    refine wellFormed_keepDraft (x := (.ok .empty : Except Fault Draft)) h fun d hd => ?_
    rw [← Except.ok.inj hd]
    exact Draft.wellFormed_empty
  | uniform => exact wellFormed_keepDraft h fun d => Draft.wellFormed_uniform
  | ofReservations => exact wellFormed_keepDraft h fun d => Draft.wellFormed_ofReservations
  | draftOfRows => exact wellFormed_keepDraft h fun d => Draft.wellFormed_ofRows
  | widen pattern =>
    rw [step]
    split
    · exact wellFormed_keepDraft h fun d => Draft.wellFormed_widen
    · exact h
  | insert draft row col =>
    exact wellFormed_change h draft fun d hd => Draft.grows_insert hd row col
  | insertRow draft row cols =>
    exact wellFormed_change h draft fun d hd => Draft.grows_insertRow hd row cols
  | symmetrize draft => exact wellFormed_change h draft fun d => Draft.grows_symmetrize
  | compress draft =>
    rw [step]
    split
    · rename_i d hd
      have hwf := h.drafts d (List.mem_of_getElem? hd)
      exact wellFormed_keepPattern h fun p => Draft.wellFormed_compress hwf
    · exact h
  | emptyPattern =>
    refine wellFormed_keepPattern (x := (.ok .empty : Except Fault Pattern)) h fun p hp => ?_
    rw [← Except.ok.inj hp]
    exact Pattern.wellFormed_empty
  | patternOfRows =>
    refine wellFormed_keepPattern h fun p hp => ?_
    obtain ⟨d, hd, hp⟩ := bind_eq_ok.1 hp
    exact Draft.wellFormed_compress (Draft.wellFormed_ofRows hd) hp
  | ofLayout => exact wellFormed_keepPattern h fun p => Pattern.wellFormed_ofLayout
  | ofBytes => exact wellFormed_keepPattern h fun p => Pattern.wellFormed_ofBytes
  | ofJson => exact wellFormed_keepPattern h fun p => Pattern.wellFormed_ofJson
  | read => exact wellFormed_keepPattern h fun p => Pattern.wellFormed_read
  | view | exactView =>
    refine wellFormed_keepPattern h fun p hp => ?_
    obtain ⟨v, -, hp⟩ := bind_eq_ok.1 hp
    exact Pattern.wellFormed_toPattern hp
  | file =>
    rw [step]
    split
    · exact wellFormed_keepPattern h fun p => Pattern.wellFormed_toPattern
    · exact h

/-- Whatever the calls, all drafts and patterns that they lead to are well-formed. -/
theorem wellFormed_run (calls : List Call) : (run calls).WellFormed := by
  -- from the back: each call acts on what the calls before it have produced
  induction calls using List.reverseRecOn with
  | nil => exact ⟨fun d hd => absurd hd List.not_mem_nil, fun p hp => absurd hp List.not_mem_nil⟩
  | append_singleton calls call ih =>
    rw [run, List.foldl_concat]
    exact wellFormed_step ih call

/-- Every pattern that calls can produce passes the check of its layout, counts its entries by its
last offset and knows its longest row, which is no longer than there are columns. -/
theorem run_patterns_accepted (calls : List Call) {p : Pattern} (hp : p ∈ (run calls).patterns) :
    p.toLayout.check = .ok () ∧
      (∃ count, Compressed.entryCount p = .ok count ∧ Compressed.rowOffset p p.nRows = .ok count) ∧
      (∀ r < p.nRows, ∃ length,
        Compressed.rowLength p r = .ok length ∧ length ≤ p.nCols ∧ length ≤ p.longestRow) ∧
      if p.nRows = 0 then p.longestRow = 0
        else ∃ r < p.nRows, Compressed.rowLength p r = .ok p.longestRow := by
  have hwf := (wellFormed_run calls).patterns p hp
  have hl := hwf.layout
  refine ⟨Layout.check_eq_ok_iff.2 hl, ⟨p.columns.size, rfl, ?count⟩, ?lengths, ?longest⟩
  case count =>
    rw [← hl.start_nRows]
    exact hl.offset_eq (Nat.le_refl _)
  case lengths =>
    intro r hr
    refine ⟨_, hl.rowLength_eq hr, hl.length_rowList_le hr, ?_⟩
    rw [hwf.longestRow_eq]
    exact Layout.length_le_longest hr
  case longest =>
    rw [hwf.longestRow_eq]
    split
    · rename_i hzero
      rw [Layout.longest, hzero]
      rfl
    · rename_i hpos
      obtain ⟨r, hr, hlen⟩ := Layout.exists_length_eq_longest (Nat.pos_of_ne_zero hpos)
      exact ⟨r, hr, hlen ▸ hl.rowLength_eq hr⟩

/-- Two patterns are compressed from drafts, the second from the first; one insertion in each draft
and the last call are refused. -/
def mixed : List Call :=
  [.uniform 2 2 2 {}, .insert 0 0 1, .insert 0 0 7, .symmetrize 0, .compress 0, .widen 0 2 1,
    .insertRow 1 0 [1, 5], .compress 1, .ofLayout ⟨1, 1, #[0], #[], false⟩]

/-- Two rows of two columns. -/
def full : Pattern := ⟨⟨2, 2, #[0, 2, 4], #[0, 1, 1, 0], true⟩, 2⟩

theorem run_patterns_accepted_mixed :
    (run mixed).patterns = [full, full] ∧ full.toLayout.check = .ok () ∧
      ∃ r < full.nRows, Compressed.rowLength full r = .ok full.longestRow := by
  have hrun : (run mixed).patterns = [full, full] := by cbv
  have hfull : full ∈ (run mixed).patterns := by rw [hrun]; exact List.mem_cons_self
  obtain ⟨hcheck, -, -, hlongest⟩ := run_patterns_accepted mixed hfull
  have hrows : full.nRows ≠ 0 := by decide
  rw [if_neg hrows] at hlongest
  exact ⟨hrun, hcheck, hlongest⟩

end Session

end SparsePattern
