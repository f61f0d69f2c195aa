import SparsePattern.Json.Forms
import SparsePattern.Proofs.Image.RoundTrip
import SparsePattern.Proofs.Json.Printing
import SparsePattern.Proofs.Json.Records
import SparsePattern.Proofs.Pattern

/-!
# Patterns as JSON

A text that holds the values of a layout is read as the pattern that the layout describes, or
refused for what is wrong with the layout (`ofJson_eq`).  The text of a well-formed pattern is one
of these, so that it is read as the pattern itself.
-/

namespace SparsePattern

open Json (Refusal digitsLimit)

/-- The values of a layout as a record. -/
def Layout.record (l : Layout) : Json.Record Pattern.fields :=
  (l.nRows, l.nCols, l.rowStart.toList, l.columns.toList.map UInt32.toNat, l.diagonalFirst, ())

/-- The numbers of a layout other than its columns are stored in 64 bits, and so is the number of
its offsets. -/
structure Layout.Sized (l : Layout) : Prop where
  nRows_lt : l.nRows + 1 < sizeLimit
  nCols_lt : l.nCols < sizeLimit
  offset_lt : ∀ n ∈ l.rowStart.toList, n < sizeLimit

namespace Pattern

private theorem nodup_names : (fields.map Json.Field.name).Nodup := by decide

private theorem plain_fields : ∀ field ∈ fields, field.Plain := by
  intro field hfield
  have hnames : ∀ field ∈ fields, Json.Unescaped field.name.toList := by decide
  have hshapes : ∀ field ∈ fields, field.shape ≠ .real := by decide
  exact ⟨hnames field hfield, hshapes field hfield⟩

private theorem admitted_record {l : Layout} (h : l.Sized) : l.record.Admitted := by
  have hrows : l.nRows < sizeLimit := Nat.lt_of_succ_lt h.nRows_lt
  have hcolumn : ∀ n ∈ l.columns.toList.map UInt32.toNat, n < columnLimit ∧ n < digitsLimit := by
    intro n hn
    obtain ⟨c, -, rfl⟩ := List.mem_map.1 hn
    exact ⟨c.toNat_lt, Nat.lt_trans c.toNat_lt (by decide)⟩
  simp only [Json.Record.Admitted, Layout.record, fields, Json.Record.entries, List.forall_mem_cons]
  refine ⟨⟨hrows, hrows⟩, ⟨h.nCols_lt, h.nCols_lt⟩, ?_, hcolumn, trivial,
    fun entry hentry => absurd hentry List.not_mem_nil⟩
  exact fun n hn => ⟨h.offset_lt n hn, h.offset_lt n hn⟩

/-- A text of five values is read as the layout with these values, which then is checked. -/
theorem ofJson_eq {l : Layout} (h : l.Sized) {text : String} (htext : l.record.WrittenIn text) :
    ofJson text = (ofLayout l).mapError .invalid := by
  have hcolumns : (l.columns.toList.map UInt32.toNat).map Nat.toUInt32 = l.columns.toList := by
    rw [List.map_map]
    exact List.map_id'' (fun c => UInt32.ofNat_toNat) _
  rw [ofJson, Json.parse_written nodup_names (admitted_record h) htext]
  simp only [Layout.record, hcolumns]

private theorem WellFormed.sized {p : Pattern} (hp : p.WellFormed) (hrows : p.nRows + 1 < sizeLimit)
    (hsize : p.columns.size < sizeLimit) : p.toLayout.Sized where
  nRows_lt := hrows
  nCols_lt := Nat.lt_trans hp.layout.nCols_lt (by decide)
  offset_lt n hn := Nat.lt_of_le_of_lt (hp.layout.le_size_of_mem_rowStart hn) hsize

private theorem spaces_compact : Json.Style.compact.Spaces := by
  refine ⟨.nil, .nil, [], [], .nil, .nil, ?_⟩
  rfl

/-- The values of a layout, written as an object with the fields in any order or as a list, lead to
the same result as the layout itself.  What is printed for a pattern are its values, and it is read
as the pattern in every part, the longest row among them. -/
theorem ofJson_matches_ofLayout :
    (∀ (l : Layout) (text : String), l.Sized → l.record.WrittenIn text →
      (∀ p, ofLayout l = .ok p → ofJson text = .ok p) ∧
        ∀ fault, ofLayout l = .error fault →
          ofJson text = .error (.invalid fault) ∧ (Refusal.invalid fault).message = fault.message) ∧
    ∀ p : Pattern, p.WellFormed → p.nRows + 1 < sizeLimit → p.columns.size < sizeLimit →
      p.toLayout.record.WrittenIn p.toJson ∧ ofJson p.toJson = .ok p := by
  constructor
  · intro l text hl htext
    rw [ofJson_eq hl htext]
    constructor
    · intro p hp
      rw [hp]
      rfl
    · intro fault hfault
      rw [hfault]
      exact ⟨rfl, rfl⟩
  · intro p hp hrows hsize
    have htext : p.toLayout.record.WrittenIn p.toJson :=
      Json.Record.text_writtenIn spaces_compact plain_fields _
    have hlayout : ofLayout p.toLayout = .ok p := ofLayout_eq_ok_iff.2 ⟨hp, rfl⟩
    refine ⟨htext, ?_⟩
    rw [ofJson_eq (hp.sized hrows hsize) htext, hlayout]
    rfl

/-- The values of `leading`, last field first. -/
def leadingBackwards : String :=
  "\x7b \"diagonal_first\" : true, \"column_indices\" : [0,2,1,0,2], " ++
    "\"row_start\" : [0,2,4,5], \"n_cols\" : 3, \"n_rows\" : 3 \x7d"

/-- A layout whose first row leaves out a column. -/
def unstarted : Layout := ⟨1, 1, #[1, 1], #[0], false⟩

theorem ofJson_matches_ofLayout_leading :
    leading.toLayout.record.WrittenIn leadingBackwards ∧ ofJson leadingBackwards = .ok leading ∧
      unstarted.record.WrittenIn "[1,1,[1,1],[0],false]" ∧
      ofJson "[1,1,[1,1],[0],false]" = .error (.invalid (.malformed .firstOffset)) ∧
      ofJson leading.toJson = .ok leading := by
  have hp : leading.WellFormed := by decide
  obtain ⟨hread, hprinted⟩ := ofJson_matches_ofLayout
  have hstyle : Json.Style.Spaces { lead := " ", close := " ", colon := " : " } :=
    ⟨by decide, by decide, [' '], [' '], by decide, by decide, by decide⟩
  have hbackwards : leading.toLayout.record.WrittenIn leadingBackwards :=
    ⟨[], _, [], .nil, Json.Record.written_object hstyle plain_fields (List.reverse_perm _), .nil,
      by decide⟩
  have hlist : unstarted.record.WrittenIn "[1,1,[1,1],[0],false]" :=
    ⟨[], _, [], .nil, Json.Record.written_list plain_fields _, .nil, by decide⟩
  have hsized : unstarted.Sized := ⟨by decide, by decide, by decide⟩
  have hfault : ofLayout unstarted = .error (.malformed .firstOffset) := by cbv
  obtain ⟨hbackwardsRead, -⟩ := hread _ _ (hp.sized (by decide) (by decide)) hbackwards
  obtain ⟨-, hlistRead⟩ := hread _ _ hsized hlist
  exact ⟨hbackwards, hbackwardsRead _ (ofLayout_eq_ok_iff.2 ⟨hp, rfl⟩), hlist,
    (hlistRead _ hfault).1, (hprinted leading hp (by decide) (by decide)).2⟩

end Pattern

end SparsePattern
