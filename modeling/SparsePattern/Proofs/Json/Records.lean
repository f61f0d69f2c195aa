import SparsePattern.Proofs.Json.Values

/-!
# Reading records

A record is read from every text that holds it (`readRecord_written`).  The pass through an object
knows the fields whose names it has seen (`Record.restrict`): each entry adds its own, and the names
are distinct, so that none comes twice and at the end none is missing, in whatever order they came.
-/

namespace SparsePattern.Json

variable {fields : List Field} {record : Record fields} {before text rest : List Char}
  {first : Bool}

/-! ### Entries -/

namespace Record

/-- The fields of a record whose names have been seen. -/
def restrict (seen : List String) : {fields : List Field} → Record fields → Partial fields
  | [], () => ()
  | field :: _, (value, others) =>
    (if field.name ∈ seen then some value else none, restrict seen others)

private theorem restrict_nil (record : Record fields) : restrict [] record = .blank fields := by
  induction fields with
  | nil => rfl
  | cons field fields ih =>
    obtain ⟨value, others⟩ := record
    rw [restrict, Partial.blank, ih others, if_neg List.not_mem_nil]

private theorem complete?_restrict {seen : List String} (h : ∀ field ∈ fields, field.name ∈ seen) :
    (restrict seen record).complete? = some record := by
  induction fields with
  | nil => rfl
  | cons field fields ih =>
    obtain ⟨value, others⟩ := record
    obtain ⟨hfield, hfields⟩ := List.forall_mem_cons.1 h
    rw [restrict, if_pos hfield, Partial.complete?, ih hfields]
    rfl

private theorem restrict_congr {seen seen' : List String}
    (h : ∀ field ∈ fields, field.name ∈ seen ↔ field.name ∈ seen') :
    restrict seen record = restrict seen' record := by
  induction fields with
  | nil => rfl
  | cons field fields ih =>
    obtain ⟨value, others⟩ := record
    obtain ⟨hfield, hfields⟩ := List.forall_mem_cons.1 h
    simp only [restrict, hfield, ih hfields]

end Record

open Record (entries restrict)

/-! ### From a list -/

private theorem listFrom_items (h : Items Entry.ValueWritten first (entries record) text)
    (hadmitted : record.Admitted) :
    listFrom first fields (text ++ ']' :: rest) = .ok (record, rest) := by
  induction fields generalizing first text with
  | nil => rw [listFrom, closeList_append h.blank, giving]
  | cons field fields ih =>
    obtain ⟨value, others⟩ := record
    obtain ⟨hvalue, hothers⟩ := List.forall_mem_cons.1 hadmitted
    obtain ⟨item, text', hitem, h', hnext⟩ := h.next fun _ _ => Shape.opens_written
    have hread : field.shape.read (item ++ (text' ++ ']' :: rest)) =
        .ok (value, text' ++ ']' :: rest) :=
      Shape.read_written hitem hvalue Blank.nil (h'.ends (by decide))
    simp only [listFrom, hnext, hread, ih h' hothers]

/-! ### From an object -/

/-- A field that has not been seen is read into its place, whatever has been seen before. -/
private theorem readEntry_append (hnames : (fields.map Field.name).Nodup) {entry : Entry}
    (hmem : entry ∈ entries record) {seen : List String} (hseen : entry.1.name ∉ seen)
    (hblank : Blank before) (hread : entry.1.shape.read text = .ok (entry.2, rest)) :
    readEntry entry.1.name fields (restrict seen record) (before ++ ':' :: text) =
      .ok (restrict (entry.1.name :: seen) record, rest) := by
  induction fields with
  | nil => cases hmem
  | cons field fields ih =>
    obtain ⟨value, others⟩ := record
    obtain ⟨hfield, hfields⟩ := List.nodup_cons.1 hnames
    rcases List.mem_cons.1 hmem with rfl | hmem
    · have hothers : restrict (field.name :: seen) others = restrict seen others := by
        refine Record.restrict_congr fun f hf => ?_
        have hne : f.name ≠ field.name := fun heq => hfield (heq ▸ List.mem_map_of_mem hf)
        simp only [List.mem_cons, hne, false_or]
      simp only [restrict, readEntry, if_neg hseen, hothers, Option.isSome_none, Bool.false_eq_true,
        ↓reduceIte, scanMark_append hblank (by decide : isBlank ':' = false), hread,
        List.mem_cons_self]
    · have hne : field.name ≠ entry.1.name := by
        intro heq
        exact hfield (heq ▸ List.mem_map_of_mem (Record.fst_mem_of_mem_entries hmem))
      simp only [restrict, readEntry, ih hfields hmem, List.mem_cons, hne, false_or, ↓reduceIte]

private theorem nextKey_end (first : Bool) (hblank : Blank before) :
    nextKey first (before ++ '\x7d' :: text) = .ok none := by
  rw [nextKey, skipBlank_append_cons hblank (by decide)]
  rfl

/-- The next name is found, and what follows it is a colon, the value and the entries behind it. -/
private theorem Items.nextKey {entry : Entry} {listed : List Entry}
    (h : Items Entry.Written first (entry :: listed) text) :
    ∃ name before after value text', Spelled entry.1.name.toList name ∧ Blank before ∧ Blank after ∧
      entry.ValueWritten value ∧ Items Entry.Written false listed text' ∧
      ∀ rest, nextKey first (text ++ rest) =
        .ok (some (name ++ '"' :: (before ++ ':' :: (after ++ (value ++ (text' ++ rest)))))) := by
  cases h with
  | first hlead hitem h =>
    obtain ⟨hname, hbefore, hafter, hvalue⟩ := hitem
    refine ⟨_, _, _, _, _, hname, hbefore, hafter, hvalue, h, fun rest => ?_⟩
    simp only [List.append_assoc, List.cons_append]
    rw [Json.nextKey, skipBlank_append_cons hlead (by decide)]
    rfl
  | later hlead hgap hitem h =>
    obtain ⟨hname, hbefore, hafter, hvalue⟩ := hitem
    refine ⟨_, _, _, _, _, hname, hbefore, hafter, hvalue, h, fun rest => ?_⟩
    simp only [List.append_assoc, List.cons_append]
    rw [Json.nextKey, skipBlank_append_cons hlead (by decide)]
    simp only [scanMark_append hgap (by decide : isBlank '"' = false)]
    rfl

/-- The closing brace ends a record whose fields have all been seen. -/
private theorem objectFrom_of_end {given : Partial fields} (hkey : nextKey first text = .ok none)
    (hcomplete : given.complete? = some record) :
    objectFrom fields given first text = giving record (scanMark '\x7d' text) := by
  rw [objectFrom]
  split <;> simp_all

/-- An entry is read, then the rest of the record. -/
private theorem objectFrom_of_key {given given' : Partial fields} {name rest' : List Char}
    {key : List Char} (hkey : nextKey first text = .ok (some name))
    (hname : scanString name = .ok (key, rest))
    (hentry : readEntry (String.ofList key) fields given rest = .ok (given', rest')) :
    objectFrom fields given first text = objectFrom fields given' false rest' := by
  rw [objectFrom]
  split
  · simp_all
  · simp_all
  · split
    · simp_all
    · split <;> simp_all

/-- The names of the entries that follow and those that have been seen are the names of the
fields. -/
private theorem objectFrom_items (hnames : (fields.map Field.name).Nodup)
    (hadmitted : record.Admitted) {listed : List Entry} (h : Items Entry.Written first listed text)
    {seen : List String} (hmem : ∀ entry ∈ listed, entry ∈ entries record)
    (hperm : (listed.map (·.1.name) ++ seen).Perm (fields.map Field.name)) :
    objectFrom fields (restrict seen record) first (text ++ '\x7d' :: rest) =
      .ok (record, rest) := by
  induction listed generalizing first text seen with
  | nil =>
    have hcomplete : (restrict seen record).complete? = some record :=
      Record.complete?_restrict fun field hfield => hperm.mem_iff.2 (List.mem_map_of_mem hfield)
    rw [objectFrom_of_end (nextKey_end first h.blank) hcomplete,
      scanMark_append h.blank (by decide), giving]
  | cons entry listed ih =>
    obtain ⟨hentry, hmem⟩ := List.forall_mem_cons.1 hmem
    obtain ⟨name, before, after, value, text', hname, hbefore, hafter, hvalue, h', hnext⟩ :=
      h.nextKey
    have hseen : entry.1.name ∉ seen := by
      obtain ⟨hfresh, -⟩ := List.nodup_cons.1 (hperm.nodup_iff.2 hnames)
      exact fun hmem => hfresh (List.mem_append_right _ hmem)
    have hread : entry.1.shape.read (after ++ (value ++ (text' ++ '\x7d' :: rest))) =
        .ok (entry.2, text' ++ '\x7d' :: rest) :=
      Shape.read_written hvalue (hadmitted entry hentry) hafter (h'.ends (by decide))
    have hadd := readEntry_append hnames hentry hseen hbefore hread
    rw [objectFrom_of_key (hnext _) (scanString_of_spelled hname)
      (by rw [String.ofList_toList]; exact hadd)]
    exact ih h' hmem (List.perm_middle.trans hperm)

/-! ### Whole texts -/

/-- The values of a record are read from every text of it, and what follows is left. -/
theorem readRecord_written (hnames : (fields.map Field.name).Nodup) (hadmitted : record.Admitted)
    (h : record.Written text) (hblank : Blank before) :
    readRecord fields (before ++ (text ++ rest)) = .ok (record, rest) := by
  cases h with
  | list h =>
    rw [List.cons_append, readRecord, skipBlank_append_cons hblank (by decide), List.append_assoc]
    exact listFrom_items h hadmitted
  | object hperm h =>
    rw [List.cons_append, readRecord, skipBlank_append_cons hblank (by decide), List.append_assoc]
    show objectFrom fields (.blank fields) true _ = _
    rw [← record.restrict_nil]
    refine objectFrom_items hnames hadmitted h (fun entry hentry => hperm.subset hentry) ?_
    rw [List.append_nil, ← record.map_fst_entries, List.map_map]
    exact hperm.map _

/-- A text that holds a record is read as what is built from the record, and refused only if nothing
can be. -/
theorem parse_written {α : Type} {build : Record fields → Except Fault α}
    (hnames : (fields.map Field.name).Nodup) (hadmitted : record.Admitted) {text : String}
    (h : record.WrittenIn text) : parse fields build text = (build record).mapError .invalid := by
  obtain ⟨before, body, after, hbefore, hbody, hafter, htext⟩ := h
  rw [parse, htext, readRecord_written hnames hadmitted hbody hbefore]
  cases hbuild : build record with
  | error fault => simp only [hbuild]; rfl
  | ok value => simp only [hbuild, skipBlank_of_blank hafter]; rfl

end SparsePattern.Json
