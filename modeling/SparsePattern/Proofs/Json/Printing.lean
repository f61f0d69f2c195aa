import SparsePattern.Json.Print
import SparsePattern.Proofs.Json.Grammar

/-!
# Printed records

A printed record is one of the texts that hold it (`Record.text_writtenIn`), in every style that
puts only white space between the parts of an object.  Names have to be printable as they are, and
no value real.
-/

namespace SparsePattern.Json

/-! ### Strings and items -/

/-- Characters that stand for themselves between quotes. -/
def Unescaped (cs : List Char) : Prop := ∀ c ∈ cs, c ≠ '"' ∧ c ≠ '\\' ∧ ¬ c < ' '

instance (cs : List Char) : Decidable (Unescaped cs) :=
  List.decidableBAll (fun c => c ≠ '"' ∧ c ≠ '\\' ∧ ¬ c < ' ') cs

private theorem spelled_self {cs : List Char} (h : Unescaped cs) : Spelled cs cs := by
  induction cs with
  | nil => exact .nil
  | cons c cs ih =>
    obtain ⟨⟨hquote, hslash, hcontrol⟩, hrest⟩ := List.forall_mem_cons.1 h
    exact .plain hquote hslash hcontrol (ih hrest)

private theorem intercalate_cons (mark text : List Char) (texts : List (List Char)) :
    mark.intercalate (text :: texts) = text ++ texts.flatMap (mark ++ ·) := by
  induction texts generalizing text with
  | nil => simp
  | cons text' texts ih =>
    rw [List.intercalate_cons_cons, ih, List.flatMap_cons, List.append_assoc, List.append_assoc]

section Items

variable {α : Type} {W : α → List Char → Prop} {lead close : List Char}
  {write : α → List Char} {xs : List α}

private theorem items_flatMap (hlead : Blank lead) (hclose : Blank close)
    (hwrite : ∀ x ∈ xs, W x (write x)) :
    Items W false xs (xs.flatMap (fun x => ',' :: (lead ++ write x)) ++ close) := by
  induction xs with
  | nil => exact .nil hclose
  | cons x xs ih =>
    obtain ⟨hx, hxs⟩ := List.forall_mem_cons.1 hwrite
    have h := Items.later Blank.nil hlead hx (ih hxs)
    simpa using h

/-- Items with commas between them, and the same white space before each. -/
private theorem items_intercalate (hlead : Blank lead) (hclose : Blank close)
    (hwrite : ∀ x ∈ xs, W x (write x)) :
    Items W true xs ([','].intercalate (xs.map fun x => lead ++ write x) ++ close) := by
  cases xs with
  | nil => exact .nil hclose
  | cons x xs =>
    obtain ⟨hx, hxs⟩ := List.forall_mem_cons.1 hwrite
    have h := Items.first hlead hx (items_flatMap hlead hclose hxs)
    rw [List.map_cons, intercalate_cons, List.flatMap_map]
    simpa using h

end Items

/-! ### Values -/

private theorem digits_toString (n : Nat) : Digits n (toString n).toList := Nat.toList_repr

private theorem numbers_naturalsText (ns : List Nat) : Numbers ns (naturalsText ns).toList := by
  have hitems : Items Digits true ns
      ([','].intercalate (ns.map fun n => [] ++ (toString n).toList) ++ []) :=
    items_intercalate .nil .nil fun n _ => digits_toString n
  refine ⟨_, hitems, ?_⟩
  simp [naturalsText, String.toList_intercalate, List.map_map, Function.comp_def]

private theorem Shape.written_text {shape : Shape} (hreal : shape ≠ .real) (value : shape.Value) :
    shape.Written value (shape.text value).toList := by
  cases shape with
  | natural bound => exact digits_toString value
  | flag => cases value <;> rfl
  | real => exact absurd rfl hreal
  | naturals bound | block length bound => exact numbers_naturalsText value

/-! ### Records -/

/-- Only white space stands between the parts of an object. -/
structure Style.Spaces (style : Style) : Prop where
  lead : Blank style.lead.toList
  close : Blank style.close.toList
  colon : ∃ before after, Blank before ∧ Blank after ∧ style.colon.toList = before ++ ':' :: after

/-- The field has a name that is printed as it is, and its value is not real. -/
structure Field.Plain (field : Field) : Prop where
  name : Unescaped field.name.toList
  shape : field.shape ≠ .real

/-- The text of an entry. -/
def Entry.text (style : Style) (entry : Entry) : List Char :=
  '"' :: (entry.1.name.toList ++ '"' :: (style.colon.toList ++ (entry.1.shape.text entry.2).toList))

private theorem Entry.written_text {style : Style} (hstyle : style.Spaces) {entry : Entry}
    (h : entry.1.Plain) : entry.Written (entry.text style) := by
  obtain ⟨before, after, hbefore, hafter, hcolon⟩ := hstyle.colon
  rw [Entry.text, hcolon, List.append_assoc, List.cons_append]
  exact .mk (spelled_self h.name) hbefore hafter (Shape.written_text h.shape entry.2)

namespace Record

variable {fields : List Field}

/-- The printed fields are the entries of the record, each behind the lead of the style. -/
private theorem toList_fieldTexts (style : Style) (record : Record fields) :
    (fieldTexts style fields record).map String.toList =
      (entries record).map fun entry => style.lead.toList ++ entry.text style := by
  induction fields with
  | nil => rfl
  | cons field fields ih =>
    obtain ⟨value, others⟩ := record
    rw [fieldTexts, entries, List.map_cons, List.map_cons, ih]
    simp [Entry.text]

/-- An object whose fields come in any order. -/
theorem written_object {style : Style} (hstyle : style.Spaces)
    (hfields : ∀ field ∈ fields, field.Plain) {record : Record fields} {listed : List Entry}
    (hperm : listed.Perm (entries record)) :
    record.Written
      ('\x7b' :: ([','].intercalate
        (listed.map fun entry => style.lead.toList ++ entry.text style) ++
      style.close.toList ++ ['\x7d'])) :=
  .object hperm (items_intercalate hstyle.lead hstyle.close fun _ hentry =>
    Entry.written_text hstyle (hfields _ (fst_mem_of_mem_entries (hperm.subset hentry))))

/-- A list of the values in order. -/
theorem written_list (hfields : ∀ field ∈ fields, field.Plain) (record : Record fields) :
    record.Written ('[' :: ([','].intercalate ((entries record).map fun entry =>
      [] ++ (entry.1.shape.text entry.2).toList) ++ [] ++ [']'])) :=
  .list (items_intercalate .nil .nil fun entry hentry =>
    Shape.written_text (hfields _ (fst_mem_of_mem_entries hentry)).shape entry.2)

/-- What is printed is a text of the record. -/
theorem text_writtenIn {style : Style} (hstyle : style.Spaces)
    (hfields : ∀ field ∈ fields, field.Plain) (record : Record fields) :
    record.WrittenIn (text style fields record) := by
  refine ⟨[], _, [], .nil, written_object hstyle hfields (.refl _), .nil, ?_⟩
  simp [text, String.toList_intercalate, toList_fieldTexts]

end Record

end SparsePattern.Json
