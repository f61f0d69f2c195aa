import SparsePattern.Command
import SparsePattern.Proofs.Compressed.Agreement
import SparsePattern.Proofs.Stencil
import SparsePattern.Proofs.Text.Reading

/-!
# What commands show

A command that shows a file works on the view of its bytes (`Command.run_of_load`), and shows what
it would show of the pattern that is decoded from them (`Command.render_congr`).  A file that cannot
be opened is complained about for the same reason (`Command.fails_of_load`).  The file of a stencil
is small enough to be opened again (`Stencil.byteCount_lt`).
-/

namespace SparsePattern

open Compressed (layout Faithful)

namespace Command

variable {store : Store} {path : String} {c : Command}

/-! ### Arguments -/

/-- The arguments that ask for a command. -/
def arguments : Command → List String
  | info path false => ["info", path]
  | info path true => ["info", path, "--json"]
  | points path => ["gnuplot", path]
  | rows path => ["print", path]
  | stencil width path => ["stencil", toString width, path]

/-- The path stands for itself among arguments. -/
def IsOperand (path : String) : Prop := path ≠ "" ∧ isOption path = false

/-- What is no option, and not the end of options, is an operand. -/
private theorem sortArguments_operand {argument : String} (h : isOption argument = false)
    (rest : List String) :
    sortArguments (argument :: rest) =
      { sortArguments rest with operands := argument :: (sortArguments rest).operands } := by
  have hdashes : argument ≠ "--" := by
    rintro rfl
    cases h
  rw [sortArguments, if_neg hdashes]
  simp [h]

private theorem isOption_toString (n : Nat) : isOption (toString n) = false := by
  have hminus : '-' ∉ Nat.toDigits 10 n := Text.not_mem_digits (by decide) n
  have htext : (toString n).toList = Nat.toDigits 10 n := Nat.toList_repr
  unfold isOption
  split
  · rename_i c rest heq
    rw [← htext, heq] at hminus
    exact absurd List.mem_cons_self hminus
  · rfl

private theorem width?_toString {n : Nat} (hn : n < sizeLimit) : width? (toString n) = some n := by
  have hplus : '+' ∉ Nat.toDigits 10 n := Text.not_mem_digits (by decide) n
  have htext : (toString n).toList = Nat.toDigits 10 n := Nat.toList_repr
  have hvalue : (Nat.toDigits 10 n).foldl (fun n c => 10 * n + (c.toNat - '0'.toNat)) 0 = n :=
    Nat.ofDigitChars_ten_toDigits
  simp only [width?, htext]
  split
  · rename_i rest heq
    exact absurd (heq ▸ List.mem_cons_self) hplus
  · rw [hvalue, if_pos ⟨Nat.toDigits_ne_nil, Text.all_isDigit_digits n, hn⟩]

/-- The command can be asked for by its arguments. -/
def IsAskable : Command → Prop
  | info path _ | points path | rows path => IsOperand path
  | stencil width path => width < sizeLimit ∧ IsOperand path

private theorem parse_arguments (h : c.IsAskable) : parse c.arguments = some c := by
  have halone {path : String} (h : IsOperand path) :
      sortArguments [path] = { operands := [path] } :=
    sortArguments_operand h.2 []
  have hpath {path : String} (h : IsOperand path) : path? path = some path := if_neg h.1
  cases c with
  | info path json =>
    have hjson : sortArguments [path, "--json"] = { options := ["--json"], operands := [path] } :=
      sortArguments_operand h.2 ["--json"]
    cases json with
    | false => simp [arguments, parse, halone h, hpath h]
    | true => simp [arguments, parse, hjson, hpath h]
  | points path | rows path => simp [arguments, parse, halone h, hpath h]
  | stencil width path =>
    obtain ⟨hwidth, hoperand⟩ := h
    have hboth : sortArguments [toString width, path] = { operands := [toString width, path] } := by
      rw [sortArguments_operand (isOption_toString width), halone hoperand]
    have hcells := width?_toString hwidth
    rw [Nat.toString_eq_repr] at hboth hcells
    simp [arguments, parse, hboth, hcells, hpath hoperand]

/-! ### Texts -/

/-- The text that a command shows of a structure. -/
def render {α : Type} [Compressed α] (c : Command) (s : α) : Except Fault String :=
  match c with
  | info _ json => do
    let figures ← Summary.of s
    return (if json then figures.toJson else figures.text) ++ "\n"
  | points _ => (pointLines s).complete
  | rows _ => (rowLines s).complete
  | stencil .. => return ""

section Texts

variable {α β : Type} [Compressed α] [LawfulCompressed α] [Compressed β] [LawfulCompressed β]
  {s : α} {t : β}

private theorem exists_render (c : Command) (hs : Faithful s) : ∃ text, c.render s = .ok text := by
  cases c with
  | info path json =>
    rw [render, hs.summary_eq]
    exact ⟨_, rfl⟩
  | points path => exact ⟨_, complete_pointLines hs.wellFormed⟩
  | rows path => exact ⟨_, complete_rowLines hs.wellFormed⟩
  | stencil width path => exact ⟨"", rfl⟩

/-- Structures of one layout have one text, whatever each of them keeps at hand. -/
theorem render_congr (c : Command) (hs : Faithful s) (ht : Faithful t) (h : layout s = layout t) :
    c.render s = c.render t := by
  have hrows : Compressed.nRows s = Compressed.nRows t := congrArg Layout.nRows h
  have hcols : Compressed.nCols s = Compressed.nCols t := congrArg Layout.nCols h
  have hflag : Compressed.diagonalFirst s = Compressed.diagonalFirst t :=
    congrArg Layout.diagonalFirst h
  cases c with
  | info path json => rw [render, render, hs.summary_eq, ht.summary_eq, hrows, hcols, hflag, h]
  | points path => rw [render, render, pointLines_eq hs.wellFormed, pointLines_eq ht.wellFormed, h]
  | rows path => rw [render, render, rowLines_eq hs.wellFormed, rowLines_eq ht.wellFormed, hrows, h]
  | stencil width path => rfl

end Texts

/-! ### Showing files -/

/-- The command succeeds and shows the text of the pattern; it changes no file. -/
def Shows (c : Command) (store : Store) (p : Pattern) : Prop :=
  ∃ text, c.render p = .ok text ∧ c.outcome store = { code := successCode, text, store }

/-- The command fails for this reason; it shows nothing and changes no file. -/
def Fails (c : Command) (store : Store) (trouble : Trouble) : Prop :=
  c.outcome store = { code := failureCode, complaint := some trouble.message, store }

private theorem outcome_of_run {text : String} {after : Store}
    (h : c.run store = .ok (text, after)) :
    c.outcome store = { code := successCode, text, store := after } := by
  rw [outcome, h]

private theorem fails_of_run {trouble : Trouble} (h : c.run store = .error trouble) :
    c.Fails store trouble := by
  rw [Fails, outcome, h]

/-- What a command shows of an opened file is the text of its view, or the fault that stopped the
text. -/
theorem run_of_load {f : ImageFile} (hinput : c.input? = some path)
    (hload : ImageFile.load store path = .ok f) :
    c.run store = ((c.render f.view).map (·, store)).mapError .fault := by
  have hshown (text : Except Fault String) :
      (text.mapError Trouble.fault >>= fun text => .ok (text, store)) =
      (text.map (·, store)).mapError .fault := by
    cases text <;> rfl
  cases c with
  | info path json =>
    obtain rfl := Option.some.inj hinput
    rw [run, hload, render]
    show ((Summary.of f.view).mapError Trouble.fault >>= _) = _
    cases Summary.of f.view <;> rfl
  | points path | rows path =>
    obtain rfl := Option.some.inj hinput
    rw [run, hload]
    exact hshown _
  | stencil width path => cases hinput

/-- A file that cannot be opened is complained about for the reason that opening it gives. -/
theorem fails_of_load {trouble : Trouble} (hinput : c.input? = some path)
    (hload : ImageFile.load store path = .error trouble) : c.Fails store trouble := by
  refine fails_of_run ?_
  cases c with
  | info path json | points path | rows path =>
    obtain rfl := Option.some.inj hinput
    rw [run, hload]
    rfl
  | stencil width path => cases hinput

section Files

variable {content : Bytes}

private theorem shows_of_ofBytes {p : Pattern} (hread : store.read? path = some content)
    (hinput : c.input? = some path) (hp : Pattern.ofBytes content = .ok p)
    (hblock : IsBlock content) : c.Shows store p := by
  obtain ⟨f, hf⟩ := ImageFile.exists_load_of_isBlock hread hp hblock
  have hview : View.ofBytes content 0 = .ok f.view := ImageFile.view_of_load hread hf rfl
  have hpattern : Faithful p := .of_pattern (Pattern.wellFormed_ofBytes hp)
  have hlayout : layout f.view = layout p := View.layout_eq_of_ofBytes hview hp
  have hrender : c.render f.view = c.render p := c.render_congr (.of_view hview) hpattern hlayout
  obtain ⟨text, htext⟩ := c.exists_render hpattern
  have hrun : c.run store = .ok (text, store) := by
    rw [run_of_load hinput hf, hrender, htext]
    rfl
  exact ⟨text, htext, outcome_of_run hrun⟩

private theorem exists_fails (hread : store.read? path = some content)
    (hinput : c.input? = some path) (hmemory : content.length < Pattern.vectorLimit)
    (hrefused : ¬((∃ p, Pattern.ofBytes content = .ok p) ∧ IsBlock content)) :
    ∃ trouble, ImageFile.load store path = .error trouble ∧ c.Fails store trouble := by
  cases hload : ImageFile.load store path with
  | ok f => exact absurd ((ImageFile.exists_load_iff hread hmemory).1 ⟨f, hload⟩) hrefused
  | error trouble => exact ⟨trouble, rfl, fails_of_load hinput hload⟩

end Files

end Command

/-! ### Files of stencils -/

namespace Stencil

open Pattern (vectorLimit)

/-- As far as columns fit their numbers, the image of a stencil fits the memory. -/
theorem byteCount_lt {p : Pattern} {width : Nat} (hp : Couples p width)
    (h : width * width < columnLimit) : p.byteCount < vectorLimit := by
  have hrows : p.nRows = width * width := hp.nRows_eq
  have hentries : p.columns.size = 5 * width ^ 2 - 4 * width := Except.ok.inj hp.entryCount_eq
  have hsquare : width ^ 2 = width * width := Nat.pow_two width
  simp only [columnLimit] at h
  simp only [Pattern.byteCount, Header.size, Header.offsetWidth, Header.columnWidth, vectorLimit]
  omega

end Stencil

namespace Command

/-- A stencil that is made and written leaves the file of its image and shows nothing. -/
private theorem outcome_stencil {p : Pattern} {after : Store} {width : Nat}
    (hp : Stencil.fivePoint width = .ok p) (hwrite : store.write path p.toBytes = .ok after) :
    (stencil width path).outcome store = { code := successCode, store := after } := by
  refine outcome_of_run ?_
  rw [run, hp]
  show (store.write path p.toBytes >>= _) = _
  rw [hwrite]
  rfl

private theorem fails_stencil {width : Nat} (h : columnLimit ≤ width * width) :
    (stencil width path).Fails store (.fault .tooLarge) := by
  refine fails_of_run ?_
  rw [run, Stencil.fivePoint_of_le h]
  rfl

/-- Commands can be asked for.  One that shows a file shows just what its bytes say of a pattern, if
they hold one and end with the image that their header states, and otherwise complains about what is
wrong with the file.  One that writes a stencil leaves the image of that very stencil, which the
others show, and no file if the stencil is too large, as far as its cells can be counted.  The bound
for the bytes is that of any stretch of memory. -/
theorem outcome_agrees :
    (∀ c : Command, c.IsAskable → parse c.arguments = some c) ∧
    (∀ store path content (c : Command), store.read? path = some content → c.input? = some path →
      (∀ p, Pattern.ofBytes content = .ok p → IsBlock content → c.Shows store p) ∧
      (content.length < Pattern.vectorLimit →
        ¬((∃ p, Pattern.ofBytes content = .ok p) ∧ IsBlock content) →
        ∃ trouble, ImageFile.load store path = .error trouble ∧ c.Fails store trouble)) ∧
    (∀ store width path, width * width < columnLimit →
      store.hasDirectory (Store.directory path) = true →
      ∃ p after, Stencil.fivePoint width = .ok p ∧
        (stencil width path).outcome store = { code := successCode, store := after } ∧
        after.read? path = some p.toBytes ∧
        (∀ other, other ≠ path → after.read? other = store.read? other) ∧
        ∀ c : Command, c.input? = some path → c.Shows after p) ∧
    ∀ store width path, columnLimit ≤ width * width → width * width < sizeLimit →
      (stencil width path).Fails store (.fault .tooLarge) := by
  refine ⟨fun c => parse_arguments, ?shown, ?written, fun store width path h _ => fails_stencil h⟩
  case shown =>
    intro store path content c hread hinput
    exact ⟨fun p => shows_of_ofBytes hread hinput, exists_fails hread hinput⟩
  case written =>
    intro store width path hwidth hdirectory
    have hstencil := Stencil.fivePoint_eq hwidth
    have hcouples := Stencil.couples_filled hwidth
    have hmemory := Stencil.byteCount_lt hcouples hwidth
    obtain ⟨after, hwrite⟩ :=
      Store.exists_write hdirectory (Stencil.filled width).compressed.toBytes
    have hread := Store.read?_write hwrite
    refine ⟨_, after, hstencil, outcome_stencil hstencil hwrite, hread,
      fun other => Store.read?_write_of_ne hwrite, ?_⟩
    intro c hinput
    have hdecoded := Pattern.ofBytes_toBytes_of_lt hcouples.wellFormed hmemory
    exact shows_of_ofBytes hread hinput hdecoded
      (Pattern.isBlock_toBytes hcouples.wellFormed hmemory)

theorem outcome_agrees_shelf :
    parse ["info", "whole", "--json"] = some (info "whole" true) ∧
    (info "whole" true).Shows ImageFile.shelf Pattern.leading ∧
    (∃ trouble, ImageFile.load ImageFile.shelf "spoiled" = .error trouble ∧
      (rows "spoiled").Fails ImageFile.shelf trouble) ∧
    (∃ p after, Stencil.fivePoint 3 = .ok p ∧
      (stencil 3 "grid").outcome {} = { code := successCode, store := after } ∧
      (points "grid").Shows after p) ∧
    (stencil 0x10000 "grid").Fails {} (.fault .tooLarge) := by
  obtain ⟨asked, shown, written, refused⟩ := outcome_agrees
  refine ⟨asked (info "whole" true) ⟨by decide, by decide⟩, ?whole, ?spoiled, ?stencil, ?large⟩
  case whole =>
    have hpattern : Pattern.ofBytes (Pattern.relocated.take 132) = .ok Pattern.leading := by
      decide +kernel
    have hblock : IsBlock (Pattern.relocated.take 132) :=
      ⟨Header.read Pattern.relocated, by decide +kernel, by decide +kernel⟩
    exact (shown ImageFile.shelf "whole" _ (info "whole" true) rfl rfl).1 _ hpattern hblock
  case spoiled =>
    have hmemory : Source.spoiled.length < Pattern.vectorLimit := by decide +kernel
    have hfault : Pattern.ofBytes Source.spoiled = .error (.malformed .columnBeyondRange) := by
      decide +kernel
    refine (shown ImageFile.shelf "spoiled" _ (rows "spoiled") rfl rfl).2 hmemory ?_
    rintro ⟨⟨p, hp⟩, -⟩
    cases hfault.symm.trans hp
  case stencil =>
    obtain ⟨p, after, hp, houtcome, -, -, hshown⟩ := written {} 3 "grid" (by decide) rfl
    exact ⟨p, after, hp, houtcome, hshown (points "grid") rfl⟩
  case large => exact refused {} 0x10000 "grid" (by decide) (by decide)

end Command

end SparsePattern
