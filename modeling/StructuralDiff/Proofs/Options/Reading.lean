/-
  StructuralDiff.Proofs.Options.Reading

  What options a document holds.

  A switch is on if the document has the name with the value true, off if it has
  it with the value false or not at all; as no name stands twice in a document,
  these exclude one another (`switch_eq_ok_iff`).  Of a document of switches the
  options are read off whatever the order of its lines, and all other names are
  left alone (`ofToml_of_lines`).  Options that are written are such a document, so
  they are read back, from a text (`ofToml_toToml`) and from the bytes of a file
  (`ofFile_toToml`).  A file without a text is the only one that is reported as
  unreadable (`ofFile_unreadable_iff`).
-/

import StructuralDiff.OptionFile
import StructuralDiff.Proofs.Fallible
import StructuralDiff.Proofs.Toml.Lines
import StructuralDiff.Proofs.Toml.Tables

namespace StructuralDiff

open Toml (BareName Blanks Comment Entries Ends Item Line Lines Tidy entriesOf skipMark)

namespace OptionFile

-- ============================================================================
-- Switches
-- ============================================================================

/-- The table puts a switch in a position: it has the name with this position, or
    it has no such name and the switch is off. -/
def Puts (entries : Entries) (name : String) (on : Bool) : Prop :=
  (name, Item.boolean on) ∈ entries ∨ name ∉ entries.map Prod.fst ∧ on = false

section

variable {entries : Entries} {name : String} {on : Bool} {os : List (String × Bool)}
  {text : String}

theorem switch_eq_ok_iff (h : Tidy entries) :
    switch entries name = .ok on ↔ Puts entries name on := by
  rw [Puts, ← OrderedMap.findIn_eq_some_iff h.keys, ← OrderedMap.findIn_eq_none_iff, switch]
  cases hfind : OrderedMap.findIn name entries with
  | none => simp [eq_comm]
  | some x => cases x <;> simp

theorem document_eq_ok_iff : document text = .ok entries ↔ Toml.parse text = some entries := by
  rw [document]
  cases Toml.parse text <;> simp

/-- The reading fails only with the report that the text is malformed. -/
def FailsMalformed {β : Type} (x : Except OptionFileError β) : Prop :=
  ∀ why, x = .error why → why = .malformed

theorem failsMalformed_ok {β : Type} (b : β) : FailsMalformed (.ok b) := by
  rintro _ ⟨⟩

theorem FailsMalformed.bind {α β : Type} {x : Except OptionFileError α}
    {next : α → Except OptionFileError β} (hx : FailsMalformed x)
    (hnext : ∀ a, FailsMalformed (next a)) : FailsMalformed (x >>= next) := by
  cases x with
  | ok a => exact hnext a
  | error why =>
    rintro _ ⟨⟩
    exact hx why rfl

theorem switch_failsMalformed (entries : Entries) (name : String) :
    FailsMalformed (switch entries name) := by
  intro why hfail
  cases hfind : OrderedMap.findIn name entries with
  | none => simp [switch, hfind] at hfail
  | some x => cases x <;> simp_all [switch]

theorem document_failsMalformed (text : String) : FailsMalformed (document text) := by
  intro why hfail
  cases hparse : Toml.parse text with
  | none => simpa [document, hparse] using hfail.symm
  | some entries => simp [document, hparse] at hfail

/-- In a table of switches a switch is on if it stands there with the value
    true. -/
theorem switch_entriesOf (hnodup : (os.map Prod.fst).Nodup) (name : String) :
    switch (entriesOf os) name = .ok (decide ((name, true) ∈ os)) := by
  simp only [switch, Toml.findIn_entriesOf, ← OrderedMap.findIn_eq_some_iff hnodup]
  cases OrderedMap.findIn name os with
  | none => rfl
  | some on => cases on <;> rfl

theorem document_of_lines (h : Lines (skipMark text.toList) os) :
    document text = if (os.map Prod.fst).Nodup then .ok (entriesOf os) else .error .malformed := by
  rw [document, Toml.parse_of_lines h]
  by_cases hnodup : (os.map Prod.fst).Nodup
  · simp only [if_pos hnodup]
  · simp only [if_neg hnodup]

-- ============================================================================
-- Written lines
-- ============================================================================

/-- The lines of some switches. -/
def written : List (String × Bool) → String
  | [] => ""
  | e :: os => line e.1 e.2 ++ written os

theorem toList_line (name : String) (on : Bool) :
    (line name on).toList =
      name.toList ++ ([' '] ++ '=' :: ([' '] ++ (Toml.word on ++ ['\n']))) := by
  cases on <;> simp [line, Toml.word]

/-- What is written is a document of switches. -/
theorem lines_written (hos : ∀ e ∈ os, BareName e.1) : Lines (written os).toList os := by
  induction os with
  | nil => exact .nil
  | cons e os ih =>
    obtain ⟨he, hos⟩ := List.forall_mem_cons.mp hos
    have hnil : Blanks [] := List.forall_mem_nil _
    have hspace : Blanks [' '] := List.forall_mem_singleton.mpr rfl
    have hline : Line _ (some (e.1, e.2)) := .switch hnil he hspace hspace hnil .absent
    have hlines := Lines.cons hline (.short _) (ih hos)
    rw [written, String.toList_append, toList_line]
    simpa using hlines

/-- Written switches are read as they were written. -/
theorem parse_written (hos : ∀ e ∈ os, BareName e.1) (hnodup : (os.map Prod.fst).Nodup) :
    Toml.parse (written os) = some (entriesOf os) := by
  have hlines := lines_written hos
  have hmarked : Lines (skipMark (written os).toList) os := hlines.skipMark_eq.symm ▸ hlines
  rw [Toml.parse_of_lines hmarked, if_pos hnodup]

theorem puts_entriesOf {e : String × Bool} (he : e ∈ os) : Puts (entriesOf os) e.1 e.2 :=
  .inl (List.mem_map_of_mem he)

end
end OptionFile

open OptionFile

variable {text : String} {os : List (String × Bool)}

-- ============================================================================
-- Options of the pairing policy
-- ============================================================================

namespace Pairing.Options

/-- The switches of some options. -/
def switches (o : Options) : List (String × Bool) :=
  [(limitName, o.limitConclusions), (preferName, o.preferDependence), (afterName, o.allowAfter)]

/-- **What options a document holds**, for every text: the text is a document, and it
    puts each switch in the position that the options give. -/
theorem ofToml_eq_ok_iff {o : Options} : ofToml text = .ok o ↔
    ∃ entries, Toml.parse text = some entries ∧ ∀ e ∈ o.switches, Puts entries e.1 e.2 := by
  simp only [ofToml, bind_eq_ok_iff, document_eq_ok_iff]
  refine exists_congr fun entries => and_congr_right fun hparse => ?_
  have htidy : Tidy entries := Toml.parse_tidy hparse
  simp only [switch_eq_ok_iff htidy, switches, List.forall_mem_cons]
  constructor
  · rintro ⟨limit, hlimit, prefer, hprefer, allow, hallow, heq⟩
    cases heq
    exact ⟨hlimit, hprefer, hallow, List.forall_mem_nil _⟩
  · rintro ⟨hlimit, hprefer, hallow, -⟩
    exact ⟨_, hlimit, _, hprefer, _, hallow, rfl⟩

/-- A document of switches holds the options that its lines switch on, in whatever
    order they stand, and its other names are left alone. -/
theorem ofToml_of_lines (h : Lines (skipMark text.toList) os) :
    ofToml text =
      if (os.map Prod.fst).Nodup then
        .ok ⟨decide ((limitName, true) ∈ os), decide ((preferName, true) ∈ os),
          decide ((afterName, true) ∈ os)⟩
      else .error .malformed := by
  rw [ofToml, document_of_lines h]
  by_cases hnodup : (os.map Prod.fst).Nodup
  · have hread := switch_entriesOf hnodup
    simp only [if_pos hnodup, bind, Except.bind, hread]
    rfl
  · simp only [if_neg hnodup]
    rfl

theorem toToml_eq (o : Options) : o.toToml = written o.switches := by
  simp only [toToml, switches, written, String.append_empty, String.append_assoc]

/-- **Options that are written are read back.** -/
theorem ofToml_toToml (o : Options) : ofToml o.toToml = .ok o := by
  have hnames : ∀ name ∈ [limitName, preferName, afterName], BareName name := by
    rintro name (_ | ⟨_, _ | ⟨_, _ | ⟨_, ⟨⟩⟩⟩⟩) <;>
      exact ⟨by decide, List.all_eq_true.mp (by decide)⟩
  have hnodup : [limitName, preferName, afterName].Nodup := by decide
  rw [ofToml_eq_ok_iff, toToml_eq]
  refine ⟨_, parse_written (fun e he => hnames e.1 ?_) hnodup, fun e => puts_entriesOf⟩
  exact List.mem_map_of_mem (f := Prod.fst) he

theorem ofToml_failsMalformed (text : String) : FailsMalformed (ofToml text) :=
  (document_failsMalformed text).bind fun entries =>
    (switch_failsMalformed entries limitName).bind fun _ =>
      (switch_failsMalformed entries preferName).bind fun _ =>
        (switch_failsMalformed entries afterName).bind fun _ => failsMalformed_ok _

/-- A file is reported as unreadable just when it has no text, and then with its own
    path. -/
theorem ofFile_unreadable_iff {path path' : String} {content : Option ByteArray} :
    ofFile path content = .error (.unreadable path') ↔ textOf content = none ∧ path' = path := by
  cases htext : textOf content with
  | none => simp [ofFile, htext, eq_comm]
  | some text =>
    have hfails : ofToml text ≠ .error (.unreadable path') := by
      intro hfail
      cases ofToml_failsMalformed text _ hfail
    simp [ofFile, htext, hfails]

/-- A file that options were written to holds them. -/
theorem ofFile_toToml (path : String) (o : Options) :
    ofFile path (some o.toToml.toUTF8) = .ok o := by
  have htext : textOf (some o.toToml.toUTF8) = some o.toToml := by
    rw [textOf, Option.bind_some, String.fromUTF8?]
    exact dif_pos o.toToml.isValidUTF8
  rw [ofFile, htext]
  exact ofToml_toToml o

end Pairing.Options

-- ============================================================================
-- Options of the catalog
-- ============================================================================

namespace Catalog.Options

/-- The switches of some options. -/
def switches (o : Options) : List (String × Bool) := [(primedName, o.primedConclusions)]

theorem ofToml_eq_ok_iff {o : Options} : ofToml text = .ok o ↔
    ∃ entries, Toml.parse text = some entries ∧ ∀ e ∈ o.switches, Puts entries e.1 e.2 := by
  simp only [ofToml, bind_eq_ok_iff, document_eq_ok_iff]
  refine exists_congr fun entries => and_congr_right fun hparse => ?_
  have htidy : Tidy entries := Toml.parse_tidy hparse
  simp only [switch_eq_ok_iff htidy, switches, List.forall_mem_cons]
  constructor
  · rintro ⟨primed, hprimed, heq⟩
    cases heq
    exact ⟨hprimed, List.forall_mem_nil _⟩
  · rintro ⟨hprimed, -⟩
    exact ⟨_, hprimed, rfl⟩

theorem ofToml_of_lines (h : Lines (skipMark text.toList) os) :
    ofToml text =
      if (os.map Prod.fst).Nodup then .ok ⟨decide ((primedName, true) ∈ os)⟩
      else .error .malformed := by
  rw [ofToml, document_of_lines h]
  by_cases hnodup : (os.map Prod.fst).Nodup
  · have hread := switch_entriesOf hnodup
    simp only [if_pos hnodup, bind, Except.bind, hread]
    rfl
  · simp only [if_neg hnodup]
    rfl

theorem ofToml_toToml (o : Options) : ofToml o.toToml = .ok o := by
  have hname : BareName primedName := ⟨by decide, List.all_eq_true.mp (by decide)⟩
  have hwritten : o.toToml = written o.switches := by
    rw [toToml, switches, written, written, String.append_empty]
  rw [ofToml_eq_ok_iff, hwritten]
  refine ⟨_, parse_written (fun e he => ?_) (List.pairwise_singleton _ _), fun e => puts_entriesOf⟩
  rw [List.mem_singleton.mp he]
  exact hname

end Catalog.Options
end StructuralDiff
