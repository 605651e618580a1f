/-
  StructuralDiff.OptionFile

  Options as TOML documents.  Each option is a switch, a boolean under the
  option's name at the top of the document; a switch that is missing is off, and
  all other keys are left alone (`ofToml_eq_ok_iff`).  What is written is read back
  (`ofToml_toToml`).
-/

import StructuralDiff.Catalog.Standard
import StructuralDiff.Pairing.Basic
import StructuralDiff.Toml.Document

namespace StructuralDiff

/-- Why options could not be read. -/
inductive OptionFileError where
  /-- The file at this path cannot be read as text. -/
  | unreadable (path : String)
  /-- The text is no TOML document, or a switch is no boolean. -/
  | malformed
deriving DecidableEq

namespace OptionFile

/-- The position of a switch. -/
def switch (entries : Toml.Entries) (name : String) : Except OptionFileError Bool :=
  match OrderedMap.findIn name entries with
  | none => .ok false
  | some (.boolean on) => .ok on
  | some _ => .error .malformed

/-- The entries of a document. -/
def document (text : String) : Except OptionFileError Toml.Entries :=
  match Toml.parse text with
  | some entries => .ok entries
  | none => .error .malformed

/-- The line that puts a switch in a position. -/
def line (name : String) (on : Bool) : String :=
  name ++ " = " ++ (if on then "true" else "false") ++ "\n"

/-- The text of a file's bytes; nothing if there is no file or its bytes are no
    UTF-8. -/
def textOf (content : Option ByteArray) : Option String := content.bind String.fromUTF8?

end OptionFile

-- ============================================================================
-- Options of the pairing policy
-- ============================================================================

namespace Pairing.Options

/-- The name of the switch that limits conclusions. -/
def limitName : String := "limit_conclusion_predicates"

/-- The name of the switch that prefers dependence rules. -/
def preferName : String := "prefer_dependence_predicates"

/-- The name of the switch that lets predicates of the later program support added
    facts. -/
def afterName : String := "allow_after_in_antecedent"

/-- Read options from a document. -/
def ofToml (text : String) : Except OptionFileError Options := do
  let entries ← OptionFile.document text
  return { limitConclusions := (← OptionFile.switch entries limitName)
           preferDependence := (← OptionFile.switch entries preferName)
           allowAfter := (← OptionFile.switch entries afterName) }

/-- Read options from a file, given its path and its bytes if there are any. -/
def ofFile (path : String) (content : Option ByteArray) : Except OptionFileError Options :=
  match OptionFile.textOf content with
  | some text => ofToml text
  | none => .error (.unreadable path)

/-- The options as a document. -/
def toToml (o : Options) : String :=
  OptionFile.line limitName o.limitConclusions ++ OptionFile.line preferName o.preferDependence
    ++ OptionFile.line afterName o.allowAfter

end Pairing.Options

-- ============================================================================
-- Options of the catalog
-- ============================================================================

namespace Catalog.Options

/-- The name of the switch that adds primed conclusions. -/
def primedName : String := "primed_conclusions"

/-- Read options from a document. -/
def ofToml (text : String) : Except OptionFileError Options := do
  let entries ← OptionFile.document text
  return { primedConclusions := (← OptionFile.switch entries primedName) }

/-- The options as a document. -/
def toToml (o : Options) : String := OptionFile.line primedName o.primedConclusions

end Catalog.Options
end StructuralDiff
