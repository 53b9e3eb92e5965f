/-
# `CastGuard.SettingsFile` — the settings of a project

A project may have a settings file with two sections, one for the selection of scripts and one for
the style.  Whatever is left out has its usual value; a key that is not a setting, or a value of
the wrong kind, makes the file invalid.

A section is usually a table.  It may also be an array, whose items are the settings of the section
in their fixed order; items behind the last setting are ignored.
-/
import CastGuard.Run
import CastGuard.Toml.Document

namespace CastGuard

open CastGuard.Toml

/-- What a settings file says. -/
structure SettingsFile where
  selection : Selection
  lib : String
  holder : String
  null : String
  extraTypes : List String
  deriving DecidableEq, Repr

namespace SettingsFile

def standard : SettingsFile :=
  ⟨.standard, Style.standard.lib, Style.standard.holder, Style.standard.null, []⟩

def fileName : String := "castfix.toml"

/-! ## Values -/

def text? : Value → Option String
  | .string s => some s
  | _ => none

def texts? : Value → Option (List String)
  | .array vs => vs.mapM text?
  | _ => none

/-- A section: its settings by name or by position. -/
inductive Section where
  | named (es : Entries)
  | listed (vs : List Value)

/-- The section that a value makes; a table may have no keys but those in `names`. -/
def section? (names : List String) : Value → Option Section
  | .table _ es => if es.all fun e => e.1 ∈ names then some (.named es) else none
  | .array vs => some (.listed vs)
  | .tables ts => some (.listed (ts.map (.table .header)))
  | _ => none

def Section.get? (s : Section) (name : String) (position : Nat) : Option Value :=
  match s with
  | .named es => es.get? name
  | .listed vs => vs[position]?

/-- A setting of a section, or its usual value. -/
def Section.setting? {α : Type} (s : Section) (read : Value → Option α) (usual : α)
    (name : String) (position : Nat) : Option α :=
  match s.get? name position with
  | none => some usual
  | some v => read v

/-! ## Sections -/

def selection? (v : Value) : Option Selection := do
  let s ← section? ["roots", "exclude_substrings", "exclude_dirs"] v
  let usual := Selection.standard
  let roots ← s.setting? texts? usual.roots "roots" 0
  let excludedTexts ← s.setting? texts? usual.excludedTexts "exclude_substrings" 1
  let excludedDirs ← s.setting? texts? usual.excludedDirs "exclude_dirs" 2
  return ⟨roots, excludedTexts, excludedDirs⟩

/-- The section on the style, added to what the file says otherwise. -/
def style? (file : SettingsFile) (v : Value) : Option SettingsFile := do
  let s ← section? ["namespace", "holder_type", "null_literal", "extra_types"] v
  let lib ← s.setting? text? standard.lib "namespace" 0
  let holder ← s.setting? text? standard.holder "holder_type" 1
  let null ← s.setting? text? standard.null "null_literal" 2
  let extraTypes ← s.setting? texts? standard.extraTypes "extra_types" 3
  return ⟨file.selection, lib, holder, null, extraTypes⟩

def ofEntries? (es : Entries) : Option SettingsFile := do
  let s ← section? ["scan", "rewrite"] (.table .header es)
  let selection ← s.setting? selection? Selection.standard "scan" 0
  let file : SettingsFile := { standard with selection }
  s.setting? (style? file) file "rewrite" 1

/-- What the text of a settings file says, if it is valid. -/
def parse? (text : String) : Option SettingsFile := (Toml.parse? text).bind ofEntries?

/-- The style that a settings file asks for: its own names, and its types behind the usual ones. -/
def style (file : SettingsFile) : Style :=
  Style.withTypes ⟨file.lib, file.holder, file.null, Style.builtinTypes⟩ file.extraTypes

/-- The settings of a run: the file's, and those given for the run. -/
def runSettings (file : SettingsFile) (projectRoot : String) (dryRun wantsPatch : Bool) :
    RunSettings :=
  ⟨projectRoot, file.selection, file.style, dryRun, wantsPatch⟩

end SettingsFile

end CastGuard
