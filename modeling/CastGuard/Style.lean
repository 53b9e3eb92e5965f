/-
# `CastGuard.Style` — the names that fixed code uses

A style says where the typed accessors are found, which general type holds a resource before it is
tested, what a failed test gives, and which casts are guarded.  A style is sound if the names are
identifiers and the holder is not itself a guarded type: a holder that were would make the emitted
line look like the line it came from.

A library that compiles the forms of calls and casts to patterns also refuses a style whose patterns
grow beyond its size limit.  Here the forms are read directly, and there is no such fault.
-/
import CastGuard.Text.Class
import CastGuard.Text.Word
import CastGuard.Text.Printable

namespace CastGuard

open CastGuard.Text

/-- The names that fixed code uses and the types whose casts are guarded. -/
structure Style where
  /-- where the typed accessors are found -/
  lib : String
  /-- the type of the temporaries -/
  holder : String
  /-- the value of a guarded cast that fails -/
  null : String
  /-- the types whose casts are guarded -/
  types : List String
  deriving DecidableEq, Repr

namespace Style

/-- The types whose casts are guarded in every project. -/
def builtinTypes : List String :=
  ["CharacterData", "SpriteFrames", "Texture2D", "PackedScene", "BattleData", "CampaignData",
   "ItemData", "NPCData", "DialogueData", "MapMetadata", "ClassData", "CaravanData",
   "InteractableData", "ShopData", "SpellData", "AIBehaviorData"]

/-- The style of a project that says nothing about it. -/
def standard : Style := ⟨"DictUtils", "Resource", "null", builtinTypes⟩

/-- Adds a type at the end of a list, unless the list has it. -/
def addType (types : List String) (t : String) : List String :=
  if t ∈ types then types else types ++ [t]

/-- The style with further types, in order and each once. -/
def withTypes (s : Style) (extra : List String) : Style :=
  { s with types := extra.foldl addType s.types }

end Style

/-- The parts of a style that must be identifiers. -/
inductive StylePart where
  | lib
  | holder
  | types
  deriving DecidableEq, Repr

def StylePart.label : StylePart → String
  | .lib => "namespace"
  | .holder => "holder_type"
  | .types => "known_types"

/-- What is wrong with a style. -/
inductive StyleError where
  | notIdentifier (part : StylePart) (value : String)
  | emptyNull
  | guardedHolder (holder : String)
  deriving DecidableEq, Repr

def StyleError.message : StyleError → String
  | .notIdentifier part value =>
    "invalid " ++ part.label ++ ": " ++ quoted value ++ " is not an identifier"
  | .emptyNull => "null literal must not be empty"
  | .guardedHolder holder =>
    "holder type " ++ quoted holder ++ " must not be one of the known types"

namespace Style

/-- The first thing wrong with a style, in a fixed order of checks. -/
def firstError? (s : Style) : Option StyleError :=
  if !isDottedIdentifier s.lib.toList then some (.notIdentifier .lib s.lib)
  else if !isIdentifier s.holder.toList then some (.notIdentifier .holder s.holder)
  else if (trim s.null.toList).isEmpty then some .emptyNull
  else if s.holder ∈ s.types then some (.guardedHolder s.holder)
  else (s.types.find? fun t => !isIdentifier t.toList).map (.notIdentifier .types)

def Sound (s : Style) : Prop := s.firstError? = none

instance (s : Style) : Decidable s.Sound := inferInstanceAs (Decidable (_ = none))

theorem sound_iff (s : Style) :
    s.Sound ↔ isDottedIdentifier s.lib.toList = true ∧ isIdentifier s.holder.toList = true ∧
      trim s.null.toList ≠ [] ∧ s.holder ∉ s.types ∧
        ∀ t ∈ s.types, isIdentifier t.toList = true := by
  unfold Sound firstError?
  by_cases hlib : isDottedIdentifier s.lib.toList <;> simp [hlib]
  by_cases hholder : isIdentifier s.holder.toList <;> simp [hholder]
  by_cases hnull : trim s.null.toList = [] <;> simp [hnull]
  by_cases hmem : s.holder ∈ s.types <;> simp [hmem]

theorem standard_sound : standard.Sound := by decide +kernel

end Style

end CastGuard
