import RecordCompat.Comparison
import RecordCompat.Json

/-! The result of a check: comparisons of sources and a verdict. A report passes when no
finding is breaking. Suggestions belong to failed reports only. -/
namespace RecordCompat

structure Report where
  sources : List SourceComparison

namespace Report

def isBreaking (r : Report) : Bool :=
  r.sources.any SourceComparison.isBreaking

def passed (r : Report) : Bool :=
  !r.isBreaking

def isEmpty (r : Report) : Bool :=
  r.sources.all SourceComparison.isEmpty

def remedies : List String :=
  ["Add default values to new fields",
    "Make new fields nullable",
    "Append new fields at the end instead of inserting them in the middle",
    "Deprecate fields and data classes before removing them"]

end Report

def Json.optional : Option String → Json
  | none => .null
  | some text => .string text

def Finding.toJson (f : Finding) : Json :=
  .object [("field_name", Json.optional f.field?), ("kind", .string f.kind),
    ("message", .string f.message), ("severity", .string f.severity.label)]

def Comparison.toJson (c : Comparison) : Json :=
  .object [("findings", .array (c.findings.map Finding.toJson)), ("name", .string c.name),
    ("new_source", Json.optional c.newSource?), ("old_source", Json.optional c.oldSource?),
    ("status", .string c.status.label)]

def SourceComparison.toJson (s : SourceComparison) : Json :=
  .object [("comparisons", .array (s.comparisons.map Comparison.toJson)),
    ("label", .string s.label)]

/-- The report as a document, with suggestions in case it fails. -/
def Report.toJson (suggestions : List String) (r : Report) : Json :=
  .object [("passed", .bool r.passed),
    ("sources", .array (r.sources.map SourceComparison.toJson)),
    ("suggestions", .array (if r.passed then [] else suggestions.map .string))]

end RecordCompat
