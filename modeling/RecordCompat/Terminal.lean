import RecordCompat.Report

/-! Lines of text, some of it in colour. A piece of text is written without the characters
that would ring, move or feed; its tabs become blanks up to the next column that is a
multiple of eight, counted from the start of the line. Every line of a coloured piece is
coloured by itself, and in a line with tabs every part up to a tab. -/
namespace RecordCompat

inductive Style
  | plain
  | bold
  | boldRed
  | boldGreen
  | yellow
  | green
  | cyan
  deriving DecidableEq, Repr

def Style.code : Style → String
  | .plain => ""
  | .bold => "1"
  | .boldRed => "1;31"
  | .boldGreen => "1;32"
  | .yellow => "33"
  | .green => "32"
  | .cyan => "36"

structure Span where
  style : Style
  text : List Char
  deriving DecidableEq, Repr

def Span.paint (span : Span) : String :=
  if span.text = [] ∨ span.style = .plain then String.ofList span.text
  else "\x1b[" ++ span.style.code ++ "m" ++ String.ofList span.text ++ "\x1b[0m"

namespace Terminal

/-- Bell, backspace, vertical tab, form feed and carriage return. -/
def isControl (c : Char) : Bool :=
  c == '\x07' || c == '\x08' || c == '\x0b' || c == '\x0c' || c == '\r'

def tabWidth : Nat := 8

/-- The columns that a character is counted for. Terminals show some characters in two columns
and some in none; these are counted as one as well, so behind them in a line a tab may be given
more or fewer blanks than the terminal needs. -/
def columns (c : Char) : Nat :=
  if c.toNat < 0x20 ∨ (0x7F ≤ c.toNat ∧ c.toNat < 0xA0) then 0 else 1

/-- Writes a text in one style from `column` on, where `part` stands already, the last
character first. The result is the column behind it. -/
def layOut (style : Style) (column : Nat) (part : List Char) :
    List Char → String × Nat
  | [] => (Span.paint ⟨style, part.reverse⟩, column)
  | c :: rest =>
    if c = '\n' then
      let later := layOut style 0 [] rest
      (Span.paint ⟨style, part.reverse⟩ ++ "\n" ++ later.1, later.2)
    else if c = '\t' then
      let blanks := tabWidth - column % tabWidth
      let later := layOut style (column + blanks) [] rest
      (Span.paint ⟨style, (List.replicate blanks ' ' ++ part).reverse⟩ ++ later.1, later.2)
    else layOut style (column + columns c) (c :: part) rest

/-- A line made of pieces, the first of them at `column`. -/
def lineFrom (column : Nat) : List Span → String
  | [] => "\n"
  | span :: spans =>
    let laid := layOut span.style column [] (span.text.filter fun c => !isControl c)
    laid.1 ++ lineFrom laid.2 spans

def line (spans : List (Style × String)) : String :=
  lineFrom 0 (spans.map fun (style, text) => ⟨style, text.toList⟩)

def rule : String :=
  line [(.cyan, String.ofList (List.replicate 80 '-'))]

def marker : Severity → Style × String
  | .breaking => (.boldRed, "[BREAKING]")
  | .warning => (.yellow, "[WARNING]")
  | .safe => (.green, "[SAFE]")

def comparison (c : Comparison) : String :=
  let place := if c.location = "" then "" else " (" ++ c.location ++ ")"
  match c.status with
  | .added => line [(.cyan, "[ADDED]"), (.plain, " New data class added: " ++ c.name ++ place)]
  | .removed =>
    String.join (c.findings.map fun f =>
      line [marker f.severity, (.plain, " " ++ f.message ++ place)])
  | _ =>
    line [(.bold, "Analyzing: " ++ c.name ++ place)] ++
      if c.findings = [] then line [(.plain, "   No breaking changes")]
      else String.join (c.findings.map fun f =>
        line [(.plain, "   "), marker f.severity, (.plain, " " ++ f.message)])

def verdict (r : Report) : String :=
  if r.passed then line [(.boldGreen, "No breaking changes detected")]
  else line [(.boldRed, "Breaking changes detected")] ++ line [(.plain, "Suggestions:")] ++
    String.join (Report.remedies.map fun text => line [(.plain, "   - " ++ text)])

def report (r : Report) : String :=
  line [(.plain, "Analyzing data class changes...")] ++ rule ++
    (if r.isEmpty then line [(.plain, "No data classes found in the provided sources")] else "") ++
    String.join (r.sources.map fun s => String.join (s.comparisons.map comparison)) ++
    rule ++ verdict r

end Terminal

end RecordCompat
