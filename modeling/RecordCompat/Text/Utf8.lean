import RecordCompat.Text.Quoted

/-! Strict UTF-8: shortest forms only, no surrogates, nothing above U+10FFFF. A leading byte
fixes the ranges that the bytes after it must lie in, so a fault is found at the first
byte that cannot continue the character begun. A decoded file then has its line ends
unified: carriage returns, alone or before a line feed, become line feeds. -/
namespace RecordCompat.Text

namespace Utf8

inductive Fault
  | invalidStart
  | invalidContinuation
  | unexpectedEnd
  deriving DecidableEq, Repr

/-- Where decoding stopped: at `length` bytes, the first of which is `first`, that begin
at offset `start`. -/
structure DecodeError where
  start : Nat
  length : Nat
  first : UInt8
  fault : Fault
  deriving DecidableEq, Repr

def Fault.message : Fault → String
  | .invalidStart => "invalid start byte"
  | .invalidContinuation => "invalid continuation byte"
  | .unexpectedEnd => "unexpected end of data"

def DecodeError.message (e : DecodeError) : String :=
  let place :=
    if e.length = 1 then
      "byte 0x" ++ String.ofList (hex 2 e.first.toNat) ++ " in position " ++ toString e.start
    else
      "bytes in position " ++ toString e.start ++ "-" ++ toString (e.start + e.length - 1)
  "'utf-8' codec can't decode " ++ place ++ ": " ++ e.fault.message

structure ByteRange where
  low : UInt8
  high : UInt8

def ByteRange.contains (range : ByteRange) (b : UInt8) : Bool :=
  range.low ≤ b && b ≤ range.high

def tail : ByteRange := ⟨0x80, 0xBF⟩

/-- The bits of the character that a leading byte carries, and the ranges of the bytes
that must follow it. -/
def lead? (b : UInt8) : Option (Nat × List ByteRange) :=
  if b < 0x80 then some (b.toNat, [])
  else if b < 0xC2 then none
  else if b < 0xE0 then some (b.toNat - 0xC0, [tail])
  else if b = 0xE0 then some (0, [⟨0xA0, 0xBF⟩, tail])
  else if b = 0xED then some (0xD, [⟨0x80, 0x9F⟩, tail])
  else if b < 0xF0 then some (b.toNat - 0xE0, [tail, tail])
  else if b = 0xF0 then some (0, [⟨0x90, 0xBF⟩, tail, tail])
  else if b < 0xF4 then some (b.toNat - 0xF0, [tail, tail, tail])
  else if b = 0xF4 then some (4, [⟨0x80, 0x8F⟩, tail, tail])
  else none

/-- A character of which some bytes are still to come. -/
structure Pending where
  start : Nat
  first : UInt8
  bits : Nat
  expected : ByteRange
  later : List ByteRange

/-- Decodes from offset `pos`; `done` holds the characters so far, the last one first. -/
def decodeFrom (pos : Nat) (pending : Option Pending) (done : List Char) :
    List UInt8 → Except DecodeError (List Char)
  | [] =>
    match pending with
    | none => .ok done.reverse
    | some p => .error ⟨p.start, pos - p.start, p.first, .unexpectedEnd⟩
  | b :: bytes =>
    match pending with
    | none =>
      match lead? b with
      | none => .error ⟨pos, 1, b, .invalidStart⟩
      | some (bits, []) => decodeFrom (pos + 1) none (Char.ofNat bits :: done) bytes
      | some (bits, range :: later) =>
        decodeFrom (pos + 1) (some ⟨pos, b, bits, range, later⟩) done bytes
    | some p =>
      if p.expected.contains b then
        let bits := p.bits * 64 + (b.toNat - 0x80)
        match p.later with
        | [] => decodeFrom (pos + 1) none (Char.ofNat bits :: done) bytes
        | range :: later =>
          decodeFrom (pos + 1) (some ⟨p.start, p.first, bits, range, later⟩) done bytes
      else .error ⟨p.start, pos - p.start, p.first, .invalidContinuation⟩

end Utf8

def decodeUtf8 (bytes : List UInt8) : Except Utf8.DecodeError (List Char) :=
  Utf8.decodeFrom 0 none [] bytes

def unifyLineEnds : List Char → List Char
  | [] => []
  | '\r' :: '\n' :: rest => '\n' :: unifyLineEnds rest
  | '\r' :: rest => '\n' :: unifyLineEnds rest
  | c :: rest => c :: unifyLineEnds rest

def readText (bytes : List UInt8) : Except Utf8.DecodeError String :=
  (decodeUtf8 bytes).map fun chars => String.ofList (unifyLineEnds chars)

end RecordCompat.Text
