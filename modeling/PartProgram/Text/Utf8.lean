import PartProgram.Text.Basic

/-! # UTF-8

Encoding, and decoding that never fails: every longest ill-formed start of a
sequence becomes one replacement character.
-/
namespace PartProgram.Text

abbrev Bytes := List UInt8

def encodeChar (c : Char) : Bytes :=
  let n := c.toNat
  let next (shift : Nat) : UInt8 := (0x80 + n >>> shift % 64).toUInt8
  if n < 0x80 then [n.toUInt8]
  else if n < 0x800 then [(0xC0 + n >>> 6).toUInt8, next 0]
  else if n < 0x10000 then [(0xE0 + n >>> 12).toUInt8, next 6, next 0]
  else [(0xF0 + n >>> 18).toUInt8, next 12, next 6, next 0]

def encode (s : Text) : Bytes := s.flatMap encodeChar

/-- A sequence under way: the bits so far, the bytes still missing, and the range of the next. -/
structure Pending where
  bits : Nat
  missing : Nat
  low : UInt8
  high : UInt8
  deriving DecidableEq, Repr

def replacement : Char := '\uFFFD'

/-- What a byte means at the start of a sequence. -/
inductive Lead where
  | char (c : Char)
  | begins (p : Pending)
  | wrong
  deriving DecidableEq, Repr

/-- The range of the second byte shuts out long forms, surrogates and numbers beyond Unicode. -/
def lead (b : UInt8) : Lead :=
  let bits := b.toNat
  if b < 0x80 then .char (Char.ofNat bits)
  else if b < 0xC2 then .wrong
  else if b < 0xE0 then .begins ⟨bits % 32, 1, 0x80, 0xBF⟩
  else if b = 0xE0 then .begins ⟨0, 2, 0xA0, 0xBF⟩
  else if b = 0xED then .begins ⟨0xD, 2, 0x80, 0x9F⟩
  else if b < 0xF0 then .begins ⟨bits % 16, 2, 0x80, 0xBF⟩
  else if b = 0xF0 then .begins ⟨0, 3, 0x90, 0xBF⟩
  else if b < 0xF4 then .begins ⟨bits % 8, 3, 0x80, 0xBF⟩
  else if b = 0xF4 then .begins ⟨4, 3, 0x80, 0x8F⟩
  else .wrong

/-- The characters decoded, last one first, and the sequence under way. -/
structure Decoder where
  decoded : Text := []
  pending : Option Pending := none
  deriving Repr

namespace Decoder

def emit (d : Decoder) (c : Char) : Decoder := ⟨c :: d.decoded, none⟩

def start (d : Decoder) (b : UInt8) : Decoder :=
  match lead b with
  | .char c => d.emit c
  | .begins p => { d with pending := some p }
  | .wrong => d.emit replacement

/-- A byte outside the range of the next one ends the sequence and starts another. -/
def feed (d : Decoder) (b : UInt8) : Decoder :=
  match d.pending with
  | none => d.start b
  | some p =>
    if p.low ≤ b ∧ b ≤ p.high then
      let bits := p.bits * 64 + b.toNat % 64
      if p.missing = 1 then d.emit (Char.ofNat bits)
      else { d with pending := some ⟨bits, p.missing - 1, 0x80, 0xBF⟩ }
    else (d.emit replacement).start b

def finish (d : Decoder) : Text :=
  match d.pending with
  | none => d.decoded.reverse
  | some _ => (d.emit replacement).decoded.reverse

end Decoder

def decode (bytes : Bytes) : Text := (bytes.foldl Decoder.feed {}).finish

end PartProgram.Text
