/-
Bytes that may or may not be the UTF-8 form of a text.

* `Utf8.decodeLossy` — a text for any bytes: every longest part of an ill-formed
  sequence that could begin a well-formed one, or a byte that fits nowhere,
  gives one replacement character;
* `Octets.ofBytes`, `Octets.toBytes` — the octet text of bytes, and back;
* `Octets.ofText`, `Octets.toText` — the octet text of the UTF-8 form of a text, and
  back.

An octet text is a text each of whose characters stands for one byte, so that texts
in any encoding, and in none, can be handled sign by sign.

Main statement: `toBytes_ofBytes` — no byte is lost.

Design notes: the decoder takes one byte at a time.  Its state says how many
bytes are missing and between which bounds the next one must lie.
-/
namespace StyleTokens.Utf8

/-- Stands for what cannot be decoded. -/
def replacement : Char := '\ufffd'

/-- A sequence that has begun: the bits so far, the number of bytes missing and
the bounds of the next one. -/
structure Pending where
  bits : Nat
  missing : Nat
  low : Nat
  high : Nat
  deriving DecidableEq, Repr

/-- What a byte that begins a sequence amounts to: characters, or a sequence. -/
def begin (byte : Nat) : List Char × Option Pending :=
  if byte < 0x80 then ([Char.ofNat byte], none)
  else if byte < 0xC2 then ([replacement], none)
  else if byte < 0xE0 then ([], some ⟨byte - 0xC0, 1, 0x80, 0xBF⟩)
  else if byte = 0xE0 then ([], some ⟨0, 2, 0xA0, 0xBF⟩)
  else if byte = 0xED then ([], some ⟨0xD, 2, 0x80, 0x9F⟩)
  else if byte < 0xF0 then ([], some ⟨byte - 0xE0, 2, 0x80, 0xBF⟩)
  else if byte = 0xF0 then ([], some ⟨0, 3, 0x90, 0xBF⟩)
  else if byte < 0xF4 then ([], some ⟨byte - 0xF0, 3, 0x80, 0xBF⟩)
  else if byte = 0xF4 then ([], some ⟨4, 3, 0x80, 0x8F⟩)
  else ([replacement], none)

/-- What one more byte adds to the text, and the sequence it leaves. -/
def step (pending : Option Pending) (byte : Nat) : List Char × Option Pending :=
  match pending with
  | none => begin byte
  | some p =>
    if p.low ≤ byte && byte ≤ p.high then
      let bits := p.bits * 64 + (byte - 0x80)
      if p.missing = 1 then ([Char.ofNat bits], none)
      else ([], some ⟨bits, p.missing - 1, 0x80, 0xBF⟩)
    else
      let (chars, next) := begin byte
      (replacement :: chars, next)

/-- The text of bytes that follow a sequence that has begun. -/
def decodeFrom : Option Pending → List UInt8 → List Char
  | none, [] => []
  | some _, [] => [replacement]
  | pending, byte :: bytes =>
    let (chars, next) := step pending byte.toNat
    chars ++ decodeFrom next bytes

/-- A text for any bytes. -/
def decodeLossy (bytes : ByteArray) : List Char :=
  decodeFrom none bytes.data.toList

end StyleTokens.Utf8

namespace StyleTokens.Octets

/-- The sign of a byte. -/
def sign (byte : UInt8) : Char :=
  Char.ofNat byte.toNat

/-- The byte of a sign. -/
def byte (sign : Char) : UInt8 :=
  sign.toNat.toUInt8

theorem byte_sign (b : UInt8) : byte (sign b) = b := by
  have h : b.toNat.isValidChar := Or.inl (Nat.lt_trans b.toNat_lt (by decide))
  have hsign : (sign b).toNat = b.toNat := by
    rw [sign, Char.ofNat, dif_pos h]
    rfl
  simp [byte, hsign]

/-- The octet text of bytes. -/
def ofBytes (data : ByteArray) : List Char :=
  data.data.toList.map sign

/-- The bytes of an octet text. -/
def toBytes (octets : List Char) : ByteArray :=
  ⟨(octets.map byte).toArray⟩

/-- No byte is lost. -/
theorem toBytes_ofBytes (data : ByteArray) : toBytes (ofBytes data) = data := by
  have h : byte ∘ sign = id := funext byte_sign
  simp [toBytes, ofBytes, List.map_map, h]

/-- The octet text of the UTF-8 form of a text. -/
def ofText (text : String) : String :=
  String.ofList (ofBytes text.toUTF8)

/-- The text whose UTF-8 form an octet text is; what is ill-formed is replaced. -/
def toText (octets : String) : String :=
  String.ofList (Utf8.decodeLossy (toBytes octets.toList))

end StyleTokens.Octets
