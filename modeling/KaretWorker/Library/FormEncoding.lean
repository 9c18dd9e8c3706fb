import KaretWorker.Library.Text

/-!
# Form encoding

Bytes written as in a query string: a byte stands for itself, a plus sign for a space, and
a percent sign with two hexadecimal digits for the byte they denote. A percent sign and a
plus sign have to be escaped, anything else may be.

Decoding scans from left to right and copies a percent sign that begins no escape. It gives
back whatever was encoded (`decode_encoded`).
-/
namespace FormEncoding

/-- The byte that begins an escape. -/
def percent : UInt8 := 0x25

/-- The byte that stands for a space. -/
def plus : UInt8 := 0x2B

/-- What a plus stands for. -/
def space : UInt8 := 0x20

/-- The value of a hexadecimal digit of either case. -/
def hexDigit (byte : UInt8) : Option Nat :=
  if 0x30 ≤ byte.toNat ∧ byte.toNat ≤ 0x39 then some (byte.toNat - 0x30)
  else if 0x41 ≤ byte.toNat ∧ byte.toNat ≤ 0x46 then some (byte.toNat - 0x41 + 10)
  else if 0x61 ≤ byte.toNat ∧ byte.toNat ≤ 0x66 then some (byte.toNat - 0x61 + 10)
  else none

/-- The byte that two hexadecimal digits denote. -/
def hexPair (high low : UInt8) : Option UInt8 :=
  match hexDigit high, hexDigit low with
  | some highValue, some lowValue => some (UInt8.ofNat (16 * highValue + lowValue))
  | _, _ => none

/-- A byte that begins no escape. -/
def decodeByte (byte : UInt8) : UInt8 := if byte = plus then space else byte

/-- Decode from left to right. -/
def decode : List UInt8 → List UInt8
  | byte :: high :: low :: rest =>
    if byte = percent then
      match hexPair high low with
      | some value => value :: decode rest
      | none => byte :: decode (high :: low :: rest)
    else decodeByte byte :: decode (high :: low :: rest)
  | [first, second] => [decodeByte first, decodeByte second]
  | [byte] => [decodeByte byte]
  | [] => []

/-- A text encodes bytes. -/
inductive Encoded : (bytes text : List UInt8) → Prop
  | nil : Encoded [] []
  | plain {byte : UInt8} {bytes text : List UInt8} (noPercent : byte ≠ percent) (noPlus : byte ≠ plus)
    (rest : Encoded bytes text) : Encoded (byte :: bytes) (byte :: text)
  | space {bytes text : List UInt8} (rest : Encoded bytes text) :
    Encoded (space :: bytes) (plus :: text)
  | escape {byte high low : UInt8} {bytes text : List UInt8} (denotes : hexPair high low = some byte)
    (rest : Encoded bytes text) : Encoded (byte :: bytes) (percent :: high :: low :: text)

section Decoding

variable {byte high low value : UInt8} {bytes rest text : List UInt8}

/-- A hexadecimal digit is small, and none of the signs. -/
theorem hexDigit_some {digit : Nat} (isDigit : hexDigit byte = some digit) :
    digit < 16 ∧ byte.toNat < 128 ∧ byte ≠ percent ∧ byte ≠ plus := by
  have inRange : digit < 16 ∧ byte.toNat < 128 ∧ 0x30 ≤ byte.toNat := by
    unfold hexDigit at isDigit
    split at isDigit
    · obtain rfl := Option.some.inj isDigit
      omega
    split at isDigit
    · obtain rfl := Option.some.inj isDigit
      omega
    split at isDigit
    · obtain rfl := Option.some.inj isDigit
      omega
    · exact nomatch isDigit
  refine ⟨inRange.1, inRange.2.1, ?_, ?_⟩
  · rintro rfl
    exact absurd inRange.2.2 (by decide)
  · rintro rfl
    exact absurd inRange.2.2 (by decide)

/-- A byte is denoted by two digits. -/
theorem hexPair_some : hexPair high low = some value ↔ ∃ highValue lowValue,
    hexDigit high = some highValue ∧ hexDigit low = some lowValue ∧
      value = UInt8.ofNat (16 * highValue + lowValue) := by
  unfold hexPair
  cases hexDigit high <;> cases hexDigit low <;> simp [eq_comm]

/-- A byte that begins no escape is decoded alone. -/
theorem decode_cons (noPercent : byte ≠ percent) (rest : List UInt8) :
    decode (byte :: rest) = decodeByte byte :: decode rest := by
  match rest with
  | [] => rfl
  | [second] => rfl
  | high :: low :: after => rw [decode, if_neg noPercent]

/-- Two hexadecimal digits after a percent sign are one byte. -/
theorem decode_escape (denotes : hexPair high low = some value) :
    decode (percent :: high :: low :: rest) = value :: decode rest := by
  rw [decode, if_pos rfl]
  simp only [denotes]

/-- Decoding gives back what was encoded. -/
theorem decode_encoded (encoded : Encoded bytes text) : decode text = bytes := by
  induction encoded with
  | nil => rfl
  | plain noPercent noPlus _ inductionHypothesis =>
    rw [decode_cons noPercent, inductionHypothesis, decodeByte, if_neg noPlus]
  | space _ inductionHypothesis =>
    rw [decode_cons (by decide), inductionHypothesis, decodeByte, if_pos rfl]
  | escape denotes _ inductionHypothesis => rw [decode_escape denotes, inductionHypothesis]

end Decoding

end FormEncoding
