import KaretWorker.Library.Text

/-!
# UTF-8 with replacement

Reading bytes as a text where whatever is no UTF-8 gives a replacement character. One
replacement stands for as many bytes as could still have begun a character, so a sequence
that breaks off counts once.

A text that was encoded is read back without a replacement (`lossy_encode`).
-/
namespace Utf8

open Texts

/-- The bytes of a text. -/
def encode (text : Text) : List UInt8 := text.flatMap String.utf8EncodeChar

/-- The character that stands for bytes that are no UTF-8. -/
def replacement : Char := '\uFFFD'

/-- A byte that continues a character. -/
def continues (byte : UInt8) : Bool := 0x80 ≤ byte && byte ≤ 0xBF

/-- A second byte that may follow the first one of a character of three or four bytes. -/
def follows (first second : UInt8) : Bool :=
  if first = 0xE0 then 0xA0 ≤ second && second ≤ 0xBF
  else if first = 0xED then 0x80 ≤ second && second ≤ 0x9F
  else if 0xE1 ≤ first && first ≤ 0xEF then continues second
  else if first = 0xF0 then 0x90 ≤ second && second ≤ 0xBF
  else if 0xF1 ≤ first && first ≤ 0xF3 then continues second
  else if first = 0xF4 then 0x80 ≤ second && second ≤ 0x8F
  else false

/-- How many bytes one replacement stands for, where no character is found. -/
def brokenLength : List UInt8 → Nat
  | first :: second :: third :: _ =>
    if follows first second then
      if 0xF0 ≤ first && continues third then 3 else 2
    else 1
  | [first, second] => if follows first second then 2 else 1
  | _ => 1

/-- The text of bytes, of which there are at most as many as given. -/
def lossyFrom : Nat → List UInt8 → Text
  | 0, _ => []
  | _ + 1, [] => []
  | bound + 1, bytes =>
    match bytes.toByteArray.utf8DecodeChar? 0 with
    | some character => character :: lossyFrom bound (bytes.drop character.utf8Size)
    | none => replacement :: lossyFrom bound (bytes.drop (brokenLength bytes))

/-- The text of bytes, with replacements. -/
def lossy (bytes : List UInt8) : Text := lossyFrom bytes.length bytes

/-- A text is encoded character by character. -/
theorem encode_cons (character : Char) (rest : Text) :
    encode (character :: rest) = String.utf8EncodeChar character ++ encode rest := List.flatMap_cons

/-- A character below 128 is one byte. -/
theorem encodeChar_ascii {character : Char} (ascii : character.toNat < 128) :
    String.utf8EncodeChar character = [UInt8.ofNat character.toNat] := by
  have small : character.utf8Size = 1 := by
    rw [Char.utf8Size_eq_one_iff, UInt32.le_iff_toNat_le]
    exact Nat.le_of_lt_succ ascii
  rw [String.utf8EncodeChar_eq_singleton small]
  rfl

/-- Encoded characters are read back one by one. -/
theorem lossyFrom_encode {text : Text} {bound : Nat} (bounded : (encode text).length ≤ bound) :
    lossyFrom bound (encode text) = text := by
  induction text generalizing bound with
  | nil => cases bound <;> rfl
  | cons character rest inductionHypothesis =>
    have size : (String.utf8EncodeChar character).length = character.utf8Size :=
      String.length_utf8EncodeChar character
    have positive : 0 < character.utf8Size := Char.utf8Size_pos character
    have decoded : (encode (character :: rest)).toByteArray.utf8DecodeChar? 0 = some character :=
      List.utf8DecodeChar?_utf8Encode_cons
    rw [encode_cons, List.length_append, size] at bounded
    cases bound with
    | zero => omega
    | succ bound =>
      have further : (encode rest).length ≤ bound := by omega
      have dropped : (encode (character :: rest)).drop character.utf8Size = encode rest := by
        rw [encode_cons, ← size, List.drop_left]
      unfold lossyFrom
      split
      · next impossible => exact nomatch impossible
      · next isEmpty =>
        rw [encode_cons] at isEmpty
        exact absurd (List.append_eq_nil_iff.mp isEmpty).1 String.utf8EncodeChar_ne_nil
      · next sameBound _ =>
        obtain rfl := Nat.succ.inj sameBound
        rw [decoded]
        simp only
        rw [dropped, inductionHypothesis further]

/-- An encoded text is read back. -/
theorem lossy_encode (text : Text) : lossy (encode text) = text := lossyFrom_encode (Nat.le_refl _)

end Utf8
