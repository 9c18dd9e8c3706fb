import KaretWorker.Library.FormEncoding
import KaretWorker.Library.Utf8
import Mathlib.Data.List.Dedup
import Mathlib.Data.List.Sort

/-!
# Keys of upload events

`urldecode` of `src/http.rs` and the way an upload event takes from the key it carries to
the pipelines it is routed to. The key is percent-decoded in one pass over its bytes. The
two bytes after a percent sign are left to the integer parser of the standard library,
which admits a plus sign in front of its digits.

So the pass is form decoding exactly when no percent sign is followed by a plus sign and a
digit (`urldecode_iff`). In a key that was encoded this does not occur: the key that is
routed is the one that was uploaded.
-/
namespace KaretWorker

open Texts FormEncoding

/-! ## Decoding -/

/-- The byte of the minus sign. -/
def minus : UInt8 := 0x2D

/-- The number of hexadecimal digits, if it fits a byte. -/
def hexDigitsFrom (value : Nat) : List UInt8 → Option Nat
  | [] => some value
  | byte :: rest =>
    match hexDigit byte with
    | none => none
    | some digit => if value * 16 + digit < 256 then hexDigitsFrom (value * 16 + digit) rest else none

/-- `u8::from_str_radix` with radix 16: a plus sign may stand in front. -/
def fromStrRadix16 (text : List UInt8) : Option UInt8 :=
  if text = [] ∨ text = [plus] ∨ text = [minus] then none
  else if text.head? = some plus then (hexDigitsFrom 0 text.tail).map UInt8.ofNat
  else (hexDigitsFrom 0 text).map UInt8.ofNat

/-- The byte of the two bytes after a percent sign, if they are UTF-8 and parse. -/
def escapedByte (high low : UInt8) : Option UInt8 :=
  if [high, low].toByteArray.utf8Decode?.isSome then fromStrRadix16 [high, low] else none

/-- The loop of `urldecode`. -/
def urldecodeBytes : List UInt8 → List UInt8
  | byte :: high :: low :: rest =>
    if byte = percent then
      match escapedByte high low with
      | some value => value :: urldecodeBytes rest
      | none => byte :: urldecodeBytes (high :: low :: rest)
    else (if byte = plus then space else byte) :: urldecodeBytes (high :: low :: rest)
  | [first, second] =>
    [if first = plus then space else first, if second = plus then space else second]
  | [byte] => [if byte = plus then space else byte]
  | [] => []

/-- Minimal percent-decoding. -/
def urldecode (text : Text) : Text := Utf8.lossy (urldecodeBytes (Utf8.encode text))

example : urldecode "a%2Fb+c".toList = "a/b c".toList := by decide +kernel
example : urldecode "bad%zz".toList = "bad%zz".toList := by decide +kernel

/-! ## Routing -/

/-- What an event record says of its object. -/
structure S3EventRecord where
  eventName : Text
  bucket : Option Text
  key : Option Text
  deriving DecidableEq, Repr

/-- The slugs of every pipeline with a source prefix of the key. -/
def matchKey (entries : List (Text × Text)) (key : Text) : List Text :=
  (((entries.filter (fun entry => !entry.1.isEmpty && entry.1.isPrefixOf key)).map
    Prod.snd).insertionSort (· ≤ ·)).dedup

/-- The key that a record says was uploaded to the lake. -/
def S3EventRecord.upload (lakeBucket : Text) (record : S3EventRecord) : Option Text :=
  if !"s3:ObjectCreated:".toList.isPrefixOf record.eventName then none
  else if record.bucket ≠ some lakeBucket then none
  else record.key.map urldecode

/-- The slugs whose debounce an event record extends. -/
def routedSlugs (lakeBucket : Text) (entries : List (Text × Text)) (record : S3EventRecord) :
    List Text :=
  match record.upload lakeBucket with
  | none => []
  | some key => matchKey entries key

/-! ## The pass as form decoding -/

/-- A percent sign is followed by a plus sign and a hexadecimal digit. -/
def SignedEscape (bytes : List UInt8) : Prop :=
  ∃ front digit rest, bytes = front ++ percent :: plus :: digit :: rest ∧
    (hexDigit digit).isSome = true

section Decoding

variable {byte high low value : UInt8} {bytes rest text : List UInt8}

/-- The first byte begins a signed escape, or a later one does. -/
theorem signedEscape_cons : SignedEscape (byte :: rest) ↔
    (byte = percent ∧ ∃ digit after, rest = plus :: digit :: after ∧
      (hexDigit digit).isSome = true) ∨
      SignedEscape rest := by
  constructor
  · rintro ⟨front, digit, after, split, isDigit⟩
    cases front with
    | nil =>
      obtain ⟨rfl, rfl⟩ := List.cons.inj split
      exact Or.inl ⟨rfl, digit, after, rfl, isDigit⟩
    | cons first others =>
      obtain ⟨rfl, rfl⟩ := List.cons.inj split
      exact Or.inr ⟨others, digit, after, rfl, isDigit⟩
  · rintro (⟨rfl, digit, after, rfl, isDigit⟩ | ⟨front, digit, after, rfl, isDigit⟩)
    · exact ⟨[], digit, after, rfl, isDigit⟩
    · exact ⟨byte :: front, digit, after, rfl, isDigit⟩

/-- A byte other than the percent sign begins no signed escape. -/
theorem signedEscape_plain (noPercent : byte ≠ percent) :
    SignedEscape (byte :: rest) ↔ SignedEscape rest := by
  rw [signedEscape_cons]
  exact or_iff_right (fun begins => noPercent begins.1)

/-- A percent sign begins none unless a plus sign and a digit follow. -/
theorem signedEscape_percent (unsigned : ¬ (high = plus ∧ (hexDigit low).isSome = true)) :
    SignedEscape (percent :: high :: low :: rest) ↔ SignedEscape (high :: low :: rest) := by
  rw [signedEscape_cons]
  apply or_iff_right
  rintro ⟨_, digit, after, same, isDigit⟩
  obtain ⟨isPlus, same⟩ := List.cons.inj same
  obtain ⟨rfl, _⟩ := List.cons.inj same
  exact unsigned ⟨isPlus, isDigit⟩

/-- A signed escape takes three bytes. -/
theorem SignedEscape.length (signed : SignedEscape bytes) : 3 ≤ bytes.length := by
  obtain ⟨front, digit, after, rfl, _⟩ := signed
  rw [List.length_append, List.length_cons, List.length_cons, List.length_cons]
  omega

/-- Two digits after a percent sign begin no signed escape, nor does the percent sign. -/
theorem signedEscape_pair (pair : hexPair high low = some value) :
    SignedEscape (percent :: high :: low :: rest) ↔ SignedEscape rest := by
  obtain ⟨_, _, isHigh, isLow, _⟩ := hexPair_some.mp pair
  obtain ⟨_, _, highNoPercent, highNoPlus⟩ := hexDigit_some isHigh
  obtain ⟨_, _, lowNoPercent, _⟩ := hexDigit_some isLow
  rw [signedEscape_percent (fun signed => highNoPlus signed.1), signedEscape_plain highNoPercent,
    signedEscape_plain lowNoPercent]

/-- Two bytes below 128 are UTF-8. -/
theorem utf8_ascii (highAscii : high.toNat < 128) (lowAscii : low.toNat < 128) :
    [high, low].toByteArray.utf8Decode?.isSome = true := by
  have all : ∀ value < 128, (Char.ofNat value).toNat = value := by decide +kernel
  have valid := fun (byte : UInt8) (ascii : byte.toNat < 128) => all byte.toNat ascii
  have encoded : Utf8.encode [Char.ofNat high.toNat, Char.ofNat low.toNat] = [high, low] := by
    rw [Utf8.encode_cons, Utf8.encode_cons,
      Utf8.encodeChar_ascii (by rw [valid high highAscii]; exact highAscii),
      Utf8.encodeChar_ascii (by rw [valid low lowAscii]; exact lowAscii), valid high highAscii,
      valid low lowAscii, UInt8.ofNat_toNat, UInt8.ofNat_toNat]
    rfl
  have decoded :
    (Utf8.encode [Char.ofNat high.toNat, Char.ofNat low.toNat]).toByteArray.utf8Decode? =
      some #[Char.ofNat high.toNat, Char.ofNat low.toNat] := List.utf8Decode?_utf8Encode
  rw [← encoded, decoded]
  rfl

/-- Two hexadecimal digits fit a byte. -/
theorem hexDigitsFrom_pair {highValue lowValue : Nat} (isHigh : hexDigit high = some highValue)
    (isLow : hexDigit low = some lowValue) :
    hexDigitsFrom 0 [high, low] = some (16 * highValue + lowValue) := by
  have smallHigh := (hexDigit_some isHigh).1
  have smallLow := (hexDigit_some isLow).1
  simp only [hexDigitsFrom, isHigh, isLow]
  rw [if_pos (by omega), if_pos (by omega)]
  congr 1
  omega

/-- A single digit is its value. -/
theorem hexDigitsFrom_single {digit : Nat} (isDigit : hexDigit low = some digit) :
    hexDigitsFrom 0 [low] = some digit := by
  have small := (hexDigit_some isDigit).1
  simp only [hexDigitsFrom, isDigit]
  rw [if_pos (by omega)]
  congr 1
  omega

/-- What the parser makes of two bytes: both are digits, or the first is a plus sign. -/
theorem fromStrRadix16_pair : fromStrRadix16 [high, low] = some value ↔
    hexPair high low = some value ∨
      (high = plus ∧ ∃ digit, hexDigit low = some digit ∧ value = UInt8.ofNat digit) := by
  have notShort : ¬ ([high, low] = [] ∨ [high, low] = [plus] ∨ [high, low] = [minus]) := by simp
  rw [fromStrRadix16, if_neg notShort, List.head?_cons, List.tail_cons]
  by_cases signed : high = plus
  · subst signed
    have noPair : hexPair plus low ≠ some value := by
      rw [hexPair]
      exact fun impossible => nomatch impossible
    rw [if_pos rfl, or_iff_right noPair, and_iff_right rfl]
    cases isDigit : hexDigit low with
    | none => simp [hexDigitsFrom, isDigit]
    | some digit => simp [hexDigitsFrom_single isDigit, eq_comm]
  · have notPlus : some high ≠ some plus := fun same => signed (Option.some.inj same)
    rw [if_neg notPlus, or_iff_left (fun both => signed both.1)]
    cases isHigh : hexDigit high with
    | none => simp [hexDigitsFrom, hexPair, isHigh]
    | some highValue =>
      cases isLow : hexDigit low with
      | none =>
        simp only [hexDigitsFrom, hexPair, isHigh, isLow]
        split <;> simp
      | some lowValue => simp [hexDigitsFrom_pair isHigh isLow, hexPair, isHigh, isLow]

/-- What two bytes after a percent sign stand for: these bytes are UTF-8. -/
theorem escapedByte_some : escapedByte high low = some value ↔
    hexPair high low = some value ∨
      (high = plus ∧ ∃ digit, hexDigit low = some digit ∧ value = UInt8.ofNat digit) := by
  rw [← fromStrRadix16_pair, escapedByte]
  split
  · rfl
  · next invalid =>
    constructor
    · exact fun impossible => nomatch impossible
    · intro parses
      rcases fromStrRadix16_pair.mp parses with pair | ⟨rfl, digit, isDigit, _⟩
      · obtain ⟨_, _, isHigh, isLow, _⟩ := hexPair_some.mp pair
        exact absurd (utf8_ascii (hexDigit_some isHigh).2.1 (hexDigit_some isLow).2.1) invalid
      · exact absurd (utf8_ascii (by decide) (hexDigit_some isDigit).2.1) invalid

/-- A byte that begins no escape is copied, and a plus sign becomes a space. -/
theorem urldecodeBytes_cons (noPercent : byte ≠ percent) (rest : List UInt8) :
    urldecodeBytes (byte :: rest) = decodeByte byte :: urldecodeBytes rest := by
  match rest with
  | [] => rfl
  | [second] => rfl
  | high :: low :: after =>
    rw [urldecodeBytes, if_neg noPercent]
    rfl

/-- The pass is form decoding exactly when there is no signed escape. -/
theorem urldecodeBytes_iff (bytes : List UInt8) :
    urldecodeBytes bytes = decode bytes ↔ ¬ SignedEscape bytes := by
  match bytes with
  | [] | [_] | [_, _] =>
    refine iff_of_true rfl (fun signed => ?_)
    have long := signed.length
    simp at long
  | byte :: high :: low :: rest =>
    have shorter := urldecodeBytes_iff (high :: low :: rest)
    have shortest := urldecodeBytes_iff rest
    by_cases isPercent : byte = percent
    case neg =>
      rw [urldecodeBytes_cons isPercent, decode_cons isPercent, signedEscape_plain isPercent,
        ← shorter, List.cons.injEq, and_iff_right rfl]
    subst isPercent
    cases pair : hexPair high low with
    | some value =>
      rw [urldecodeBytes, if_pos rfl, escapedByte_some.mpr (Or.inl pair), decode_escape pair,
        signedEscape_pair pair, ← shortest]
      simp only [List.cons.injEq, true_and]
    | none =>
      rw [decode, if_pos rfl, pair, urldecodeBytes, if_pos rfl]
      by_cases signed : high = plus ∧ (hexDigit low).isSome = true
      · -- The digit alone is decoded, to a byte below the percent sign.
        obtain ⟨rfl, isDigit⟩ := signed
        obtain ⟨digit, isLow⟩ := Option.isSome_iff_exists.mp isDigit
        have small := (hexDigit_some isLow).1
        rw [escapedByte_some.mpr (Or.inr ⟨rfl, digit, isLow, rfl⟩)]
        refine iff_of_false ?_ (not_not.mpr ⟨[], low, rest, rfl, isDigit⟩)
        intro same
        have sameByte := congrArg UInt8.toNat (List.cons.inj same).1
        rw [UInt8.toNat_ofNat', Nat.mod_eq_of_lt (by omega)] at sameByte
        have isPercent : percent.toNat = 37 := rfl
        omega
      · have copied : escapedByte high low = none := by
          cases escaped : escapedByte high low with
          | none => rfl
          | some value =>
            rcases escapedByte_some.mp escaped with impossible | ⟨isPlus, digit, isDigit, _⟩
            · cases pair.symm.trans impossible
            · exact absurd ⟨isPlus, by rw [isDigit]; rfl⟩ signed
        rw [copied, signedEscape_percent signed, ← shorter]
        simp only [List.cons.injEq, true_and]

/-- Nothing that was encoded has a signed escape. -/
theorem encoded_unsigned (encoded : Encoded bytes text) : ¬ SignedEscape text := by
  induction encoded with
  | nil => exact fun signed => absurd signed.length (by decide)
  | plain noPercent _ _ inductionHypothesis => rwa [signedEscape_plain noPercent]
  | space _ inductionHypothesis => rwa [signedEscape_plain (by decide)]
  | escape denotes _ inductionHypothesis => rwa [signedEscape_pair denotes]

/-- An encoded key is decoded to the key. -/
theorem urldecode_encoded {key encoding : Text}
    (encoded : Encoded (Utf8.encode key) (Utf8.encode encoding)) : urldecode encoding = key := by
  rw [urldecode, (urldecodeBytes_iff _).mpr (encoded_unsigned encoded), decode_encoded encoded,
    Utf8.lossy_encode]

end Decoding

/-- The decoded bytes of a text are those of form decoding if and only if no percent sign in
it is followed by a plus sign and a hexadecimal digit. A text that is an encoding of a key is
decoded to the key, so a record of its upload is routed by the key that was uploaded. -/
theorem urldecode_iff (text : Text) :
    (urldecodeBytes (Utf8.encode text) = decode (Utf8.encode text) ↔
      ¬ SignedEscape (Utf8.encode text)) ∧
    ∀ key : Text, Encoded (Utf8.encode key) (Utf8.encode text) →
      urldecode text = key ∧
      ∀ lakeBucket entries eventName, "s3:ObjectCreated:".toList <+: eventName →
        routedSlugs lakeBucket entries ⟨eventName, some lakeBucket, some text⟩ =
          matchKey entries key := by
  refine ⟨urldecodeBytes_iff _, fun key encoded => ?_⟩
  have decoded := urldecode_encoded encoded
  refine ⟨decoded, fun lakeBucket entries eventName created => ?_⟩
  have uploaded : S3EventRecord.upload lakeBucket ⟨eventName, some lakeBucket, some text⟩ =
    some key := by
    rw [S3EventRecord.upload, List.isPrefixOf_iff_prefix.mpr created]
    simp [decoded]
  rw [routedSlugs, uploaded]

/-- A percent sign, a plus sign and a digit are decoded to one byte. -/
theorem signed_escape_decoded : ¬ ∀ text : Text,
    urldecodeBytes (Utf8.encode text) = decode (Utf8.encode text) := by
  intro all
  exact absurd (all "%+5".toList) (by decide +kernel)

end KaretWorker
