import KaretWorker.Library.Text

/-!
# Dates in ISO form

A date of the calendar as `year-month-day`, with a year of at least four digits and a sign
if it is not between 0 and 9999. Different dates are written differently, and with digits
and signs only.
-/
namespace IsoDate

open Texts

/-- A year, a month and a day. -/
structure CivilDate where
  year : Int
  month : Nat
  day : Nat
  isMonth : 1 ≤ month ∧ month ≤ 12
  isDay : 1 ≤ day ∧ day ≤ 31

/-- A numeral filled up with zeros to a width. -/
def padded (width value : Nat) : Text :=
  List.replicate (width - (decimal value).length) '0' ++ decimal value

/-- Four digits, or a sign and as many as it takes. -/
def isoYear (year : Int) : Text :=
  if year < 0 then '-' :: padded 4 year.natAbs
  else if year ≤ 9999 then padded 4 year.natAbs
  else '+' :: padded 4 year.natAbs

/-- The date as `%Y-%m-%d`. -/
def isoText (date : CivilDate) : Text :=
  isoYear date.year ++ '-' :: (padded 2 date.month ++ '-' :: padded 2 date.day)

example : isoText ⟨1970, 1, 1, by decide, by decide⟩ = "1970-01-01".toList := by decide +kernel

/-- Padded digits read back as their number. -/
theorem ofDigitChars_padded (width value : Nat) :
    Nat.ofDigitChars 10 (padded width value) 0 = value := by
  rw [padded, Nat.ofDigitChars_append, Nat.ofDigitChars_replicate_zero, Nat.mul_zero]
  exact Nat.ofDigitChars_ten_toDigits

/-- Different numbers have different digits. -/
theorem padded_injective {width value value' : Nat}
    (same : padded width value = padded width value') :
    value = value' := by
  rw [← ofDigitChars_padded width value, same, ofDigitChars_padded]

/-- Padding adds digits only. -/
theorem padded_digits {width value : Nat} {character : Char}
    (member : character ∈ padded width value) :
    character.isDigit = true := by
  rcases List.mem_append.mp member with zero | digit
  · rw [List.eq_of_mem_replicate zero]
    rfl
  · exact decimal_digits value character digit

/-- Below one hundred, two digits do. -/
theorem padded_two {value : Nat} (small : value < 100) : (padded 2 value).length = 2 := by
  have all : ∀ value < 100, (padded 2 value).length = 2 := by decide +kernel
  exact all value small

/-- The three forms of a year. -/
theorem isoYear_cases (year : Int) :
    (year < 0 ∧ isoYear year = '-' :: padded 4 year.natAbs) ∨
    (0 ≤ year ∧ isoYear year = padded 4 year.natAbs) ∨
    (0 ≤ year ∧ isoYear year = '+' :: padded 4 year.natAbs) := by
  unfold isoYear
  split
  · next below => exact Or.inl ⟨below, rfl⟩
  · next notBelow =>
    split
    · exact Or.inr (Or.inl ⟨Int.not_lt.mp notBelow, rfl⟩)
    · exact Or.inr (Or.inr ⟨Int.not_lt.mp notBelow, rfl⟩)

/-- The sign tells the range of a year, and the digits its size. -/
theorem isoYear_injective : Function.Injective isoYear := by
  have unsigned : ∀ {sign : Char} {value value' : Nat}, sign.isDigit = false →
      sign :: padded 4 value ≠ padded 4 value' := by
    intro sign value value' notDigit same
    have isDigit := padded_digits (same ▸ List.mem_cons_self)
    rw [notDigit] at isDigit
    exact nomatch isDigit
  intro year year' same
  rcases isoYear_cases year with ⟨range, form⟩ | ⟨range, form⟩ | ⟨range, form⟩ <;>
    rcases isoYear_cases year' with ⟨range', form'⟩ | ⟨range', form'⟩ | ⟨range', form'⟩ <;>
    rw [form, form'] at same
  · have := padded_injective (List.cons.inj same).2
    omega
  · exact absurd same (unsigned (by decide))
  · exact absurd (List.cons.inj same).1 (by decide)
  · exact absurd same.symm (unsigned (by decide))
  · have := padded_injective same
    omega
  · exact absurd same.symm (unsigned (by decide))
  · exact absurd (List.cons.inj same).1 (by decide)
  · exact absurd same (unsigned (by decide))
  · have := padded_injective (List.cons.inj same).2
    omega

/-- Different dates are written differently. -/
theorem isoText_injective {date date' : CivilDate} (same : isoText date = isoText date') :
    date = date' := by
  obtain ⟨year, month, day, isMonth, isDay⟩ := date
  obtain ⟨year', month', day', isMonth', isDay'⟩ := date'
  have lengths : ∀ {first second : Nat}, first < 100 → second < 100 →
      ('-' :: (padded 2 first ++ '-' :: padded 2 second)).length = 6 := by
    intro first second firstSmall secondSmall
    simp [padded_two firstSmall, padded_two secondSmall]
  have sameLength : ('-' :: (padded 2 month ++ '-' :: padded 2 day)).length =
      ('-' :: (padded 2 month' ++ '-' :: padded 2 day')).length :=
    (lengths (by omega) (by omega)).trans (lengths (by omega) (by omega)).symm
  have parts := List.append_inj' same sameLength
  have sameMonth : (padded 2 month).length = (padded 2 month').length :=
    (padded_two (by omega)).trans (padded_two (by omega)).symm
  have months := List.append_inj (List.cons.inj parts.2).2 sameMonth
  obtain rfl := isoYear_injective parts.1
  obtain rfl := padded_injective months.1
  obtain rfl := padded_injective (List.cons.inj months.2).2
  rfl

/-- A date is written with digits and signs. -/
theorem isoText_characters {date : CivilDate} {character : Char}
    (member : character ∈ isoText date) :
    character.isDigit = true ∨ character = '-' ∨ character = '+' := by
  have year : ∀ {character}, character ∈ isoYear date.year →
      character.isDigit = true ∨ character = '-' ∨ character = '+' := by
    intro character member
    unfold isoYear at member
    split at member
    · exact (List.mem_cons.mp member).elim (fun same => Or.inr (Or.inl same))
        (fun digit => Or.inl (padded_digits digit))
    · split at member
      · exact Or.inl (padded_digits member)
      · exact (List.mem_cons.mp member).elim (fun same => Or.inr (Or.inr same))
          (fun digit => Or.inl (padded_digits digit))
  simp only [isoText, List.mem_append, List.mem_cons] at member
  rcases member with inYear | dash | inMonth | dash | inDay
  · exact year inYear
  · exact Or.inr (Or.inl dash)
  · exact Or.inl (padded_digits inMonth)
  · exact Or.inr (Or.inl dash)
  · exact Or.inl (padded_digits inDay)

end IsoDate
