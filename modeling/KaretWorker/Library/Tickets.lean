import Mathlib.Data.Finset.Card
import Mathlib.Logic.Relation

/-!
# Tickets from a shared counter

Holders draw tickets from a counter that anyone may raise, and either use a ticket,
drop it, or give it back by lowering the counter again.

Two facts are kept apart. However tickets are given back, the uses never outnumber a
bound on the numbers that may be held (`Budget`). And if a ticket is given back only
while it is the latest, no number is ever used twice (`Numbering`).
-/
namespace Tickets

open Relation

variable {ι : Type} [DecidableEq ι]

/-! ## How many tickets are used -/

/-- The counter, the number of tickets used, and who holds one. -/
structure Budget (ι : Type) where
  counter : Int
  used : Nat
  holders : Finset ι

/-- One change of a budget. A raise that exceeds the bound gives no ticket. -/
inductive Budget.Moves (bound : Nat) : Budget ι → Budget ι → Prop
  | draw (budget : Budget ι) (holder : ι) (within : budget.counter + 1 ≤ bound) :
      Moves bound budget ⟨budget.counter + 1, budget.used, insert holder budget.holders⟩
  | raise (budget : Budget ι) :
      Moves bound budget ⟨budget.counter + 1, budget.used, budget.holders⟩
  | giveBack (budget : Budget ι) (holder : ι) (holds : holder ∈ budget.holders) :
      Moves bound budget ⟨budget.counter - 1, budget.used, budget.holders.erase holder⟩
  | use (budget : Budget ι) (holder : ι) (holds : holder ∈ budget.holders) :
      Moves bound budget ⟨budget.counter, budget.used + 1, budget.holders.erase holder⟩
  | drop (budget : Budget ι) (holders : Finset ι) (fewer : holders ⊆ budget.holders) :
      Moves bound budget ⟨budget.counter, budget.used, holders⟩

/-- The used and the held tickets together exceed neither the counter nor the
bound. -/
structure Budget.Sound (bound : Nat) (budget : Budget ι) : Prop where
  counted : (budget.used + budget.holders.card : Int) ≤ budget.counter
  bounded : budget.used + budget.holders.card ≤ bound

/-- Every move keeps the account within the bound. -/
theorem Budget.Moves.sound {bound : Nat} {budget budget' : Budget ι}
    (moves : budget.Moves bound budget') (sound : budget.Sound bound) : budget'.Sound bound := by
  have counted := sound.counted
  have bounded := sound.bounded
  cases moves with
  | draw holder within =>
    have grows := Finset.card_insert_le holder budget.holders
    constructor
    · simp only
      omega
    · simp only
      omega
  | raise =>
    constructor
    · simp only
      omega
    · exact bounded
  | giveBack holder holds =>
    have shrinks := Finset.card_erase_add_one holds
    constructor
    · simp only
      omega
    · simp only
      omega
  | use holder holds =>
    have shrinks := Finset.card_erase_add_one holds
    constructor
    · simp only
      omega
    · simp only
      omega
  | drop holders fewer =>
    have shrinks := Finset.card_le_card fewer
    constructor
    · simp only
      omega
    · simp only
      omega

/-- Changes of a sound budget leave it sound. -/
theorem Budget.Sound.moves {bound : Nat} {budget budget' : Budget ι} (sound : budget.Sound bound)
    (moves : ReflTransGen (Moves bound) budget budget') : budget'.Sound bound := by
  induction moves with
  | refl => exact sound
  | tail _ move inductionHypothesis => exact move.sound inductionHypothesis

/-! ## Which tickets are used -/

/-- The counter, the number each holder has, and the numbers used with their users,
the latest first. -/
structure Numbering (ι : Type) where
  counter : Int
  held : ι → Option Int
  used : List (Int × ι)

/-- One change of a numbering. A number is given back only while it is the latest. -/
inductive Numbering.Moves : Numbering ι → Numbering ι → Prop
  | draw (numbering : Numbering ι) (holder : ι) :
      Moves numbering ⟨numbering.counter + 1,
        Function.update numbering.held holder (some (numbering.counter + 1)), numbering.used⟩
  | raise (numbering : Numbering ι) :
      Moves numbering ⟨numbering.counter + 1, numbering.held, numbering.used⟩
  | giveBack (numbering : Numbering ι) (holder : ι)
      (holds : numbering.held holder = some numbering.counter) :
      Moves numbering ⟨numbering.counter - 1, Function.update numbering.held holder none,
        numbering.used⟩
  | use (numbering : Numbering ι) (holder : ι) (number : Int)
      (holds : numbering.held holder = some number) :
      Moves numbering ⟨numbering.counter, Function.update numbering.held holder none,
        (number, holder) :: numbering.used⟩
  | drop (numbering : Numbering ι) (held : ι → Option Int)
      (fewer : ∀ holder number, held holder = some number → numbering.held holder = some number) :
      Moves numbering ⟨numbering.counter, held, numbering.used⟩

/-- No number is above the counter, held twice, held and used, or used twice. -/
structure Numbering.Sound (numbering : Numbering ι) : Prop where
  heldBelow : ∀ holder number, numbering.held holder = some number → number ≤ numbering.counter
  usedBelow : ∀ ticket ∈ numbering.used, ticket.1 ≤ numbering.counter
  heldOnce : ∀ holder other number, numbering.held holder = some number →
    numbering.held other = some number → holder = other
  unused : ∀ holder number, numbering.held holder = some number →
    ∀ ticket ∈ numbering.used, ticket.1 ≠ number
  usedOnce : (numbering.used.map Prod.fst).Nodup

/-- A holder other than the one whose number was taken away held it before. -/
theorem held_of_update {held : ι → Option Int} {holder other : ι} {number : Int}
    (holds : Function.update held holder none other = some number) :
    other ≠ holder ∧ held other = some number := by
  by_cases same : other = holder
  · rw [same, Function.update_self] at holds
    exact nomatch holds
  · rw [Function.update_of_ne same] at holds
    exact ⟨same, holds⟩

/-- Every move keeps the numbers apart. -/
theorem Numbering.Moves.sound {numbering numbering' : Numbering ι}
    (moves : numbering.Moves numbering') (sound : numbering.Sound) : numbering'.Sound := by
  cases moves with
  | draw holder =>
    have split : ∀ other number,
        Function.update numbering.held holder (some (numbering.counter + 1)) other = some number →
        (other = holder ∧ number = numbering.counter + 1) ∨ numbering.held other = some number := by
      intro other number holds
      by_cases same : other = holder
      · rw [same, Function.update_self] at holds
        exact Or.inl ⟨same, (Option.some.inj holds).symm⟩
      · rw [Function.update_of_ne same] at holds
        exact Or.inr holds
    refine ⟨?_, ?_, ?_, ?_, sound.usedOnce⟩
    · intro other number holds
      rcases split other number holds with ⟨_, rfl⟩ | before
      · exact le_refl _
      · have below := sound.heldBelow other number before
        simp only
        omega
    · intro ticket member
      have below := sound.usedBelow ticket member
      simp only
      omega
    · intro first second number firstHolds secondHolds
      rcases split first number firstHolds with ⟨rfl, rfl⟩ | firstBefore
      · rcases split second _ secondHolds with ⟨rfl, _⟩ | secondBefore
        · rfl
        · have below := sound.heldBelow second _ secondBefore
          omega
      · rcases split second number secondHolds with ⟨rfl, rfl⟩ | secondBefore
        · have below := sound.heldBelow first _ firstBefore
          omega
        · exact sound.heldOnce first second number firstBefore secondBefore
    · intro other number holds ticket member
      rcases split other number holds with ⟨_, rfl⟩ | before
      · have below := sound.usedBelow ticket member
        omega
      · exact sound.unused other number before ticket member
  | raise =>
    refine ⟨?_, ?_, sound.heldOnce, sound.unused, sound.usedOnce⟩
    · intro other number holds
      have below := sound.heldBelow other number holds
      simp only
      omega
    · intro ticket member
      have below := sound.usedBelow ticket member
      simp only
      omega
  | giveBack holder holds =>
    refine ⟨?_, ?_, ?_, ?_, sound.usedOnce⟩
    · intro other number otherHolds
      obtain ⟨different, before⟩ := held_of_update otherHolds
      have below := sound.heldBelow other number before
      have notLatest : number ≠ numbering.counter := by
        rintro rfl
        exact different (sound.heldOnce other holder _ before holds)
      simp only
      omega
    · intro ticket member
      have below := sound.usedBelow ticket member
      have notLatest := sound.unused holder _ holds ticket member
      simp only
      omega
    · intro first second number firstHolds secondHolds
      exact sound.heldOnce first second number (held_of_update firstHolds).2
        (held_of_update secondHolds).2
    · intro other number otherHolds
      exact sound.unused other number (held_of_update otherHolds).2
  | use holder number holds =>
    refine ⟨?_, ?_, ?_, ?_, ?_⟩
    · intro other held otherHolds
      exact sound.heldBelow other held (held_of_update otherHolds).2
    · intro ticket member
      rcases List.mem_cons.mp member with rfl | member
      · exact sound.heldBelow holder number holds
      · exact sound.usedBelow ticket member
    · intro first second held firstHolds secondHolds
      exact sound.heldOnce first second held (held_of_update firstHolds).2
        (held_of_update secondHolds).2
    · intro other held otherHolds ticket member
      obtain ⟨different, before⟩ := held_of_update otherHolds
      rcases List.mem_cons.mp member with rfl | member
      · rintro rfl
        exact different (sound.heldOnce other holder _ before holds)
      · exact sound.unused other held before ticket member
    · rw [List.map_cons, List.nodup_cons]
      refine ⟨?_, sound.usedOnce⟩
      intro again
      obtain ⟨ticket, member, same⟩ := List.mem_map.mp again
      exact sound.unused holder number holds ticket member same
  | drop held fewer =>
    refine ⟨?_, sound.usedBelow, ?_, ?_, sound.usedOnce⟩
    · intro other number holds
      exact sound.heldBelow other number (fewer other number holds)
    · intro first second number firstHolds secondHolds
      exact sound.heldOnce first second number (fewer first number firstHolds)
        (fewer second number secondHolds)
    · intro other number holds
      exact sound.unused other number (fewer other number holds)

/-- Changes of a sound numbering leave it sound. -/
theorem Numbering.Sound.moves {numbering numbering' : Numbering ι} (sound : numbering.Sound)
    (moves : ReflTransGen Moves numbering numbering') : numbering'.Sound := by
  induction moves with
  | refl => exact sound
  | tail _ move inductionHypothesis => exact move.sound inductionHypothesis

end Tickets
