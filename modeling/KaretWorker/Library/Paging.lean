import Mathlib.Data.List.Sort
import Mathlib.Order.Basic

/-!
# Listing in pages

A set is listed in ascending order, one page at a time, while it changes. Each page has the
elements that are present between two positions when it is served, and the next one goes on
where it ends. No page comes twice, but the pages show different moments.

So what is listed lies between what is there throughout and what is there at some time
(`Collected.last`), and if these are the same the pages amount to one listing
(`Complete.unique`).
-/
namespace Paging

variable {α : Type} [LinearOrder α]

/-- An element is beyond a position; everything is beyond the start. -/
def Beyond (position : Option α) (element : α) : Prop := ∀ last ∈ position, last < element

/-- An element is within a bound; nothing bounds the end. -/
def Within (bound : Option α) (element : α) : Prop := ∀ last ∈ bound, element ≤ last

/-- A page has the present elements beyond a position and within a bound, and at least one if
there is a bound. -/
structure Serves (present : α → Prop) (after : Option α) (page : List α) (bound : Option α) : Prop where
  ascending : page.Pairwise (· < ·)
  exact : ∀ element, element ∈ page ↔ present element ∧ Beyond after element ∧ Within bound element
  nonempty : bound.isSome = true → page ≠ []

/-- The list has everything that lasts up to a position, and only what was seen. -/
structure Collected (lasting seen : α → Prop) (position : Option α) (listed : List α) : Prop where
  ascending : listed.Pairwise (· < ·)
  reached : ∀ element ∈ listed, ∃ last ∈ position, element ≤ last
  holds : ∀ last ∈ position, ∀ element, lasting element → element ≤ last → element ∈ listed
  among : ∀ element ∈ listed, seen element

/-- The list has everything that lasts, and only what was seen. -/
structure Complete (lasting seen : α → Prop) (listed : List α) : Prop where
  ascending : listed.Pairwise (· < ·)
  holds : ∀ element, lasting element → element ∈ listed
  among : ∀ element ∈ listed, seen element

section Pages

variable {lasting seen present : α → Prop} {after bound : Option α} {listed page : List α}

/-- Nothing has been collected at the start. -/
theorem collected_nil : Collected lasting seen none ([] : List α) :=
  ⟨.nil, List.forall_mem_nil _, fun _ impossible => (nomatch impossible), List.forall_mem_nil _⟩

/-- What lasts no longer need not be there, and more may have been seen. -/
theorem Collected.mono {lasting' seen' : α → Prop} (collected : Collected lasting seen after listed)
    (fewer : ∀ element, lasting' element → lasting element)
    (more : ∀ element, seen element → seen' element) : Collected lasting' seen' after listed :=
  ⟨collected.ascending, collected.reached,
    fun last isLast element lasts => collected.holds last isLast element (fewer element lasts),
    fun element isListed => more element (collected.among element isListed)⟩

/-- A complete listing stays complete for fewer lasting elements and more seen ones. -/
theorem Complete.mono {lasting' seen' : α → Prop} (complete : Complete lasting seen listed)
    (fewer : ∀ element, lasting' element → lasting element)
    (more : ∀ element, seen element → seen' element) : Complete lasting' seen' listed :=
  ⟨complete.ascending, fun element lasts => complete.holds element (fewer element lasts),
    fun element isListed => more element (complete.among element isListed)⟩

/-- A page goes on above what was collected. -/
theorem Collected.append_ascending (collected : Collected lasting seen after listed)
    (serves : Serves present after page bound) : (listed ++ page).Pairwise (· < ·) := by
  refine List.pairwise_append.mpr ⟨collected.ascending, serves.ascending, ?_⟩
  intro element isListed later isLater
  obtain ⟨last, isLast, within⟩ := collected.reached element isListed
  exact lt_of_le_of_lt within (((serves.exact later).mp isLater).2.1 last isLast)

/-- Whatever lasts within the bound of a page is collected. -/
theorem Collected.append_holds (collected : Collected lasting seen after listed)
    (serves : Serves present after page bound)
    (lasts : ∀ element, lasting element → present element)
    {element : α} (isLasting : lasting element) (within : Within bound element) :
    element ∈ listed ++ page := by
  by_cases beyond : Beyond after element
  · exact List.mem_append_right _
      ((serves.exact element).mpr ⟨lasts element isLasting, beyond, within⟩)
  · simp only [Beyond, not_forall, not_lt] at beyond
    obtain ⟨last, isLast, covered⟩ := beyond
    exact List.mem_append_left _ (collected.holds last isLast element isLasting covered)

/-- A page adds only elements that were seen. -/
theorem Collected.append_among (collected : Collected lasting seen after listed)
    (serves : Serves present after page bound) (sees : ∀ element, present element → seen element) :
    ∀ element ∈ listed ++ page, seen element :=
  List.forall_mem_append.mpr ⟨collected.among,
    fun element isListed => sees element ((serves.exact element).mp isListed).1⟩

/-- A page that is not the last one. -/
theorem Collected.next {last : α} (collected : Collected lasting seen after listed)
    (serves : Serves present after page (some last))
    (lasts : ∀ element, lasting element → present element)
    (sees : ∀ element, present element → seen element) :
    Collected lasting seen (some last) (listed ++ page) := by
  refine ⟨collected.append_ascending serves, ?_, ?_, collected.append_among serves sees⟩
  · intro element isListed
    refine ⟨last, rfl, ?_⟩
    rcases List.mem_append.mp isListed with earlier | isOnPage
    · obtain ⟨before, isBefore, within⟩ := collected.reached element earlier
      obtain ⟨first, isFirst⟩ := List.exists_mem_of_ne_nil page (serves.nonempty rfl)
      obtain ⟨_, beyond, inside⟩ := (serves.exact first).mp isFirst
      exact within.trans ((beyond before isBefore).le.trans (inside last rfl))
    · exact ((serves.exact element).mp isOnPage).2.2 last rfl
  · rintro _ ⟨⟩ element isLasting within
    refine collected.append_holds serves lasts isLasting (fun other isOther => ?_)
    rwa [← Option.some.inj isOther]

/-- The last page. -/
theorem Collected.last (collected : Collected lasting seen after listed)
    (serves : Serves present after page none) (lasts : ∀ element, lasting element → present element)
    (sees : ∀ element, present element → seen element) : Complete lasting seen (listed ++ page) :=
  ⟨collected.append_ascending serves,
    fun _ isLasting => collected.append_holds serves lasts isLasting
      (fun _ impossible => nomatch impossible),
    collected.append_among serves sees⟩

/-- If everything that was seen lasts, there is one list. -/
theorem Complete.unique {other : List α} (complete : Complete lasting seen listed)
    (steady : ∀ element, seen element → lasting element) (ascending : other.Pairwise (· < ·))
    (members : ∀ element, element ∈ other ↔ lasting element) : listed = other := by
  have same : ∀ element, element ∈ listed ↔ element ∈ other := fun element =>
    ⟨fun isListed => (members element).mpr (steady element (complete.among element isListed)),
      fun isOther => complete.holds element ((members element).mp isOther)⟩
  have perm : listed.Perm other :=
    (List.perm_ext_iff_of_nodup (complete.ascending.imp ne_of_lt) (ascending.imp ne_of_lt)).mpr same
  exact perm.eq_of_pairwise (fun _ _ _ _ below above => absurd below above.asymm) complete.ascending
    ascending

/-- A list of different elements that were all seen is no longer than what was seen. -/
theorem Collected.length_le {all : List α} (collected : Collected lasting (· ∈ all) after listed) :
    listed.length ≤ all.length :=
  (List.subperm_of_subset (collected.ascending.imp ne_of_lt) collected.among).length_le

end Pages

end Paging
