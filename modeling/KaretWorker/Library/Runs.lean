import Mathlib.Logic.Relation

/-!
# Runs of a stepping system under a rule

A system takes actions through a partial step function. A rule says which actions
are admitted in which states; a run takes admitted actions only. What one admitted
step preserves holds in every state a run reaches, and whatever one step does to a
log carries over to whole runs; a part of the system has runs of its own. With a
decidable rule, given actions can be taken one after another, and a property checked
at their end holds of a state that is reached.
-/
namespace Runs

variable {σ α : Type} {step : σ → α → Option σ} {rule : σ → α → Prop}

/-- One admitted step. -/
def Admits (step : σ → α → Option σ) (rule : σ → α → Prop) (before after : σ) : Prop :=
  ∃ action, rule before action ∧ step before action = some after

/-- The states reached by admitted steps. -/
def Reaches (step : σ → α → Option σ) (rule : σ → α → Prop) : σ → σ → Prop :=
  Relation.ReflTransGen (Admits step rule)

/-- What every admitted step preserves holds in every state reached. -/
theorem Reaches.invariant {start state : σ} (reached : Reaches step rule start state)
    (inv : σ → Prop) (initially : inv start)
    (kept : ∀ before action after, inv before → rule before action →
      step before action = some after → inv after) : inv state := by
  induction reached with
  | refl => exact initially
  | tail _ admitted inductionHypothesis =>
    obtain ⟨action, admits, stepped⟩ := admitted
    exact kept _ action _ inductionHypothesis admits stepped

/-- What is recorded only in states where a property holds was recorded in a state of the
run where it held. -/
theorem Reaches.earlier {start state : σ} (reached : Reaches step rule start state)
    (recorded held : σ → Prop) (initially : ¬ recorded start)
    (appears : ∀ before action after, Reaches step rule start before →
      step before action = some after → recorded after → recorded before ∨ held after)
    (now : recorded state) :
    ∃ earlier, Reaches step rule start earlier ∧ held earlier ∧
    Reaches step rule earlier state := by
  induction reached with
  | refl => exact absurd now initially
  | @tail before after further admitted inductionHypothesis =>
    obtain ⟨action, admits, stepped⟩ := id admitted
    rcases appears before action after further stepped now with recordedBefore | heldNow
    · obtain ⟨earlier, toEarlier, holds, toBefore⟩ := inductionHypothesis recordedBefore
      exact ⟨earlier, toEarlier, holds, toBefore.tail admitted⟩
    · exact ⟨after, further.tail admitted, heldNow, .refl⟩

/-- A weaker rule admits every run. -/
theorem Reaches.mono {weaker : σ → α → Prop} {start state : σ}
    (reached : Reaches step rule start state)
    (implies : ∀ state action, rule state action → weaker state action) :
    Reaches step weaker start state := by
  induction reached with
  | refl => exact .refl
  | tail _ admitted inductionHypothesis =>
    obtain ⟨action, admits, stepped⟩ := admitted
    exact inductionHypothesis.tail ⟨action, implies _ _ admits, stepped⟩

/-- A part of a system that every step leaves as it is or moves by a step of its own has a run of
its own. -/
theorem Reaches.projected {τ β : Type} {step' : τ → β → Option τ} {rule' : τ → β → Prop}
    (view : σ → τ)
    (follows : ∀ before action after, rule before action → step before action = some after →
      view after = view before ∨ Admits step' rule' (view before) (view after))
    {start state : σ} (reached : Reaches step rule start state) :
    Reaches step' rule' (view start) (view state) := by
  induction reached with
  | refl => exact .refl
  | @tail before after _ admitted inductionHypothesis =>
    obtain ⟨action, admits, stepped⟩ := admitted
    rcases follows before action after admits stepped with same | moves
    · rw [same]
      exact inductionHypothesis
    · exact inductionHypothesis.tail moves

/-- A system that shows another one and follows each of its steps has all its runs. -/
theorem Reaches.lifted {τ : Type} {step' : τ → α → Option τ} (view : τ → σ)
    (follows : ∀ seen action after, step (view seen) action = some after →
      ∃ seen', step' seen action = some seen' ∧ view seen' = after)
    (seen : τ) {state : σ} (reached : Reaches step (fun _ _ => True) (view seen) state) :
    ∃ seen', Reaches step' (fun _ _ => True) seen seen' ∧ view seen' = state := by
  induction reached with
  | refl => exact ⟨seen, .refl, rfl⟩
  | tail _ admitted inductionHypothesis =>
    obtain ⟨action, _, stepped⟩ := admitted
    obtain ⟨before, reachedBefore, rfl⟩ := inductionHypothesis
    obtain ⟨after, stepped', isAfter⟩ := follows before action _ stepped
    exact ⟨after, reachedBefore.tail ⟨action, trivial, stepped'⟩, isAfter⟩

/-- Take the given actions in order, as long as each is admitted. -/
def follow (step : σ → α → Option σ) (rule : σ → α → Prop) [∀ state, DecidablePred (rule state)] :
    σ → List α → Option σ
  | state, [] => some state
  | state, action :: rest =>
    if rule state action then (step state action).bind (fun next => follow step rule next rest)
    else none

/-- Actions that were taken reach their end. -/
theorem reaches_of_follow [∀ state, DecidablePred (rule state)] {start final : σ} {actions : List α}
    (followed : follow step rule start actions = some final) : Reaches step rule start final := by
  induction actions generalizing start with
  | nil =>
    rw [← Option.some.inj followed]
    exact .refl
  | cons action rest inductionHypothesis =>
    simp only [follow] at followed
    split at followed
    · next admits =>
      obtain ⟨next, stepped, further⟩ := Option.bind_eq_some_iff.mp followed
      exact (inductionHypothesis further).head ⟨action, admits, stepped⟩
    · exact nomatch followed

/-- A property checked at the end of given actions holds of a state they reach. -/
theorem reaches_of_check (step : σ → α → Option σ) (rule : σ → α → Prop)
    [∀ state, DecidablePred (rule state)] (start : σ) (actions : List α) (property : σ → Prop)
    [DecidablePred property]
    (checked : (follow step rule start actions).any (fun state => property state) = true) :
    ∃ state, Reaches step rule start state ∧ property state := by
  obtain ⟨state, followed, holds⟩ := (Option.any_eq_true _ _).mp checked
  exact ⟨state, reaches_of_follow followed, of_decide_eq_true holds⟩

/-! ## Properties along given actions -/

/-- A property holds in every state of a run of given actions. -/
def Along (step : σ → α → Option σ) (property : σ → Prop) : σ → List α → Prop
  | state, [] => property state
  | state, action :: rest =>
    property state ∧ ∀ next, step state action = some next → Along step property next rest

/-- Every action that a run takes is admitted. -/
def Abides (step : σ → α → Option σ) (rule : σ → α → Prop) : σ → List α → Prop
  | _, [] => True
  | state, action :: rest =>
    ∀ next, step state action = some next → rule state action ∧ Abides step rule next rest

/-- Let every step keep an invariant. A property that admitted steps preserve, and every
other step breaks, holds along exactly the runs that abide by the rule. -/
theorem along_iff_abides (inv : σ → Prop) {property : σ → Prop}
    (invariant : ∀ before action after, inv before → step before action = some after → inv after)
    (kept : ∀ before action after, inv before → property before → rule before action →
      step before action = some after → property after)
    (broken : ∀ before action after, step before action = some after → property after →
      rule before action)
    {start : σ} (initially : inv start) (holds : property start) (actions : List α) :
    Along step property start actions ↔ Abides step rule start actions := by
  induction actions generalizing start with
  | nil => exact ⟨fun _ => trivial, fun _ => holds⟩
  | cons action rest inductionHypothesis =>
    constructor
    · rintro ⟨_, continues⟩ next stepped
      have along := continues next stepped
      have still : property next := by
        cases rest with
        | nil => exact along
        | cons _ _ => exact along.1
      exact ⟨broken _ _ _ stepped still,
        (inductionHypothesis (invariant _ _ _ initially stepped) still).mp along⟩
    · intro abides
      refine ⟨holds, fun next stepped => ?_⟩
      obtain ⟨admits, continues⟩ := abides next stepped
      exact (inductionHypothesis (invariant _ _ _ initially stepped)
        (kept _ _ _ initially holds admits stepped)).mpr continues

end Runs
