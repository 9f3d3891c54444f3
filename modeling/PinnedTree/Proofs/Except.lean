/-! Computations that may fail. What has succeeded has succeeded in every part, and what shows each
step of a computation shows all of it. -/
namespace PinnedTree

variable {ε α β : Type}

/-- What is answered after a change was answered before it. -/
theorem exists_of_map_eq_ok {change : α → β} {result : Except ε α} {after : β}
    (h : result.map change = .ok after) :
    ∃ before, result = .ok before ∧ change before = after := by
  cases result with
  | error error => cases h
  | ok before => exact ⟨before, rfl, Except.ok.inj h⟩

/-- Other words for an error do not make it an answer. -/
theorem eq_ok_of_mapError_eq_ok {δ : Type} {change : ε → δ} {result : Except ε α} {value : α}
    (h : result.mapError change = .ok value) : result = .ok value := by
  cases result with
  | error error => cases h
  | ok found => exact congrArg Except.ok (Except.ok.inj h)

/-- What follows is answered from an answer. -/
theorem exists_of_bind_eq_ok {result : Except ε α} {next : α → Except ε β} {after : β}
    (h : result >>= next = .ok after) :
    ∃ before, result = .ok before ∧ next before = .ok after := by
  cases result with
  | error error => cases h
  | ok before => exact ⟨before, rfl, h⟩

variable {τ : Type} {step : α → τ → Except ε α} {start middle finish : α}

/-- Steps that have been taken can be left out. -/
theorem foldlM_append_of_eq_ok {front : List τ} (h : front.foldlM step start = .ok middle)
    (rest : List τ) : (front ++ rest).foldlM step start = rest.foldlM step middle := by
  rw [List.foldlM_append, h]
  rfl

theorem foldlM_cons_of_eq_ok {first : τ} (h : step start first = .ok middle) (rest : List τ) :
    (first :: rest).foldlM step start = rest.foldlM step middle := by
  rw [List.foldlM_cons, h]
  rfl

/-- The last of some steps is taken from where the others lead. -/
theorem exists_of_foldlM_concat_eq_ok {front : List τ} {last : τ}
    (h : (front ++ [last]).foldlM step start = .ok finish) :
    ∃ middle, front.foldlM step start = .ok middle ∧ step middle last = .ok finish := by
  rw [List.foldlM_append] at h
  obtain ⟨middle, hFront, hLast⟩ := exists_of_bind_eq_ok h
  exact ⟨middle, hFront, (bind_pure (step middle last)).symm.trans hLast⟩

/-- Steps that show those of another computation show where they lead, while `Holds` of the states
on the way. -/
theorem foldlM_view {δ σ : Type} {other : σ → τ → Except δ σ} (view : α → σ) (words : ε → δ)
    (Holds : α → Prop)
    (hStep : ∀ {state input}, Holds state →
      other (view state) input = ((step state input).mapError words).map view)
    (hKeeps : ∀ {state input next}, Holds state → step state input = .ok next → Holds next)
    (hStart : Holds start) (inputs : List τ) :
    inputs.foldlM other (view start) = ((inputs.foldlM step start).mapError words).map view ∧
      ∀ finish, inputs.foldlM step start = .ok finish → Holds finish := by
  induction inputs generalizing start with
  | nil =>
      refine ⟨rfl, ?_⟩
      rintro _ ⟨⟩
      exact hStart
  | cons input inputs ih =>
      rw [List.foldlM_cons, List.foldlM_cons, hStep hStart]
      cases hNext : step start input with
      | error error => exact ⟨rfl, nofun⟩
      | ok next => exact ih (hKeeps hStart hNext)

end PinnedTree
