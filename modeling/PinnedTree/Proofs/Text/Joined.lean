/-! Lists in brackets: the elements one after the other with a separator between them, and a closing
symbol behind the last. Where every element tells its own end, the list does too. -/
namespace PinnedTree.Text

variable {α σ : Type} {spell : α → List σ} {follows : List σ → Prop} {separator : List σ}
  {closing : σ}

/-- In front of what may follow, the spelling of an element tells the element and what follows. -/
structure Delimits (spell : α → List σ) (follows : List σ → Prop) (element : α) : Prop where
  append_inj : ∀ {other : α} {rest behind : List σ}, follows rest → follows behind →
    spell element ++ rest = spell other ++ behind → element = other ∧ rest = behind

/-- What stands behind an element tells whether there is another one. No element starts like the end
of the list. -/
structure Brackets (spell : α → List σ) (follows : List σ → Prop) (separator : List σ)
    (closing : σ) : Prop where
  beforeSeparator : ∀ rest, follows (separator ++ rest)
  beforeClosing : ∀ rest, follows (closing :: rest)
  separator_ne : ∀ rest behind, separator ++ rest ≠ closing :: behind
  element_ne : ∀ element rest behind, spell element ++ rest ≠ closing :: behind

/-- The spelling of a list up to the closing symbol and beyond. -/
def joined (spell : α → List σ) (separator : List σ) (closing : σ) (elements : List α)
    (rest : List σ) : List σ :=
  separator.intercalate (elements.map spell) ++ closing :: rest

/-- What stands behind the first element of a list. -/
def joinedBehind (spell : α → List σ) (separator : List σ) (closing : σ) :
    List α → List σ → List σ
  | [], rest => closing :: rest
  | next :: elements, rest => separator ++ joined spell separator closing (next :: elements) rest

theorem joined_cons (element : α) (elements : List α) (rest : List σ) :
    joined spell separator closing (element :: elements) rest =
      spell element ++ joinedBehind spell separator closing elements rest := by
  cases elements with
  | nil => simp [joined, joinedBehind]
  | cons next elements => simp [joined, joinedBehind]

/-- What stands behind an element may follow it. -/
theorem Brackets.follows_joinedBehind (h : Brackets spell follows separator closing)
    (elements : List α) (rest : List σ) :
    follows (joinedBehind spell separator closing elements rest) := by
  cases elements with
  | nil => exact h.beforeClosing rest
  | cons next elements => exact h.beforeSeparator _

/-- The spelling of a list tells the list and what follows. Each element tells where it ends, and
what stands behind it whether the list goes on. -/
theorem Brackets.joined_inj (h : Brackets spell follows separator closing) {left right : List α}
    (hLeft : ∀ element ∈ left, Delimits spell follows element) {rest behind : List σ}
    (hSame : joined spell separator closing left rest =
      joined spell separator closing right behind) : left = right ∧ rest = behind := by
  induction left generalizing right with
  | nil =>
      cases right with
      | nil => exact ⟨rfl, (List.cons.inj hSame).2⟩
      | cons second right =>
          rw [joined_cons] at hSame
          exact absurd hSame.symm (h.element_ne second _ rest)
  | cons first left ih =>
      obtain ⟨hFirst, hOthers⟩ := List.forall_mem_cons.mp hLeft
      cases right with
      | nil =>
          rw [joined_cons] at hSame
          exact absurd hSame (h.element_ne first _ behind)
      | cons second right =>
          rw [joined_cons, joined_cons] at hSame
          obtain ⟨rfl, hBehind⟩ := hFirst.append_inj (h.follows_joinedBehind left rest)
            (h.follows_joinedBehind right behind) hSame
          cases left with
          | nil =>
              cases right with
              | nil => exact ⟨rfl, (List.cons.inj hBehind).2⟩
              | cons next right => exact absurd hBehind.symm (h.separator_ne _ rest)
          | cons next left =>
              cases right with
              | nil => exact absurd hBehind (h.separator_ne _ behind)
              | cons last right =>
                  obtain ⟨hElements, rfl⟩ := ih hOthers (List.append_cancel_left hBehind)
                  exact ⟨congrArg (first :: ·) hElements, rfl⟩

end PinnedTree.Text
