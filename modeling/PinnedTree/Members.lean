/-!
Named members in the order in which their names first came. A name occurs once: writing it again
replaces the value where it stands, and a new name goes to the end.
-/

namespace PinnedTree

/-- Values under names, in order. -/
abbrev Members (α : Type) := List (String × α)

namespace Members

variable {α : Type}

def find? (name : String) : Members α → Option α
  | [] => none
  | (other, value) :: rest => if other = name then some value else find? name rest

/-- Writes `value` under `name`: in place where the name stands already, else at the end. -/
def put (name : String) (value : α) : Members α → Members α
  | [] => [(name, value)]
  | (other, old) :: rest =>
    if other = name then (name, value) :: rest else (other, old) :: put name value rest

def without (name : String) (members : Members α) : Members α :=
  members.filter fun member => member.1 ≠ name

/-- Writes pairs one after the other. -/
def ofList (pairs : List (String × α)) : Members α :=
  pairs.foldl (fun members pair => put pair.1 pair.2 members) []

def names (members : Members α) : List String :=
  members.map (·.1)

@[simp] theorem find?_nil (name : String) : find? name ([] : Members α) = none := rfl

@[simp] theorem names_nil : names ([] : Members α) = [] := rfl

@[simp] theorem names_cons (member : String × α) (rest : Members α) :
    names (member :: rest) = member.1 :: names rest := rfl

/-- After a write, the name has the new value and every other name has the old one. -/
theorem find?_put (name other : String) (value : α) (members : Members α) :
    find? other (put name value members) =
      if name = other then some value else find? other members := by
  induction members with
  | nil => simp [put, find?]
  | cons member rest ih =>
    obtain ⟨key, old⟩ := member
    by_cases hSame : key = name
    · subst hSame
      by_cases hOther : key = other <;> simp [put, find?, hOther]
    · by_cases hOther : key = other
      · subst hOther
        simp [put, find?, hSame, Ne.symm hSame]
      · simp [put, find?, hSame, hOther, ih]

/-- A write keeps the order of the names, and adds a new name at the end. -/
theorem names_put (name : String) (value : α) (members : Members α) :
    names (put name value members) =
      if name ∈ names members then names members else names members ++ [name] := by
  induction members with
  | nil => simp [put]
  | cons member rest ih =>
    obtain ⟨key, old⟩ := member
    by_cases hSame : key = name
    · simp [put, hSame]
    · simp only [put, hSame, if_false, names_cons, ih, List.mem_cons, Ne.symm hSame, false_or]
      split <;> simp

/-- A name that is dropped is gone, and every other name keeps its value. -/
theorem find?_without (name other : String) (members : Members α) :
    find? other (without name members) = if name = other then none else find? other members := by
  induction members with
  | nil => simp [without]
  | cons member rest ih =>
    obtain ⟨key, old⟩ := member
    simp only [without, ne_eq, decide_not] at ih
    by_cases hSame : key = name
    · subst hSame
      by_cases hOther : key = other
      · subst hOther
        simpa [without] using ih
      · simp [without, find?, hOther, ih]
    · by_cases hOther : key = other
      · subst hOther
        simp [without, find?, hSame, Ne.symm hSame]
      · simp [without, find?, hSame, hOther, ih]

theorem find?_eq_none_iff {name : String} {members : Members α} :
    find? name members = none ↔ name ∉ names members := by
  induction members with
  | nil => simp
  | cons member rest ih =>
    obtain ⟨key, value⟩ := member
    by_cases hSame : key = name <;> simp [find?, hSame, ih, Ne.symm]

/-- A new name goes to the end. -/
theorem put_of_notMem {name : String} {value : α} {members : Members α}
    (hNew : name ∉ names members) : put name value members = members ++ [(name, value)] := by
  induction members with
  | nil => rfl
  | cons member rest ih =>
    simp only [names_cons, List.mem_cons, not_or] at hNew
    simp [put, Ne.symm hNew.1, ih hNew.2]

/-- Pairs whose names differ stay as they are. -/
theorem ofList_of_nodup {pairs : List (String × α)} (hDistinct : (pairs.map (·.1)).Nodup) :
    ofList pairs = pairs := by
  suffices hGeneral : ∀ members : Members α, (members.map (·.1) ++ pairs.map (·.1)).Nodup →
      pairs.foldl (fun members pair => put pair.1 pair.2 members) members = members ++ pairs by
    simpa [ofList] using hGeneral [] (by simpa using hDistinct)
  clear hDistinct
  induction pairs with
  | nil => simp
  | cons pair rest ih =>
    intro members hDistinct
    have hNew : pair.1 ∉ names members := by
      intro hOld
      rw [List.nodup_append] at hDistinct
      exact hDistinct.2.2 _ hOld _ (by simp) rfl
    rw [List.foldl_cons, put_of_notMem hNew, ih]
    · simp
    · simpa using hDistinct

end Members

end PinnedTree
