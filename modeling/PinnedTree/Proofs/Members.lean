import Mathlib.Data.List.Nodup
import PinnedTree.Members

/-! What the writes on ordered members do to the list of names, and which members they leave.
Names that are distinct stay distinct under every write, and members of other names stay as they
are. Where a name comes more than once in a list, its last member can be asked for. -/
namespace PinnedTree

/-! ### The last member of a name -/

section LastCalled

variable {ε : Type} {called : ε → Option String} {name : String}

def lastCalled? (called : ε → Option String) (name : String) (members : List ε) : Option ε :=
  (members.filter fun member => called member = some name).getLast?

theorem lastCalled?_concat (front : List ε) (last : ε) :
    lastCalled? called name (front ++ [last]) =
      if called last = some name then some last else lastCalled? called name front := by
  rw [lastCalled?, List.filter_append]
  split
  · rename_i hName
    rw [List.filter_cons_of_pos (by simpa using hName)]
    exact List.getLast?_concat
  · rename_i hOther
    rw [List.filter_cons_of_neg (by simpa using hOther), List.filter_nil, List.append_nil]
    rfl

theorem mem_of_lastCalled? {members : List ε} {member : ε}
    (h : lastCalled? called name members = some member) : member ∈ members :=
  (List.mem_filter.mp (List.mem_of_getLast? h)).1

/-- A name that is called has a last member. -/
theorem exists_lastCalled? {members : List ε} {member : ε} (hMember : member ∈ members)
    (hName : called member = some name) :
    ∃ last ∈ members, called last = some name ∧ lastCalled? called name members = some last := by
  cases hLast : lastCalled? called name members with
  | none =>
      have hNone := List.filter_eq_nil_iff.mp (List.getLast?_eq_none_iff.mp hLast) member hMember
      exact absurd (decide_eq_true hName) hNone
  | some last =>
      obtain ⟨hIn, hCalled⟩ := List.mem_filter.mp (List.mem_of_getLast? hLast)
      exact ⟨last, hIn, of_decide_eq_true hCalled, rfl⟩

end LastCalled

namespace Members

variable {α : Type}

theorem mem_names {name : String} {members : Members α} :
    name ∈ names members ↔ ∃ value, (name, value) ∈ members := by
  simp [names]

/-- Writing adds the name that is written and no other. -/
theorem mem_names_put {name other : String} {value : α} {members : Members α} :
    other ∈ names (put name value members) ↔ other = name ∨ other ∈ names members := by
  rw [names_put]
  split
  · rename_i h
    exact ⟨Or.inr, fun hOther => hOther.elim (fun he => he ▸ h) id⟩
  · simp [or_comm]

/-- Distinct names stay distinct when a member is written. -/
theorem nodup_names_put {name : String} {value : α} {members : Members α}
    (h : (names members).Nodup) : (names (put name value members)).Nodup := by
  rw [names_put]
  split
  · exact h
  · rename_i hNew
    exact List.nodup_append_comm.mp (List.nodup_cons.mpr ⟨hNew, h⟩)

/-- A write leaves only the members that were there, and the one that is written. -/
theorem mem_of_mem_put {name : String} {value : α} {members : Members α} {member : String × α}
    (h : member ∈ put name value members) : member = (name, value) ∨ member ∈ members := by
  induction members with
  | nil => exact Or.inl (List.mem_singleton.mp h)
  | cons first rest ih =>
      obtain ⟨key, old⟩ := first
      by_cases hSame : key = name
      · simp only [put, hSame, if_true, List.mem_cons] at h
        exact h.imp_right (List.mem_cons_of_mem _)
      · simp only [put, hSame, if_false, List.mem_cons] at h
        rcases h with rfl | h
        · exact Or.inr List.mem_cons_self
        · exact (ih h).imp_right (List.mem_cons_of_mem _)

theorem names_without (name : String) (members : Members α) :
    names (without name members) = (names members).filter (· ≠ name) := by
  rw [names, names, without, List.filter_map]
  rfl

/-- Dropping a name drops that one only. -/
theorem mem_names_without {name other : String} {members : Members α} :
    other ∈ names (without name members) ↔ other ∈ names members ∧ other ≠ name := by
  rw [names_without, List.mem_filter, decide_eq_true_iff]

theorem nodup_names_without {name : String} {members : Members α} (h : (names members).Nodup) :
    (names (without name members)).Nodup := by
  rw [names_without]
  exact h.filter _

/-- A member that a look-up finds is one of the members. -/
theorem mem_of_find? {name : String} {value : α} {members : Members α}
    (h : find? name members = some value) : (name, value) ∈ members := by
  induction members with
  | nil => exact absurd h (by simp)
  | cons first rest ih =>
      obtain ⟨key, old⟩ := first
      by_cases hSame : key = name
      · simp only [find?, hSame, if_true, Option.some.injEq] at h
        rw [hSame, h]
        exact List.mem_cons_self
      · simp only [find?, hSame, if_false] at h
        exact List.mem_cons_of_mem _ (ih h)

/-- A look-up finds something exactly for the names that are there. -/
theorem isSome_find?_iff {name : String} {members : Members α} :
    (find? name members).isSome = true ↔ name ∈ names members := by
  rw [Option.isSome_iff_ne_none, ne_eq, find?_eq_none_iff, not_not]

/-- Under distinct names, each member is the one that is found. -/
theorem find?_eq_some_iff {name : String} {value : α} {members : Members α}
    (h : (names members).Nodup) : find? name members = some value ↔ (name, value) ∈ members := by
  refine ⟨mem_of_find?, fun hMem => ?_⟩
  induction members with
  | nil => cases hMem
  | cons member rest ih =>
      obtain ⟨key, old⟩ := member
      obtain ⟨hFresh, hRest⟩ := List.nodup_cons.mp h
      rcases List.mem_cons.mp hMem with hSame | hBehind
      · cases hSame
        rw [find?, if_pos rfl]
      · have hOther : key ≠ name := by
          rintro rfl
          exact hFresh (mem_names.mpr ⟨value, hBehind⟩)
        rw [find?, if_neg hOther]
        exact ih hRest hBehind

/-- Under distinct names, none is a name of what stands before it. -/
theorem notMem_names_of_nodup {name : String} {value : α} {front rest : Members α}
    (h : (names (front ++ (name, value) :: rest)).Nodup) : name ∉ names front := by
  rw [names, List.map_append, List.nodup_append] at h
  intro hMem
  exact h.2.2 name hMem name List.mem_cons_self rfl

/-- A write does not touch the members of other names. -/
theorem filter_put {keep : String → Bool} {name : String} {value : α} {members : Members α}
    (h : keep name = false) : (put name value members).filter (fun member => keep member.1) =
      members.filter fun member => keep member.1 := by
  induction members with
  | nil => simp [put, h]
  | cons member rest ih =>
      obtain ⟨key, old⟩ := member
      by_cases hSame : key = name
      · simp [put, hSame, h]
      · simp [put, hSame, List.filter_cons, ih]

/-- Among members that do not have the dropped name, nothing changes. -/
theorem filter_without {keep : String → Bool} {name : String} {members : Members α}
    (h : keep name = false) : (without name members).filter (fun member => keep member.1) =
      members.filter fun member => keep member.1 := by
  rw [without, List.filter_filter]
  apply List.filter_congr
  intro member hMember
  by_cases hSame : member.1 = name
  · simp [hSame, h]
  · simp [hSame]

/-- Nothing is dropped for a name that does not occur. -/
theorem without_of_notMem {name : String} {members : Members α} (h : name ∉ names members) :
    without name members = members := by
  apply List.filter_eq_self.mpr
  intro member hMember
  apply decide_eq_true
  rintro rfl
  exact h (List.mem_map_of_mem hMember)

end Members

end PinnedTree
