import PinnedTree.Command.Output
import PinnedTree.Proofs.Session.Readable

/-! Readings that succeed. What a command reads is put together from single reads, and each of them
leaves a session that the next one can start from. -/
namespace PinnedTree

open Session

namespace Reading

variable {α β γ : Type} {session : Session MemoryStore}

/-- From this session the reading has an answer. The session goes on, and the answer and the session
after it are as said. -/
def Gives (session : Session MemoryStore) (reading : Reading α)
    (P : α → Session MemoryStore → Prop) : Prop :=
  ∃ result after, reading session = (.ok result, after) ∧ Continues session after ∧ P result after

theorem bind_eq_of_ok {reading : Reading α} {next : α → Reading β} {after : Session MemoryStore}
    {result : α} (h : reading session = (.ok result, after)) :
    (reading >>= next) session = next result after := by
  simp only [bind, ExceptT.bind, ExceptT.mk, StateT.bind, h]
  rfl

/-- If a reading gives an answer and another one goes on from there, one after the other gives what
the other one does. -/
theorem Gives.bind {reading : Reading α} {next : α → Reading β}
    {P : α → Session MemoryStore → Prop} {Q : β → Session MemoryStore → Prop}
    (h : Gives session reading P) (hNext : ∀ result after, Continues session after →
      P result after → Gives after (next result) Q) : Gives session (reading >>= next) Q := by
  obtain ⟨result, after, hReading, hAfter, hResult⟩ := h
  obtain ⟨last, final, hLast, hFinal, hEnd⟩ := hNext result after hAfter hResult
  refine ⟨last, final, ?_, hAfter.trans hFinal, hEnd⟩
  rw [bind_eq_of_ok hReading, hLast]

theorem gives_pure (h : session.Consistent) {result : α} {P : α → Session MemoryStore → Prop}
    (hResult : P result session) : Gives session (pure result) P :=
  ⟨result, session, rfl, .refl h, hResult⟩

/-- A question that is answered gives the answer. -/
theorem gives_ask {question : Session MemoryStore → Except ReadError α × Session MemoryStore}
    {result : α} {P : α → Session MemoryStore → Prop}
    (hAnswer : (question session).1 = .ok result) (hAfter : Continues session (question session).2)
    (hResult : P result (question session).2) : Gives session (ask question) P := by
  refine ⟨result, (question session).2, ?_, hAfter, hResult⟩
  rw [ask]
  exact Prod.ext (congrArg (Except.mapError CommandError.read) hAnswer) rfl

/-- Readings one after the other, each of which has an answer wherever the session has got to. -/
theorem gives_mapM {reading : α → Reading β} {answer : γ → β} {items : List α} {sources : List γ}
    (h : List.Forall₂ (fun item source => ∀ now, Continues session now →
      Gives now (reading item) fun result _ => result = answer source) items sources)
    {now : Session MemoryStore} (hNow : Continues session now) :
    Gives now (items.mapM reading) fun result _ => result = sources.map answer := by
  induction h generalizing now with
  | nil => exact gives_pure hNow.consistent rfl
  | cons hFirst _ ih =>
      rw [List.mapM_cons]
      refine (hFirst now hNow).bind ?_
      rintro _ after hAfter rfl
      refine (ih (hNow.trans hAfter)).bind ?_
      rintro _ final hFinal rfl
      exact gives_pure hFinal.consistent rfl

/-! ### Reading a stored node -/

section Stored

variable {node : SnapshotId} {path : String} {revision : Revision} {tree : Tree}
  (h : session.Presents node path revision tree) (hConsistent : session.Consistent)

include h hConsistent

/-- The properties of a stored node are given with their scalars. -/
theorem gives_properties :
    Gives session (ask (·.properties node)) fun result _ =>
      result = tree.properties.map fun property => (property.1, property.2.map Scalar.ofAtom) :=
  gives_ask (h.properties hConsistent) (hConsistent.continues_call node .properties) rfl

/-- A window of the children of a stored node is given by their names. -/
theorem gives_entries (offset count : Nat) :
    Gives session (ask (·.entries node offset (some count))) fun result after =>
      after.Lists path revision result
        (Members.names ((tree.children.drop offset).take count)) := by
  obtain ⟨entries, hEntries, hLists⟩ := h.entries hConsistent offset count
  exact gives_ask hEntries (hConsistent.continues_call node (.entries offset (some count))) hLists

end Stored

end Reading

end PinnedTree
