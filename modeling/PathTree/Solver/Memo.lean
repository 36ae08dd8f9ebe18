import PathTree.Solver.Query

/-!
# Remembered answers

A solver that asks another one only for queries it has not seen. Queries are told apart by their
text; a hash of the text is compared first. Failures are not remembered.
-/

namespace PathTree

/-- The text of a query. -/
def Query.key (q : Query) : String :=
  String.join (q.params.map fun p => p.name ++ " " ++ p.type ++ ",") ++ "|"
    ++ String.join (q.conds.map fun c => c.render ++ ";")

/-- A remembered answer. -/
structure MemoEntry where
  hash : UInt64
  key : String
  answer : Answer

/-- What a memoising solver remembers, and how often it did and did not find an answer. -/
structure Memo where
  entries : List MemoEntry := []
  hits : Nat := 0
  misses : Nat := 0

namespace Memo

/-- The answer remembered for a query text. -/
def find? (m : Memo) (hash : UInt64) (key : String) : Option Answer :=
  (m.entries.find? fun e => e.hash = hash && e.key = key).map (·.answer)

/-- Remembers an answer. -/
def insert (m : Memo) (e : MemoEntry) : Memo := { m with entries := m.entries ++ [e] }

/-- Counts a remembered answer. -/
def hit (m : Memo) : Memo := { m with hits := m.hits + 1 }

/-- Counts a query that was new. -/
def miss (m : Memo) : Memo := { m with misses := m.misses + 1 }

@[simp] theorem entries_hit (m : Memo) : m.hit.entries = m.entries := rfl

@[simp] theorem entries_miss (m : Memo) : m.miss.entries = m.entries := rfl

@[simp] theorem entries_insert (m : Memo) (e : MemoEntry) :
    (m.insert e).entries = m.entries ++ [e] := rfl

/-- An answer that is found was remembered for the query text. -/
theorem exists_of_find? {m : Memo} {hash : UInt64} {key : String} {a : Answer}
    (h : m.find? hash key = some a) :
    ∃ e ∈ m.entries, e.hash = hash ∧ e.key = key ∧ e.answer = a := by
  obtain ⟨e, he, ha⟩ := Option.map_eq_some_iff.mp h
  have hkeys : e.hash = hash ∧ e.key = key := by simpa using List.find?_some he
  exact ⟨e, List.mem_of_find?_eq_some he, hkeys.1, hkeys.2, ha⟩

end Memo

/-- The solver that remembers the answers of another one. -/
def Solver.memo {σ : Type} (hash : String → UInt64) (inner : Solver σ) : Solver (σ × Memo) where
  solve q s :=
    let (p, t, m) := s
    let key := q.key
    let h := hash key
    match m.find? h key with
    | some a => (.ok a, (p, (t, m.hit)))
    | none =>
      let (r, p, t) := inner.solve q (p, t)
      match r with
      | .error f => (.error f, (p, (t, m.miss)))
      | .ok a => (.ok a, (p, (t, m.miss.insert ⟨h, key, a⟩)))

end PathTree
