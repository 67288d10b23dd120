import Heredity.Tree.Basic

/-!
# Dependence on private routines

A routine whose text calls one of a set of keys by a bare call cannot be moved to a unit where those
keys mean something else.  `Tree.calls` looks through one tree, `Tree.routineCalls` through a whole
routine: its body, its guards, and the values that optional parameters fall back on.

Qualified calls name their unit and never count.
-/

namespace Heredity.Tree

/-- Whether a tree contains a bare call of one of the keys, at any depth. -/
def calls (keys : KeySet) (t : Tree) : Bool :=
  t.walk.any fun n =>
    match n.calledKey? with
    | some key => keys.contains key
    | none => false

/-- The value that an optional parameter falls back on. -/
def fallback? : Tree → Option Tree
  | .optional _ value => some value
  | _ => none

/-- Whether a parameter falls back, at any depth, on a value that calls one of the keys. -/
def fallbacksCall (keys : KeySet) (param : Tree) : Bool :=
  (param.walk.filterMap fallback?).any (calls keys)

/-- Whether the body, a guard or a fallback value of a routine calls one of the keys. -/
def routineCalls (keys : KeySet) (params guards : List Tree) (body : Tree) : Bool :=
  calls keys body || guards.any (calls keys) || params.any (fallbacksCall keys)

/-- A tree calls one of the keys exactly if one of its nodes is such a call. -/
theorem calls_iff {keys : KeySet} {t : Tree} :
    calls keys t = true ↔
      ∃ name args, .call name args ∈ t.walk ∧
        keys.contains (Key.ofCount name args.length) = true := by
  unfold calls
  rw [List.any_eq_true]
  constructor
  · rintro ⟨n, hn, h⟩
    cases n <;> simp only [calledKey?, Bool.false_eq_true] at h
    exact ⟨_, _, hn, h⟩
  · rintro ⟨name, args, hn, h⟩
    exact ⟨_, hn, h⟩

/-- No tree calls a key of the empty set. -/
theorem calls_empty (t : Tree) : calls ∅ t = false := by
  rw [Bool.eq_false_iff]
  intro h
  obtain ⟨_, _, _, h⟩ := calls_iff.1 h
  exact absurd h (by simp)

end Heredity.Tree
