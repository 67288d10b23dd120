import Mathlib.Data.List.Forall2
import Mathlib.Data.List.Pairwise
import Heredity.Proofs.Trees
import Heredity.Resolution

/-!
# What resolution makes of a base

Resolution goes through the records of a base one by one.  This file says what the draft of the
extension holds at one key in terms of what the base holds there, so that no later proof goes
through the list again.

* `Table.get?_eq_some_iff`, `Table.entries_ofList` — tables as lists of entries.
* `resolve_eq_ok` — the parts of a resolution.
* `get?_inherited_iff` — the record of the extension at a key is the inherited record of the base.
* `emissions_eq` — the emissions are those of the records, in order.
* `Registry.Offers` — a key that every extension gets.
* `inheritRoutine_eq_ok` — a routine is delegated, or it is the copy that `Registry.copied` makes.
-/

namespace Heredity

/-! ## Tables as lists -/

namespace Table

universe u v

variable {κ : Type u} {α : Type v} [BEq κ]

/-- A list of entries whose keys all differ is the table that it makes. -/
theorem entries_insertAll {t : Table κ α} {es : List (κ × α)}
    (h : ((t.entries ++ es).map Prod.fst).Pairwise fun a b => ¬ (a == b) = true) :
    (t.insertAll es).entries = t.entries ++ es := by
  induction es generalizing t with
  | nil => simp [insertAll]
  | cons e es ih =>
    have fresh : t.contains e.1 = false := by
      rw [Bool.eq_false_iff]
      intro present
      obtain ⟨k, hk, agrees⟩ := (contains_iff_exists_key t e.1).1 present
      rw [List.map_append, List.pairwise_append] at h
      exact h.2.2 k hk e.1 (by simp) agrees
    have step : (t.insert e.1 e.2).entries = t.entries ++ [e] := insert_of_not_contains fresh e.2
    show ((t.insert e.1 e.2).insertAll es).entries = _
    rw [ih (by rw [step]; simpa using h), step]
    simp

theorem entries_ofList {es : List (κ × α)}
    (h : (es.map Prod.fst).Pairwise fun a b => ¬ (a == b) = true) : (ofList es).entries = es :=
  entries_insertAll (t := empty) (by simpa [empty] using h)

variable [PartialEquivBEq κ]

/-- Different entries have keys that differ. -/
theorem distinct_of_mem (t : Table κ α) {e e' : κ × α} (h : e ∈ t.entries) (h' : e' ∈ t.entries)
    (hne : e ≠ e') : ¬ (e.1 == e'.1) = true := by
  have : Std.Symm fun a b : κ × α => ¬ (a.1 == b.1) = true :=
    ⟨fun _ _ hab hba => hab (BEq.symm hba)⟩
  exact (List.pairwise_map.1 t.distinct).forall h h' hne

/-- A value is read at a key exactly if it is stored at a key that agrees. -/
theorem get?_eq_some_iff {t : Table κ α} {k : κ} {a : α} :
    t.get? k = some a ↔ ∃ k', (k', a) ∈ t.entries ∧ (k' == k) = true := by
  constructor
  · intro h
    unfold get? find? at h
    obtain ⟨⟨k', a'⟩, found, rfl⟩ := Option.map_eq_some_iff.1 h
    exact ⟨k', List.mem_of_find?_eq_some found, by simpa using List.find?_some found⟩
  · rintro ⟨k', member, agrees⟩
    have present : t.contains k = true := List.any_eq_true.2 ⟨(k', a), member, agrees⟩
    obtain ⟨a', read⟩ := contains_iff_exists_get?.1 present
    unfold get? find? at read
    obtain ⟨⟨k'', a''⟩, found, rfl⟩ := Option.map_eq_some_iff.1 read
    have agrees' : (k'' == k) = true := by simpa using List.find?_some found
    -- Keys agree with one stored key only, so the entry that is found is the one given.
    by_cases same : (k'', a'') = (k', a)
    · cases same
      exact read
    · have differ : ¬ (k'' == k') = true :=
        distinct_of_mem t (List.mem_of_find?_eq_some found) member same
      exact absurd (BEq.trans agrees' (BEq.symm agrees)) differ

/-- What holds of every value that can be read holds of all values, and the other way round. -/
theorem forall_get?_iff [ReflBEq κ] {t : Table κ α} {P : α → Prop} :
    (∀ k a, t.get? k = some a → P a) ↔ ∀ a ∈ t.values, P a := by
  constructor
  · intro h a member
    obtain ⟨⟨k, a'⟩, entry, rfl⟩ := List.mem_map.1 member
    exact h k a' (get?_eq_some_iff.2 ⟨k, entry, BEq.rfl⟩)
  · intro h k a read
    obtain ⟨k', entry, -⟩ := get?_eq_some_iff.1 read
    exact h a (List.mem_map_of_mem entry)

end Table

/-! ## The parts of a resolution -/

/-- If one computation after another succeeds, both do. -/
theorem exists_of_bind_eq_ok {ε α β : Type} {x : Except ε α} {f : α → Except ε β} {b : β}
    (h : (x >>= f) = .ok b) : ∃ a, x = .ok a ∧ f a = .ok b := by
  cases x with
  | error e => cases h
  | ok a => exact ⟨a, rfl, h⟩

/-- If every element of a list succeeds, the results belong to the elements in order. -/
theorem forall₂_of_mapM_eq_ok {ε α β : Type} {f : α → Except ε β} {xs : List α} {ys : List β}
    (h : xs.mapM f = .ok ys) : List.Forall₂ (fun x y => f x = .ok y) xs ys := by
  induction xs generalizing ys with
  | nil =>
    rw [List.mapM_nil] at h
    cases h
    exact .nil
  | cons x xs ih =>
    rw [List.mapM_cons] at h
    cases first : f x with
    | error e =>
      rw [first] at h
      cases h
    | ok y =>
      rw [first] at h
      cases rest : xs.mapM f with
      | error e =>
        rw [rest] at h
        cases h
      | ok ys' =>
        rw [rest] at h
        cases h
        exact .cons first (ih rest)

/-- If each element of a list gives something, the list does. -/
theorem exists_mapM_eq_ok {α β : Type} {f : α → Except Error β} {xs : List α}
    (h : ∀ x ∈ xs, ∃ y, f x = .ok y) : ∃ ys, xs.mapM f = .ok ys := by
  induction xs with
  | nil => exact ⟨[], rfl⟩
  | cons x xs ih =>
    obtain ⟨y, first⟩ := h x List.mem_cons_self
    obtain ⟨ys, rest⟩ := ih fun x' member => h x' (List.mem_cons_of_mem x member)
    refine ⟨y :: ys, ?_⟩
    rw [List.mapM_cons, first, rest]
    rfl

theorem exists_left_of_forall₂ {α β : Type} {R : α → β → Prop} {xs : List α} {ys : List β}
    (h : List.Forall₂ R xs ys) {y : β} (hy : y ∈ ys) : ∃ x ∈ xs, R x y := by
  induction h with
  | nil => cases hy
  | cons first _ ih =>
    rcases List.mem_cons.1 hy with rfl | hy
    · exact ⟨_, List.mem_cons_self, first⟩
    · obtain ⟨x, hx, related⟩ := ih hy
      exact ⟨x, List.mem_cons_of_mem _ hx, related⟩

theorem exists_right_of_forall₂ {α β : Type} {R : α → β → Prop} {xs : List α} {ys : List β}
    (h : List.Forall₂ R xs ys) {x : α} (hx : x ∈ xs) : ∃ y ∈ ys, R x y :=
  exists_left_of_forall₂ (List.Forall₂.flip h) hx

variable {config : Config} {base : Registry} {fields : Value} {unit : String}
  {resolution : Resolution}

/-- A resolution is a draft of what is inherited, and the emissions of the same routines. -/
theorem resolve_eq_ok (h : resolve base fields unit config = .ok resolution) :
    ∃ merged routines, mergeFields base.fields fields = .ok merged ∧
      inheritAll config base = .ok routines ∧
      resolution.draft = inheritedDraft base unit merged routines ∧
      resolution.emissions =
        { preHooks := base.preHook.toList
          routines := routines.map fun r => Emission.ofRecord r.key r.routine
          postHooks := base.postHook.toList
          requires := resolution.draft.dependencies.sorted } := by
  unfold resolve at h
  cases merging : mergeFields base.fields fields with
  | error fault =>
    rw [merging] at h
    cases h
  | ok merged =>
    rw [merging] at h
    cases inheriting : inheritAll config base with
    | error e =>
      simp only [Except.mapError, bind, Except.bind, inheriting] at h
      cases h
    | ok routines =>
      simp only [Except.mapError, bind, Except.bind, inheriting] at h
      cases h
      exact ⟨merged, routines, rfl, rfl, rfl, rfl⟩

/-- Every routine that is passed on is taken over, in order. -/
theorem inheritAll_eq_ok {routines : List Inherited} (h : inheritAll config base = .ok routines) :
    List.Forall₂ (fun e r => r.key = e.1 ∧
      inheritRoutine config base e.1 e.2 = .ok (r.routine, r.needs)) base.passedOn routines := by
  refine (forall₂_of_mapM_eq_ok h).imp fun e r taken => ?_
  cases inheriting : inheritRoutine config base e.1 e.2 with
  | error error =>
    rw [inheriting] at taken
    cases taken
  | ok result =>
    rw [inheriting] at taken
    cases taken
    exact ⟨rfl, rfl⟩

/-- The inherited routines have the keys that are passed on, in order. -/
theorem keys_inheritAll {routines : List Inherited} (h : inheritAll config base = .ok routines) :
    routines.map Inherited.key = base.passedOn.map Prod.fst := by
  have keys : List.Forall₂ (fun e r => Inherited.key r = Prod.fst e) base.passedOn routines :=
    (inheritAll_eq_ok h).imp fun _ _ taken => taken.1
  clear h
  generalize base.passedOn = es at keys
  induction keys with
  | nil => rfl
  | cons first _ ih => rw [List.map_cons, List.map_cons, first, ih]

/-- Whether a routine is taken over, and how, depends on its key by the name only. -/
theorem inheritRoutine_congr {key key' : Key} (h : (key == key') = true) (r : RoutineRecord) :
    inheritRoutine config base key r = inheritRoutine config base key' r := by
  rw [inheritRoutine, inheritRoutine, (Key.beq_iff.1 h).1]

/-- The records of the extension are the inherited routines, in order. -/
theorem entries_routines (h : resolve base fields unit config = .ok resolution) :
    ∃ routines, inheritAll config base = .ok routines ∧
      resolution.draft.routines.entries = routines.map fun r => (r.key, r.routine) := by
  obtain ⟨merged, routines, -, inheriting, draft, -⟩ := resolve_eq_ok h
  refine ⟨routines, inheriting, ?_⟩
  rw [draft]
  refine Table.entries_ofList ?_
  have keys := keys_inheritAll inheriting
  rw [List.map_map, show (Prod.fst ∘ fun r : Inherited => (r.key, r.routine)) = Inherited.key
    from rfl, keys]
  exact base.routines.distinct.sublist (List.Sublist.map _ List.filter_sublist)

/-- **Inheritance at one key.**  The extension records at a key what becomes of the base's record,
if the base passes it on. -/
theorem get?_inherited_iff (h : resolve base fields unit config = .ok resolution) {key : Key}
    {r' : RoutineRecord} :
    resolution.draft.routines.get? key = some r' ↔
      ∃ r needs, base.routines.get? key = some r ∧ base.withheld.contains key = false ∧
        inheritRoutine config base key r = .ok (r', needs) := by
  obtain ⟨routines, inheriting, entries⟩ := entries_routines h
  have taken := inheritAll_eq_ok inheriting
  rw [Table.get?_eq_some_iff, entries]
  constructor
  · rintro ⟨key', member, agrees⟩
    obtain ⟨inherited, isIn, same⟩ := List.mem_map.1 member
    cases same
    obtain ⟨⟨key, r⟩, passed, rfl, becomes⟩ := exists_left_of_forall₂ taken isIn
    obtain ⟨stored, kept⟩ := List.mem_filter.1 passed
    refine ⟨r, inherited.needs, Table.get?_eq_some_iff.2 ⟨_, stored, agrees⟩, ?_, ?_⟩
    · rw [← Table.contains_congr _ agrees]
      simpa using kept
    · rw [← inheritRoutine_congr agrees]
      exact becomes
  · rintro ⟨r, needs, recorded, passedOn, becomes⟩
    obtain ⟨key', stored, agrees⟩ := Table.get?_eq_some_iff.1 recorded
    have passed : (key', r) ∈ base.passedOn := by
      refine List.mem_filter.2 ⟨stored, ?_⟩
      rw [Table.contains_congr _ agrees, passedOn]
      rfl
    obtain ⟨inherited, isIn, rfl, becomes'⟩ := exists_right_of_forall₂ taken passed
    rw [inheritRoutine_congr agrees, becomes] at becomes'
    cases becomes'
    exact ⟨_, List.mem_map.2 ⟨inherited, isIn, rfl⟩, agrees⟩

/-- What the base passes on, the extension records. -/
theorem exists_inherited (h : resolve base fields unit config = .ok resolution) {key : Key}
    {r : RoutineRecord} (recorded : base.routines.get? key = some r)
    (passedOn : base.withheld.contains key = false) :
    ∃ r' needs, inheritRoutine config base key r = .ok (r', needs) ∧
      resolution.draft.routines.get? key = some r' := by
  obtain ⟨routines, inheriting, -⟩ := entries_routines h
  obtain ⟨key', stored, agrees⟩ := Table.get?_eq_some_iff.1 recorded
  have passed : (key', r) ∈ base.passedOn := by
    refine List.mem_filter.2 ⟨stored, ?_⟩
    rw [Table.contains_congr _ agrees, passedOn]
    rfl
  obtain ⟨inherited, -, -, becomes⟩ := exists_right_of_forall₂ (inheritAll_eq_ok inheriting) passed
  rw [inheritRoutine_congr agrees] at becomes
  exact ⟨_, _, becomes, (get?_inherited_iff h).2 ⟨r, _, recorded, passedOn, becomes⟩⟩

/-- The emissions are those of the records, in order. -/
theorem emissions_eq (h : resolve base fields unit config = .ok resolution) :
    resolution.emissions.routines =
      resolution.draft.routines.entries.map fun e => Emission.ofRecord e.1 e.2 := by
  obtain ⟨merged, routines, -, inheriting, -, emissions⟩ := resolve_eq_ok h
  obtain ⟨routines', inheriting', entries⟩ := entries_routines h
  rw [inheriting] at inheriting'
  cases inheriting'
  rw [emissions, entries, List.map_map]
  rfl

/-- A key that every extension of a unit gets. -/
structure Registry.Offers (registry : Registry) (key : Key) : Prop where
  /-- It is recorded. -/
  recorded : registry.routines.contains key = true
  /-- It is not private. -/
  isPublic : registry.privateKeys.contains key = false
  /-- It is not withheld. -/
  passedOn : registry.withheld.contains key = false

/-- What a registry accounts for is offered, unless it keeps routines from being copied. -/
theorem Registry.offers_of_not_triggers (delegates : config.delegateWithheld = true) {key : Key}
    (accounted : base.routines.contains key = true ∨ base.privateKeys.contains key = true ∨
      base.withheld.contains key = true)
    (safe : (base.triggers config).contains key = false) : base.Offers key := by
  rw [triggers, if_pos delegates, OrderedSet.contains_union, Bool.or_eq_false_iff] at safe
  rcases accounted with recorded | isPrivate | withheld
  · exact ⟨recorded, safe.1, safe.2⟩
  · exact absurd isPrivate (Bool.eq_false_iff.1 safe.1)
  · exact absurd withheld (Bool.eq_false_iff.1 safe.2)

/-- Qualifying a list of guards gives the qualified guards. -/
theorem map_fst_of_mapM_qualify {imports : Table Key String} {guards : List Tree}
    {qualified : List (Tree × NameSet)}
    (h : guards.mapM (Tree.qualify imports) = .ok qualified) :
    qualified.map Prod.fst = guards.map (Tree.qualified imports) := by
  have pairs := forall₂_of_mapM_eq_ok h
  clear h
  induction pairs with
  | nil => rfl
  | cons first _ ih => rw [List.map_cons, List.map_cons, ih, Tree.qualify_eq_ok first]

/-- The copy of a routine of a base. -/
def Registry.copied (config : Config) (base : Registry) (r : RoutineRecord) : RoutineRecord :=
  { params := Tree.normalize r.params r.guards config.stem
    guards := r.guards.map (Tree.qualified base.imports)
    body := r.body.qualified base.imports
    origin := .copied
    permitted := r.permitted }

/-- Copying gives the copy, if it gives one. -/
theorem copyRoutine_eq_ok {r r' : RoutineRecord} {needs : List String}
    (h : copyRoutine config base r = .ok (r', needs)) : r' = base.copied config r := by
  unfold copyRoutine at h
  cases body : r.body.qualify base.imports with
  | error e =>
    rw [body] at h
    cases h
  | ok body' =>
    cases guards : r.guards.mapM (Tree.qualify base.imports) with
    | error e =>
      simp only [body, guards, bind, Except.bind] at h
      cases h
    | ok guards' =>
      simp only [body, guards, bind, Except.bind] at h
      cases h
      rw [map_fst_of_mapM_qualify guards, Tree.qualify_eq_ok body]
      rfl

/-- A routine is delegated if its text calls what only the base has, and copied otherwise. -/
theorem inheritRoutine_eq_ok {key : Key} {r r' : RoutineRecord} {needs : List String}
    (h : inheritRoutine config base key r = .ok (r', needs)) :
    r' = delegateRoutine config base key.name r ∨
      (Tree.routineCalls (base.triggers config) r.params r.guards r.body = false ∧
        r' = base.copied config r) := by
  unfold inheritRoutine at h
  split at h
  · cases h
    exact .inl rfl
  · next independent => exact .inr ⟨by simpa using independent, copyRoutine_eq_ok h⟩

/-- An inherited routine is not one of the unit's own. -/
theorem inherited_of_inheritRoutine {key : Key} {r r' : RoutineRecord} {needs : List String}
    (h : inheritRoutine config base key r = .ok (r', needs)) : r'.inherited = true := by
  rcases inheritRoutine_eq_ok h with rfl | ⟨-, rfl⟩ <;> rfl

/-- An inherited routine has the permission and the normalized parameters of the original. -/
theorem inheritRoutine_keeps {key : Key} {r r' : RoutineRecord} {needs : List String}
    (h : inheritRoutine config base key r = .ok (r', needs)) :
    r'.permitted = r.permitted ∧ r'.params = Tree.normalize r.params r.guards config.stem := by
  rcases inheritRoutine_eq_ok h with rfl | ⟨-, rfl⟩ <;> exact ⟨rfl, rfl⟩

/-- The snapshot holds the permissions of the inherited records. -/
theorem Ledger.get?_snapshot {d : Draft} {key : Key} {r : RoutineRecord}
    (recorded : d.routines.get? key = some r) (inherited : r.inherited = true) :
    (snapshot d).get? key = some r.permitted := by
  obtain ⟨key', stored, agrees⟩ := Table.get?_eq_some_iff.1 recorded
  refine Table.get?_eq_some_iff.2 ⟨key', ?_, agrees⟩
  exact List.mem_map.2 ⟨(key', r), List.mem_filter.2 ⟨stored, inherited⟩, rfl⟩

end Heredity
