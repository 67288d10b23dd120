/-!
# Tables that remember the order of arrival

The records of a unit, the routines of an image, the fields of a structure and the bindings of a
match are all associations whose order can be seen from outside.  A `Table` keeps its entries in
the order in which their keys first arrived:

* `Table.insert` at a key that is present keeps the position *and the spelling* of that key and
  replaces the value; at a new key it appends.
* `Table.erase` removes the entry of a key and closes the gap.
* `Table.get?` reads the value of a key, `Table.entries` the whole table in order.

Keys are compared with `==`.  That relation need not be equality: two routine keys agree when
their arities agree as numbers, whatever their spelling, and so do the values `1` and `true`.  So
the laws below ask for symmetry and transitivity (`PartialEquivBEq`) where they need them, never for
`LawfulBEq`.

That no two entries have agreeing keys is a field of the type, `Table.distinct`, so no caller ever
has to establish it.

An `OrderedSet` is a table that stores nothing at its keys.
-/

namespace Heredity

universe u v w

/-- An association of keys with values, in the order in which the keys first arrived. -/
structure Table (κ : Type u) (α : Type v) [BEq κ] where
  /-- The entries, oldest key first. -/
  entries : List (κ × α)
  /-- No two entries have keys that agree. -/
  distinct : (entries.map Prod.fst).Pairwise (fun a b => ¬ (a == b) = true)

namespace Table

variable {κ : Type u} {α : Type v} {β : Type w} [BEq κ]

/-- Two tables with the same entries in the same order are the same table. -/
@[ext] theorem ext {s t : Table κ α} (h : s.entries = t.entries) : s = t := by
  cases s; cases t; cases h; rfl

instance [DecidableEq κ] [DecidableEq α] : DecidableEq (Table κ α) := fun s t =>
  if h : s.entries = t.entries then isTrue (ext h) else isFalse fun e => h (e ▸ rfl)

/-- The table without entries. -/
def empty : Table κ α := ⟨[], .nil⟩

instance : EmptyCollection (Table κ α) := ⟨empty⟩
instance : Inhabited (Table κ α) := ⟨empty⟩

/-- The keys, oldest first, each as it was spelled on arrival. -/
def keys (t : Table κ α) : List κ := t.entries.map Prod.fst

/-- The values, in the order of their keys. -/
def values (t : Table κ α) : List α := t.entries.map Prod.snd

/-- The number of entries. -/
def size (t : Table κ α) : Nat := t.entries.length

/-- Whether the table has no entry. -/
def isEmpty (t : Table κ α) : Bool := t.entries.isEmpty

/-- The entry of a key, with the key as it is stored. -/
def find? (t : Table κ α) (k : κ) : Option (κ × α) := t.entries.find? (fun e => e.1 == k)

/-- The value stored at a key. -/
def get? (t : Table κ α) (k : κ) : Option α := (t.find? k).map Prod.snd

/-- Whether a key that agrees with `k` is present. -/
def contains (t : Table κ α) (k : κ) : Bool := t.entries.any (fun e => e.1 == k)

/-! ### Writing -/

/-- Gives the entry at `k` the value `a`; every other entry and every key stays. -/
def assign (es : List (κ × α)) (k : κ) (a : α) : List (κ × α) :=
  es.map fun e => if e.1 == k then (e.1, a) else e

theorem map_fst_assign (es : List (κ × α)) (k : κ) (a : α) :
    (assign es k a).map Prod.fst = es.map Prod.fst := by
  unfold assign
  rw [List.map_map]
  apply List.map_congr_left
  intro e _
  by_cases h : (e.1 == k) = true <;> simp [h]

/-- Stores `a` at `k`.  A key that is present keeps its position and its spelling. -/
def insert (t : Table κ α) (k : κ) (a : α) : Table κ α :=
  if h : t.contains k = true then
    ⟨assign t.entries k a, by rw [map_fst_assign]; exact t.distinct⟩
  else
    ⟨t.entries ++ [(k, a)], by
      rw [List.map_append]
      refine List.pairwise_append.2 ⟨t.distinct, List.pairwise_singleton _ _, ?_⟩
      intro x hx y hy hxy
      obtain ⟨e, he, rfl⟩ := List.mem_map.1 hx
      simp only [List.map_cons, List.map_nil, List.mem_singleton] at hy
      subst hy
      exact h (List.any_eq_true.2 ⟨e, he, hxy⟩)⟩

/-- Removes the entry of `k`, if there is one. -/
def erase (t : Table κ α) (k : κ) : Table κ α :=
  ⟨t.entries.filter (fun e => !(e.1 == k)),
    t.distinct.sublist (List.Sublist.map _ List.filter_sublist)⟩

/-- Stores a list of entries, first to last. -/
def insertAll (t : Table κ α) (es : List (κ × α)) : Table κ α :=
  es.foldl (fun t e => t.insert e.1 e.2) t

/-- The table of a list of entries: the first spelling of a key and its last value stay. -/
def ofList (es : List (κ × α)) : Table κ α := insertAll empty es

/-- Applies `f` to every value; keys and order stay. -/
def mapValues (f : α → β) (t : Table κ α) : Table κ β :=
  ⟨t.entries.map (fun e => (e.1, f e.2)), by
    have h : (t.entries.map (fun e => (e.1, f e.2))).map Prod.fst = t.entries.map Prod.fst := by
      rw [List.map_map]; rfl
    rw [h]; exact t.distinct⟩

/-! ### Laws

Reading after writing, and what writing does to the list of keys. -/

@[simp] theorem entries_empty : (∅ : Table κ α).entries = [] := rfl

@[simp] theorem get?_empty (k : κ) : (∅ : Table κ α).get? k = none := rfl

@[simp] theorem contains_empty (k : κ) : (∅ : Table κ α).contains k = false := rfl

theorem insert_of_contains {t : Table κ α} {k : κ} (h : t.contains k = true) (a : α) :
    (t.insert k a).entries = assign t.entries k a := by
  simp [insert, h]

theorem insert_of_not_contains {t : Table κ α} {k : κ} (h : t.contains k = false) (a : α) :
    (t.insert k a).entries = t.entries ++ [(k, a)] := by
  simp [insert, h]

theorem find?_isSome (t : Table κ α) (k : κ) : (t.find? k).isSome = t.contains k := by
  unfold find? contains
  rw [Bool.eq_iff_iff, List.find?_isSome, List.any_eq_true]

theorem get?_isSome (t : Table κ α) (k : κ) : (t.get? k).isSome = t.contains k := by
  rw [← find?_isSome]
  simp [get?]

/-- A table contains a key if a value is read there. -/
theorem contains_iff_exists_get? {t : Table κ α} {k : κ} :
    t.contains k = true ↔ ∃ a, t.get? k = some a := by
  rw [← get?_isSome, Option.isSome_iff_exists]

theorem get?_eq_none_iff (t : Table κ α) (k : κ) : t.get? k = none ↔ t.contains k = false := by
  rw [← get?_isSome]
  cases t.get? k <;> simp

/-- Writing at a new key appends it. -/
theorem keys_insert_of_not_contains {t : Table κ α} {k : κ} (h : t.contains k = false) (a : α) :
    (t.insert k a).keys = t.keys ++ [k] := by
  simp [keys, insert_of_not_contains h]

theorem contains_iff_exists_key (t : Table κ α) (k : κ) :
    t.contains k = true ↔ ∃ k' ∈ t.keys, (k' == k) = true := by
  simp [contains, keys, List.any_eq_true]

section Equivalence

variable [PartialEquivBEq κ]

theorem find?_assign (es : List (κ × α)) (k : κ) (a : α) (k' : κ) :
    ((assign es k a).find? (fun e => e.1 == k')).map Prod.snd =
      if (k == k') = true ∧ (es.any (fun e => e.1 == k)) = true then some a
      else (es.find? (fun e => e.1 == k')).map Prod.snd := by
  induction es with
  | nil => simp [assign]
  | cons e es ih =>
    simp only [assign, List.map_cons] at ih ⊢
    by_cases hk : (e.1 == k) = true
    · by_cases hk' : (e.1 == k') = true
      · have hkk' : (k == k') = true := BEq.trans (BEq.symm hk) hk'
        simp [hk, hk', hkk']
      · have hkk' : (k == k') = false := by
          rw [Bool.eq_false_iff]
          exact fun h => hk' (BEq.trans hk h)
        simp only [hkk', Bool.false_eq_true, false_and, if_false] at ih ⊢
        simp [hk, hk', -List.find?_map, ih]
    · by_cases hk' : (e.1 == k') = true
      · have hkk' : (k == k') = false := by
          rw [Bool.eq_false_iff]
          exact fun h => hk (BEq.trans hk' (BEq.symm h))
        simp [hk, hk', hkk']
      · have hk0 : (e.1 == k) = false := by simpa using hk
        rw [List.any_cons, hk0, Bool.false_or]
        simp [hk', -List.find?_map, ih]

/-- A key reads back what was stored at it last. -/
theorem get?_insert (t : Table κ α) (k : κ) (a : α) (k' : κ) :
    (t.insert k a).get? k' = if (k == k') = true then some a else t.get? k' := by
  by_cases h : t.contains k = true
  · have hc : (t.entries.any (fun e => e.1 == k)) = true := h
    have key := find?_assign t.entries k a k'
    simp only [hc, and_true] at key
    simpa [get?, find?, insert_of_contains h] using key
  · have hc : t.contains k = false := by simpa using h
    simp only [get?, find?, insert_of_not_contains hc, List.find?_append]
    by_cases hk : (k == k') = true
    · have hn : t.entries.find? (fun e => e.1 == k') = none := by
        rw [List.find?_eq_none]
        intro e he hek
        have : t.contains k = true := List.any_eq_true.2 ⟨e, he, BEq.trans hek (BEq.symm hk)⟩
        simp [hc] at this
      simp [hk, hn]
    · simp [hk]

theorem get?_insert_self (t : Table κ α) {k : κ} (h : (k == k) = true) (a : α) :
    (t.insert k a).get? k = some a := by
  simp [get?_insert, h]

/-- What holds of all entries holds of them still when a new one is put in, of which it holds
whichever of the agreeing keys reads it. -/
theorem forall_insert_of_agree {Q : κ → α → Prop} {t : Table κ α} {k : κ} {a : α}
    (h : ∀ k' a', t.get? k' = some a' → Q k' a') (new : ∀ k', (k == k') = true → Q k' a) :
    ∀ k' a', (t.insert k a).get? k' = some a' → Q k' a' := by
  intro k' a' read
  rw [get?_insert] at read
  split at read
  · next agrees =>
    cases read
    exact new k' agrees
  · exact h k' a' read

/-- What holds of all values of a table and of a new one holds of all values afterwards. -/
theorem forall_insert {Q : α → Prop} {t : Table κ α} {k : κ} {a : α}
    (h : ∀ k a, t.get? k = some a → Q a) (new : Q a) :
    ∀ k' a', (t.insert k a).get? k' = some a' → Q a' :=
  forall_insert_of_agree h fun _ _ => new

theorem contains_insert (t : Table κ α) (k : κ) (a : α) (k' : κ) :
    (t.insert k a).contains k' = ((k == k') || t.contains k') := by
  rw [← get?_isSome, ← get?_isSome, get?_insert]
  by_cases h : (k == k') = true <;> simp [h]

/-- Agreeing keys read the same value. -/
theorem get?_congr (t : Table κ α) {k k' : κ} (h : (k == k') = true) : t.get? k = t.get? k' := by
  simp only [get?, find?]
  congr 2
  funext e
  exact BEq.congr_right h

theorem contains_congr (t : Table κ α) {k k' : κ} (h : (k == k') = true) :
    t.contains k = t.contains k' := by
  rw [← get?_isSome, ← get?_isSome, get?_congr t h]

/-- After erasing `k`, a key reads nothing if it agrees with `k` and its old value otherwise. -/
theorem get?_erase (t : Table κ α) (k k' : κ) :
    (t.erase k).get? k' = if (k == k') = true then none else t.get? k' := by
  simp only [get?, find?, erase, List.find?_filter]
  by_cases h : (k == k') = true
  · rw [if_pos h, Option.map_eq_none_iff, List.find?_eq_none]
    intro e _ he
    rw [Bool.decide_and, Bool.and_eq_true] at he
    simp only [Bool.decide_eq_true, Bool.not_eq_true'] at he
    have : (e.1 == k) = true := BEq.trans he.2 (BEq.symm h)
    simp [this] at he
  · rw [if_neg h]
    congr 2
    funext e
    by_cases he : (e.1 == k') = true
    · have : (e.1 == k) = false := by
        rw [Bool.eq_false_iff]
        exact fun hk => h (BEq.trans (BEq.symm hk) he)
      simp [he, this]
    · simp [he]

theorem contains_erase (t : Table κ α) (k k' : κ) :
    (t.erase k).contains k' = (!(k == k') && t.contains k') := by
  rw [← get?_isSome, ← get?_isSome, get?_erase]
  by_cases h : (k == k') = true <;> simp [h]

end Equivalence

end Table

/-- A set whose elements are listed in the order of their arrival. -/
abbrev OrderedSet (κ : Type u) [BEq κ] := Table κ Unit

namespace OrderedSet

variable {κ : Type u} [BEq κ]

/-- Puts an element into the set; an agreeing element that is present stays as it is. -/
def add (s : OrderedSet κ) (k : κ) : OrderedSet κ := s.insert k ()

/-- Puts every element of a list into the set, first to last. -/
def addAll (s : OrderedSet κ) (ks : List κ) : OrderedSet κ := ks.foldl add s

/-- The set of the elements of a list. -/
def ofList (ks : List κ) : OrderedSet κ := addAll ∅ ks

/-- The elements of either set, those of the first one before the others. -/
def union (s t : OrderedSet κ) : OrderedSet κ := addAll s t.keys

/-- The elements, oldest first. -/
def toList (s : OrderedSet κ) : List κ := s.keys

@[simp] theorem addAll_nil (s : OrderedSet κ) : s.addAll [] = s := rfl

@[simp] theorem addAll_cons (s : OrderedSet κ) (k : κ) (ks : List κ) :
    s.addAll (k :: ks) = (s.add k).addAll ks := rfl

section Equivalence

variable [PartialEquivBEq κ]

theorem contains_add (s : OrderedSet κ) (k k' : κ) :
    (s.add k).contains k' = ((k == k') || s.contains k') :=
  Table.contains_insert s k () k'

theorem contains_addAll (s : OrderedSet κ) (ks : List κ) (k' : κ) :
    (s.addAll ks).contains k' = (ks.any (· == k') || s.contains k') := by
  induction ks generalizing s with
  | nil => simp
  | cons k ks ih =>
    rw [addAll_cons, ih, contains_add, List.any_cons]
    cases k == k' <;> simp

/-- An element is in the union exactly if it is in one of the two sets. -/
theorem contains_union (s t : OrderedSet κ) (k : κ) :
    (s.union t).contains k = (s.contains k || t.contains k) := by
  have h : t.keys.any (· == k) = t.contains k := by
    simp [Table.keys, Table.contains, List.any_map, Function.comp_def]
  rw [union, contains_addAll, h, Bool.or_comm]

end Equivalence

section Lawful

variable [LawfulBEq κ]

/-- Where elements that agree are equal, the elements are those of the list. -/
theorem mem_toList {s : OrderedSet κ} {k : κ} : k ∈ s.toList ↔ s.contains k = true := by
  rw [Table.contains_iff_exists_key]
  constructor
  · exact fun listed => ⟨k, listed, BEq.rfl⟩
  · rintro ⟨k', listed, same⟩
    exact eq_of_beq same ▸ listed

/-- No element is listed twice. -/
theorem nodup_toList (s : OrderedSet κ) : s.toList.Nodup :=
  s.distinct.imp fun other same => other (beq_iff_eq.2 same)

end Lawful

end OrderedSet

end Heredity
