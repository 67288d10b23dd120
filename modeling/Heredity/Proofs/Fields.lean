import Heredity.Proofs.Lineages

/-!
# Fields along a lineage

An extension puts its fields over those of its base.  One merge after the other is one merge of all
fields that were listed, whatever else the units say.

* `Table.lastValue`, `Table.firstMentions` — what a list of entries says of a key in the end, and
  the entries at which it mentions a key for the first time.
* `Table.entries_insertAll_eq` — what putting a list of entries into a table gives, in order.
* `Value.Lists`, `mergeFields_eq_ok_iff` — the fields that a value lists, of which there is one list
  at most (`Value.Lists.unique`), and merging as putting them into a table.
* `Workspace.OpenedWith` — a command opened a unit with a base and a value for its fields, which can
  only have happened once (`OpenedWith.unique`).
* `Workspace.fields_merge_once` — merging, and the fields of a published unit.

**What a key is compared with.**  Keys are compared by `==`, so `1`, `1.0` and `true` are one key,
and the spelling that came first stays.  A number that is `nan` is found again by what object it is,
so every key agrees with itself, and merging a list again finds each of its keys.
-/

namespace Heredity

/-! ## Putting entries into a table -/

namespace Table

universe u v

variable {κ : Type u} {α : Type v} [BEq κ]

/-- The value that a list of entries gives to a key last, or else the value that is there already.
-/
def lastValue (es : List (κ × α)) (e : κ × α) : α :=
  ((es.filter fun e' => e'.1 == e.1).getLast?.map Prod.snd).getD e.2

/-- An entry with the value that a list of entries gives to its key last. -/
def overwritten (es : List (κ × α)) (e : κ × α) : κ × α := (e.1, lastValue es e)

/-- The entries of a list whose keys have not been mentioned before them. -/
def firstMentions : List (κ × α) → List (κ × α)
  | [] => []
  | e :: es => e :: (firstMentions es).filter fun e' => !(e.1 == e'.1)

theorem firstMentions_subset (es : List (κ × α)) : firstMentions es ⊆ es := by
  induction es with
  | nil => exact List.Subset.refl _
  | cons e es ih =>
    exact List.cons_subset_cons e fun e' member => ih (List.mem_filter.1 member).1

theorem insertAll_append (t : Table κ α) (es fs : List (κ × α)) :
    t.insertAll (es ++ fs) = (t.insertAll es).insertAll fs :=
  List.foldl_append

/-- The last value for the first of several entries: one that a later entry gives, or its own. -/
theorem lastValue_cons (k : κ) (a : α) (es : List (κ × α)) (e : κ × α) :
    lastValue ((k, a) :: es) e = lastValue es (e.1, if k == e.1 then a else e.2) := by
  unfold lastValue
  rw [List.filter_cons]
  split
  · rw [List.getLast?_cons]
    cases (es.filter fun e' => e'.1 == e.1).getLast? <;> rfl
  · rfl

theorem overwritten_overwritten (es : List (κ × α)) (e : κ × α) :
    overwritten es (overwritten es e) = overwritten es e := by
  unfold overwritten lastValue
  cases (es.filter fun e' => e'.1 == e.1).getLast? <;> rfl

section Equivalence

variable [EquivBEq κ]

/-- **Putting entries into a table.**  The keys of the table stay, in order and as they are spelled.
After them come the other keys at their first mention, in order.  Each has the value that it is
given last, if it is given one. -/
theorem entries_insertAll_eq (t : Table κ α) (es : List (κ × α)) :
    (t.insertAll es).entries =
      (t.entries ++ (firstMentions es).filter fun e => !t.contains e.1).map (overwritten es) := by
  induction es generalizing t with
  | nil =>
    have same : (overwritten [] : κ × α → κ × α) = id := funext fun _ => rfl
    simp [insertAll, firstMentions, same]
  | cons e es ih =>
    obtain ⟨k, a⟩ := e
    show ((t.insert k a).insertAll es).entries = _
    rw [ih]
    -- What the list gives to a key other than the first one, the rest of it gives.
    have other : ∀ e : κ × α, (k == e.1) = false →
        overwritten ((k, a) :: es) e = overwritten es e := by
      intro e other
      rw [overwritten, lastValue_cons, other, if_neg Bool.false_ne_true]
      rfl
    have rest : (firstMentions es).filter (fun e => !(t.insert k a).contains e.1) =
        ((firstMentions es).filter fun e => !(k == e.1)).filter fun e => !t.contains e.1 := by
      rw [List.filter_filter]
      refine List.filter_congr fun e _ => ?_
      rw [contains_insert, Bool.not_or, Bool.and_comm]
    have later : (((firstMentions es).filter fun e => !(k == e.1)).filter
          fun e => !t.contains e.1).map (overwritten ((k, a) :: es)) =
        (((firstMentions es).filter fun e => !(k == e.1)).filter
          fun e => !t.contains e.1).map (overwritten es) := by
      refine List.map_congr_left fun e member => other e ?_
      have isOther := (List.mem_filter.1 (List.mem_filter.1 member).1).2
      rwa [Bool.not_eq_true'] at isOther
    rw [rest, List.map_append, ← later]
    cases present : t.contains k with
    | true =>
      have earlier : (t.insert k a).entries.map (overwritten es) =
          t.entries.map (overwritten ((k, a) :: es)) := by
        rw [insert_of_contains present, assign, List.map_map]
        refine List.map_congr_left fun e _ => ?_
        rw [overwritten, lastValue_cons, Function.comp_apply, BEq.comm]
        split <;> rfl
      rw [earlier, firstMentions, List.filter_cons, present, List.map_append]
      rfl
    | false =>
      have earlier : t.entries.map (overwritten es) =
          t.entries.map (overwritten ((k, a) :: es)) := by
        refine List.map_congr_left fun e member => (other e ?_).symm
        rw [Bool.eq_false_iff]
        intro agrees
        rw [contains, Bool.eq_false_iff] at present
        exact present (List.any_eq_true.2 ⟨e, member, BEq.symm agrees⟩)
      have first : overwritten ((k, a) :: es) (k, a) = overwritten es (k, a) := by
        rw [overwritten, lastValue_cons, ite_self]
        rfl
      rw [insert_of_not_contains present, List.map_append, earlier, firstMentions, List.filter_cons,
        present]
      simp [first]

/-- A key that is mentioned and equals itself is found afterwards. -/
theorem contains_insertAll (t : Table κ α) (es : List (κ × α)) (k : κ) :
    (t.insertAll es).contains k = (t.contains k || es.any fun e => e.1 == k) := by
  induction es generalizing t with
  | nil => simp [insertAll]
  | cons e es ih =>
    show ((t.insert e.1 e.2).insertAll es).contains k = _
    rw [ih, contains_insert, List.any_cons]
    cases e.1 == k <;> simp

/-- **Again.**  Putting the same entries into a table again changes nothing. -/
theorem insertAll_insertAll_self (t : Table κ α) (es : List (κ × α)) :
    (t.insertAll es).insertAll es = t.insertAll es := by
  have kept : ∀ e ∈ (t.insertAll es).entries, overwritten es e = e := by
    intro e member
    rw [entries_insertAll_eq] at member
    obtain ⟨e, -, rfl⟩ := List.mem_map.1 member
    exact overwritten_overwritten es e
  have none : (firstMentions es).filter (fun e => !(t.insertAll es).contains e.1) = [] := by
    refine List.filter_eq_nil_iff.2 fun e member => ?_
    have mentioned : (es.any fun e' => e'.1 == e.1) = true :=
      List.any_eq_true.2 ⟨e, firstMentions_subset es member, BEq.rfl⟩
    rw [contains_insertAll, mentioned, Bool.or_true]
    exact Bool.false_ne_true
  refine ext ?_
  rw [entries_insertAll_eq (t.insertAll es), none, List.append_nil]
  exact (List.map_congr_left kept).trans (List.map_id _)

end Equivalence

end Table

/-! ## Merging -/

/-- **Fields that a value lists.**  Going over the value gives these pairs, one after the other, and
the first of each may be a key. -/
def Value.Lists (v : Value) (fields : List (Value × Value)) : Prop :=
  fieldList v = .ok (fields.map .ok) ∧ ∀ field ∈ fields, field.1.isKey = true

/-- The list of pairs that lists fields. -/
def Value.ofFields (fields : List (Value × Value)) : Value :=
  .list (fields.map fun field => .tuple [field.1, field.2])

theorem Value.lists_ofFields {fields : List (Value × Value)}
    (areKeys : ∀ field ∈ fields, field.1.isKey = true) : (Value.ofFields fields).Lists fields := by
  refine ⟨?_, areKeys⟩
  show Except.ok ((fields.map fun field => Value.tuple [field.1, field.2]).map fieldPair) = _
  rw [List.map_map]
  rfl

/-- A value lists one list of fields at most. -/
theorem Value.Lists.unique {v : Value} {fields fields' : List (Value × Value)}
    (h : v.Lists fields) (h' : v.Lists fields') : fields = fields' := by
  have same := h.1.symm.trans h'.1
  have injective : Function.Injective (Except.ok : Value × Value → Except Fault (Value × Value)) :=
    fun _ _ => Except.ok.inj
  exact List.map_injective_iff.2 injective (Except.ok.inj same)

/-- Fields are put into a table if all are pairs whose first part may be a key. -/
theorem putFields_eq_ok_iff {d merged : Table Value Value}
    {fields : List (Except Fault (Value × Value))} :
    putFields d fields = .ok merged ↔ ∃ pairs : List (Value × Value), fields = pairs.map .ok ∧
      (∀ field ∈ pairs, field.1.isKey = true) ∧ merged = d.insertAll pairs := by
  induction fields generalizing d with
  | nil =>
    constructor
    · rintro h
      cases h
      exact ⟨[], rfl, List.forall_mem_nil _, rfl⟩
    · rintro ⟨pairs, isNil, -, rfl⟩
      rw [List.map_eq_nil_iff.1 isNil.symm]
      rfl
  | cons field fields ih =>
    constructor
    · intro h
      cases field with
      | error fault => cases h
      | ok pair =>
        obtain ⟨name, default⟩ := pair
        change (if name.isKey then putFields (d.insert name default) fields
          else throw .unsupported) = _ at h
        split at h
        · next isKey =>
          obtain ⟨pairs, rfl, areKeys, rfl⟩ := ih.1 h
          exact ⟨(name, default) :: pairs, rfl, List.forall_mem_cons.2 ⟨isKey, areKeys⟩, rfl⟩
        · cases h
    · rintro ⟨pairs, isCons, areKeys, rfl⟩
      obtain ⟨⟨name, default⟩, pairs, rfl, rfl, rfl⟩ := List.map_eq_cons_iff.1 isCons.symm
      obtain ⟨isKey, areKeys⟩ := List.forall_mem_cons.1 areKeys
      change (if name.isKey then putFields (d.insert name default) (pairs.map .ok)
        else throw .unsupported) = _
      rw [if_pos isKey]
      exact ih.2 ⟨pairs, rfl, areKeys, rfl⟩

/-- **Merging** puts the fields that a value lists into a table. -/
theorem mergeFields_eq_ok_iff {d merged : Table Value Value} {v : Value} :
    mergeFields d v = .ok merged ↔ ∃ fields, v.Lists fields ∧ merged = d.insertAll fields := by
  unfold mergeFields Value.Lists
  cases fieldList v with
  | error fault =>
    constructor
    · intro h
      cases h
    · rintro ⟨fields, ⟨listed, -⟩, -⟩
      cases listed
  | ok items =>
    refine putFields_eq_ok_iff.trans ⟨?_, ?_⟩
    · rintro ⟨pairs, rfl, areKeys, merges⟩
      exact ⟨pairs, ⟨rfl, areKeys⟩, merges⟩
    · rintro ⟨pairs, ⟨listed, areKeys⟩, merges⟩
      exact ⟨pairs, Except.ok.inj listed, areKeys, merges⟩

theorem Value.Lists.mergeFields_eq {v : Value} {fields : List (Value × Value)} (h : v.Lists fields)
    (d : Table Value Value) : mergeFields d v = .ok (d.insertAll fields) :=
  mergeFields_eq_ok_iff.2 ⟨fields, h, rfl⟩

/-! ## Along a lineage -/

/-- No event changes the fields of a unit, or those that the program holds. -/
theorem Moves.fields_eq {w w' : Writing} {event : Event} (move : Moves w event w') :
    w'.draft.fields = w.draft.fields ∧ w'.image.fields = w.image.fields := by
  cases move <;> exact ⟨rfl, rfl⟩

theorem Trace.fields_eq {w w' : Writing} {events : List Event} (trace : Trace w events w') :
    w'.draft.fields = w.draft.fields ∧ w'.image.fields = w.image.fields :=
  trace.invariant
    (I := fun v => v.draft.fields = w.draft.fields ∧ v.image.fields = w.image.fields)
    (fun _ _ _ _ move same => ⟨move.fields_eq.1.trans same.1, move.fields_eq.2.trans same.2⟩)
    ⟨rfl, rfl⟩

/-- The program holds the fields of a unit. -/
theorem Writing.Attained.fields_eq {w : Writing} (h : w.Attained) :
    w.image.fields = w.draft.fields := by
  induction h with
  | root => rfl
  | extension _ _ _ _ _ trace =>
    obtain ⟨draft, image⟩ := trace.fields_eq
    rw [draft, image]
    rfl
  | move _ _ move ih =>
    obtain ⟨draft, image⟩ := move.fields_eq
    rw [draft, image, ih]

/-- What a command opens, if it opens a unit: the unit, its base and the value for its fields. -/
def Command.opens? : Command → Option (String × Option String × Value)
  | .openRoot _ unit fields => some (unit, none, fields)
  | .openExtension _ unit base fields => some (unit, some base, fields)
  | _ => none

namespace Workspace

variable {w : Workspace} {unit : String} {base : Option String} {fields : Value}
  {commands : List Command}

/-- **Opened with.**  One of the commands opens the unit with a base and a value for its fields: the
unit has no session before it, and has one after it. -/
def OpenedWith (commands : List Command) (unit : String) (base : Option String) (fields : Value) :
    Prop :=
  ∃ before command after, commands = before ++ command :: after ∧
    command.opens? = some (unit, base, fields) ∧
    (afterAll ∅ before).sessions.get? unit = none ∧
    ∃ s, (afterAll ∅ (before ++ [command])).sessions.get? unit = some s

theorem OpenedWith.concat (h : OpenedWith commands unit base fields) (command : Command) :
    OpenedWith (commands ++ [command]) unit base fields := by
  obtain ⟨before, opening, after, rfl, opens, new, opened⟩ := h
  exact ⟨before, opening, after ++ [command], List.append_assoc _ _ _, opens, new, opened⟩

/-- A session stays, with its fields. -/
theorem Coherent.session_afterAll (h : w.Coherent) {s : Session}
    (session : w.sessions.get? unit = some s) (commands : List Command) :
    ∃ s', (w.afterAll commands).sessions.get? unit = some s' ∧
      s'.draft.base = s.draft.base ∧ s'.draft.fields = s.draft.fields := by
  induction commands generalizing w s with
  | nil => exact ⟨s, session, rfl, rfl⟩
  | cons command commands ih =>
    obtain ⟨-, image, held, -⟩ := h.session session
    obtain ⟨s₁, image₁, events, session₁, -, trace, -⟩ := h.session_after session held command
    obtain ⟨s', session', base, fields⟩ := ih (h.after command) session₁
    exact ⟨s', session', base.trans trace.base_eq, fields.trans trace.fields_eq.1⟩

/-- A unit is opened once. -/
theorem OpenedWith.unique {base' : Option String} {fields' : Value}
    (h : OpenedWith commands unit base fields) (h' : OpenedWith commands unit base' fields') :
    base = base' ∧ fields = fields' := by
  -- If the first of the commands comes earlier than the second, there is a session by then.
  have not_earlier : ∀ {before middle : List Command} {command : Command} {s : Session},
      (afterAll ∅ (before ++ [command])).sessions.get? unit = some s →
      (afterAll ∅ (before ++ command :: middle)).sessions.get? unit ≠ none := by
    intro before middle command s opened new
    obtain ⟨s', session, -⟩ :=
      (Reachable.empty.afterAll (before ++ [command])).coherent.session_afterAll opened middle
    rw [← afterAll_append, List.append_assoc, List.singleton_append, new] at session
    cases session
  obtain ⟨before, command, after, rfl, opens, new, s, opened⟩ := h
  obtain ⟨before', command', after', same, opens', new', s', opened'⟩ := h'
  rcases List.append_eq_append_iff.1 same with ⟨middle, rfl, rest⟩ | ⟨middle, rfl, rest⟩
  · cases middle with
    | nil =>
      cases rest
      cases opens.symm.trans opens'
      exact ⟨rfl, rfl⟩
    | cons c middle =>
      cases rest
      exact absurd new' (not_earlier opened)
  · cases middle with
    | nil =>
      cases rest
      cases opens.symm.trans opens'
      exact ⟨rfl, rfl⟩
    | cons c middle =>
      cases rest
      exact absurd new (not_earlier opened')

/-- **One unit.**  Every session was opened with a base and fields.  A root has these fields only;
an extension has them over those that its base has published. -/
theorem exists_openedWith {s : Session}
    (session : (afterAll ∅ commands).sessions.get? unit = some s) :
    ∃ fields own, OpenedWith commands unit s.draft.base fields ∧ fields.Lists own ∧
      (s.draft.base = none → s.draft.fields = (∅ : Table Value Value).insertAll own) ∧
      ∀ base, s.draft.base = some base → ∃ registry,
        (afterAll ∅ commands).store.get? base = some registry ∧
          s.draft.fields = registry.fields.insertAll own := by
  induction commands using List.reverseRecOn generalizing s with
  | nil => cases session
  | append_singleton commands command ih =>
    have coherent := (Reachable.empty.afterAll commands).coherent
    have opened : (afterAll ∅ (commands ++ [command])).sessions.get? unit = some s := session
    rw [afterAll_concat] at session ⊢
    cases before : (afterAll ∅ commands).sessions.get? unit with
    | some s₀ =>
      obtain ⟨-, image, held, -⟩ := coherent.session before
      obtain ⟨s', image', events, session', -, trace, -⟩ :=
        coherent.session_after before held command
      cases session.symm.trans session'
      have sameBase : s.draft.base = s₀.draft.base := trace.base_eq
      have sameFields : s.draft.fields = s₀.draft.fields := trace.fields_eq.1
      obtain ⟨fields, own, opening, lists, root, extension⟩ := ih before
      rw [sameBase, sameFields]
      refine ⟨fields, own, opening.concat command, lists, root, fun base isBase => ?_⟩
      obtain ⟨registry, published, merged⟩ := extension base isBase
      exact ⟨registry, coherent.store_after published, merged⟩
    | none =>
      have openedWith : ∀ {base fields}, command.opens? = some (unit, base, fields) →
          OpenedWith (commands ++ [command]) unit base fields :=
        fun opens => ⟨commands, command, [], rfl, opens, before, s, opened⟩
      rcases opens_of_new session before with ⟨config, fields, rfl⟩ | ⟨config, base, fields, rfl⟩
      · obtain ⟨merged, merging, isDraft⟩ := draft_of_new_root session before
        obtain ⟨own, lists, rfl⟩ := mergeFields_eq_ok_iff.1 merging
        rw [isDraft]
        exact ⟨fields, own, openedWith rfl, lists, fun _ => rfl, nofun⟩
      · obtain ⟨-, image, held, -⟩ := (coherent.after _).session session
        obtain ⟨registry, resolution, pre, post, published, resolved, -, trace⟩ :=
          extension_of_new (P := fun _ event => event.isOwn = true)
            (fun _ hooks _ _ => Session.splice_performs _ hooks) session held before
        obtain ⟨merged, routines, merging, -, isDraft, -⟩ := resolve_eq_ok resolved
        obtain ⟨own, lists, rfl⟩ := mergeFields_eq_ok_iff.1 merging
        have sameBase : s.draft.base = some registry.unit := by
          refine trace.base_eq.trans ?_
          rw [Writing.draft_opened, isDraft]
          rfl
        have sameFields : s.draft.fields = registry.fields.insertAll own := by
          refine trace.fields_eq.1.trans ?_
          rw [Writing.draft_opened, isDraft]
          rfl
        rw [sameBase, coherent.published_unit published]
        refine ⟨fields, own, openedWith rfl, lists, nofun, fun base' isBase => ?_⟩
        cases isBase
        exact ⟨registry, coherent.store_after published, sameFields⟩

/-- **A whole walk.**  The units of a walk from base to base were each opened with fields, and the
unit has all of them, from the root down, in one table. -/
theorem fields_of_climbs {registry : Registry} {rs : List Registry}
    (climbs : (afterAll ∅ commands).store.Climbs unit rs)
    (published : (afterAll ∅ commands).store.get? unit = some registry) :
    ∃ lists : List (List (Value × Value)),
      List.Forall₂ (fun r own => ∃ fields, OpenedWith commands r.unit r.base fields ∧
        fields.Lists own) rs lists ∧
      registry.fields = (∅ : Table Value Value).insertAll lists.reverse.flatten := by
  have coherent := (Reachable.empty.afterAll commands).coherent
  induction climbs generalizing registry with
  | missing unpublished => cases unpublished.symm.trans published
  | root published' isRoot =>
    cases published'.symm.trans published
    have named := coherent.published_unit published
    obtain ⟨s, session, -, rfl⟩ := coherent.published published
    obtain ⟨fields, own, opening, lists, root, -⟩ := exists_openedWith session
    refine ⟨[own], .cons ⟨fields, named ▸ opening, lists⟩ .nil, ?_⟩
    rw [List.reverse_singleton, List.flatten_singleton]
    exact root isRoot
  | up published' isBase rest ih =>
    cases published'.symm.trans published
    have named := coherent.published_unit published
    obtain ⟨s, session, -, rfl⟩ := coherent.published published
    obtain ⟨fields, own, opening, lists, -, extension⟩ := exists_openedWith session
    obtain ⟨base, publishedBase, merged⟩ := extension _ isBase
    obtain ⟨above, opened, all⟩ := ih publishedBase
    refine ⟨own :: above, .cons ⟨fields, named ▸ opening, lists⟩ opened, ?_⟩
    rw [List.reverse_cons, List.flatten_append, List.flatten_singleton, Table.insertAll_append,
      ← all]
    exact merged

/-- **Fields merge once.**  Merging the fields that a value lists into a table keeps the keys of the
table, in order, and appends the other keys in the order in which they are first mentioned; each has
the value that it is given last, or else the one that it had.  Merging another value after that is
merging both lists as one, and merging the first value again changes nothing.

So whatever commands have been executed, each unit on the lineage of a published one was opened with
a list of fields, and one merge of all these lists, from the root down, gives the fields that the
store and the program hold of the unit. -/
theorem fields_merge_once :
    (∀ (d : Table Value Value) (v : Value) (a : List (Value × Value)), v.Lists a →
      ∃ merged, mergeFields d v = .ok merged ∧
        merged.entries = (d.entries ++
          (Table.firstMentions a).filter fun e => !d.contains e.1).map (Table.overwritten a) ∧
        (∀ v' b, v'.Lists b → ∀ v'', v''.Lists (a ++ b) →
          mergeFields merged v' = mergeFields d v'') ∧
        mergeFields merged v = .ok merged) ∧
    ∀ (commands : List Command) (unit : String) (registry : Registry),
      (afterAll ∅ commands).store.get? unit = some registry →
      ∃ lists : List (List (Value × Value)),
        List.Forall₂ (fun r own => ∃ fields, OpenedWith commands r.unit r.base fields ∧
          fields.Lists own) ((afterAll ∅ commands).store.lineage unit) lists ∧
        mergeFields ∅ (.ofFields lists.reverse.flatten) = .ok registry.fields ∧
        ∃ image, (afterAll ∅ commands).program.units.get? unit = some image ∧
          image.fields = registry.fields := by
  constructor
  · intro d v a lists
    refine ⟨_, lists.mergeFields_eq d, Table.entries_insertAll_eq d a,
      fun v' b lists' v'' both => ?_, ?_⟩
    · rw [lists'.mergeFields_eq, both.mergeFields_eq, Table.insertAll_append]
    · rw [lists.mergeFields_eq, Table.insertAll_insertAll_self]
  · intro commands unit registry published
    have coherent := (Reachable.empty.afterAll commands).coherent
    obtain ⟨⟨above, lineage, climbs, -⟩, -⟩ := lineage_of_published published
    obtain ⟨lists, opened, all⟩ := fields_of_climbs climbs published
    have areKeys : ∀ field ∈ lists.reverse.flatten, field.1.isKey = true := by
      intro field member
      obtain ⟨own, isList, inside⟩ := List.mem_flatten.1 member
      obtain ⟨r, -, fields, -, listed⟩ := exists_left_of_forall₂ opened (List.mem_reverse.1 isList)
      exact listed.2 field inside
    obtain ⟨s, session, -, rfl⟩ := coherent.published published
    obtain ⟨-, image, held, attained⟩ := coherent.session session
    refine ⟨lists, lineage ▸ opened, ?_, image, held, attained.fields_eq⟩
    rw [(Value.lists_ofFields areKeys).mergeFields_eq, ← all]

/-- Three units whose fields are listed in different ways, with keys that are equal without being
the same, and a hook that declares something in the extensions. -/
def mixedFieldCommands : List Command :=
  [.openRoot {} "top" (.map [(.int 1, .text "one"), (.text "x", .null)]),
    .setHooks "top" (some [.define ⟨"f", [], .literal (.int 1), [], false, false⟩]) none,
    .finish "top",
    .openExtension {} "middle" "top"
      (.list [.tuple [.bool true, .int 0], .text "ab", .list [.int 1, .text "uno"]]),
    .define "middle" ⟨"g", [], .literal (.int 2), [], true, false⟩,
    .finish "middle",
    .openExtension {} "bottom" "middle" (.tuple []),
    .finish "bottom"]

/-- Merging again changes nothing, also where the keys are two objects that are `nan`.  The last
unit has the fields of all three lists, and the key `1` as the first unit spelled it. -/
theorem fields_merge_once_mixed :
    (∃ merged, mergeFields ∅ (.ofFields [(.float (.nan 1), .int 1), (.float (.nan 2), .int 2),
          (.float (.nan 1), .int 3)]) = .ok merged ∧
        merged.entries = [(.float (.nan 1), .int 3), (.float (.nan 2), .int 2)] ∧
        mergeFields merged (.ofFields [(.float (.nan 1), .int 1), (.float (.nan 2), .int 2),
          (.float (.nan 1), .int 3)]) = .ok merged) ∧
      ∃ (registry : Registry) (lists : List (List (Value × Value))),
        (afterAll ∅ mixedFieldCommands).store.get? "bottom" = some registry ∧ lists.length = 3 ∧
        mergeFields ∅ (.ofFields lists.reverse.flatten) = .ok registry.fields ∧
        registry.fields.entries =
          [(.int 1, .text "uno"), (.text "x", .null), (.text "a", .text "b")] := by
  obtain ⟨merging, along⟩ := fields_merge_once
  obtain ⟨fields, length⟩ :
      ((afterAll ∅ mixedFieldCommands).store.get? "bottom").map (fun r => r.fields.entries) =
          some [(.int 1, .text "uno"), (.text "x", .null), (.text "a", .text "b")] ∧
        ((afterAll ∅ mixedFieldCommands).store.lineage "bottom").length = 3 := by
    cbv
  obtain ⟨registry, published, entries⟩ := Option.map_eq_some_iff.1 fields
  obtain ⟨lists, opened, once, -⟩ := along _ _ registry published
  obtain ⟨merged, merges, isMerged, -, again⟩ := merging ∅
    (.ofFields [(.float (.nan 1), .int 1), (.float (.nan 2), .int 2), (.float (.nan 1), .int 3)]) _
    (Value.lists_ofFields (by decide))
  exact ⟨⟨merged, merges, isMerged.trans (by cbv), again⟩, registry, lists, published,
    opened.length_eq.symm.trans length, once, entries⟩

end Workspace

end Heredity
