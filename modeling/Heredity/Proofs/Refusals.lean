import Heredity.Error
import Heredity.Proofs.Inheritance

/-!
# What is refused, and whether it can be shown

The text of an error shows data, and an integer with too many digits is not written.  Then the error
that is seen is about the text, and not about a definition.

* `Value.item_mem_parts`, `Value.mem_parts_trans` — the parts of a value, at every depth.
* `Value.HoldsLong` — a value holds an integer with too many digits; `render_written` says that
  every other value can be shown.
* `DefinitionError.IsShort` — the data that the text of an error shows can be written, so that it is
  seen (`Error.raised_eq_definition_iff`, `seen_documented_iff`).
* `Error.ArisesFrom` — what can be wrong when a value is read, and `FailsFrom` what is proved of
  each reader: it fails in no other way; `FailsFrom.seen_cases` says what is seen of that.
-/

namespace Heredity

variable {α β : Type}

/-! ## Parts -/

namespace Value

theorem itemParts_eq (vs : List Value) : itemParts vs = vs.flatMap parts := by
  induction vs with
  | nil => rfl
  | cons v vs ih => rw [itemParts, ih, List.flatMap_cons]

theorem entryParts_eq (es : List (Value × Value)) :
    entryParts es = es.flatMap fun e => parts e.1 ++ parts e.2 := by
  induction es with
  | nil => rfl
  | cons e es ih => rw [entryParts, ih, List.flatMap_cons]

theorem mem_itemParts {w : Value} {vs : List Value} :
    w ∈ itemParts vs ↔ ∃ v ∈ vs, w ∈ v.parts := by
  rw [itemParts_eq, List.mem_flatMap]

theorem mem_entryParts {w : Value} {es : List (Value × Value)} :
    w ∈ entryParts es ↔ ∃ e ∈ es, w ∈ e.1.parts ∨ w ∈ e.2.parts := by
  simp only [entryParts_eq, List.mem_flatMap, List.mem_append]

@[simp] theorem self_mem_parts (v : Value) : v ∈ v.parts := by
  cases v <;> exact List.mem_cons_self

theorem item_mem_parts {v : Value} {items : List Value} (h : v ∈ items) :
    v ∈ (Value.list items).parts :=
  List.mem_cons_of_mem _ (mem_itemParts.2 ⟨v, h, self_mem_parts v⟩)

/-- What a part holds is a part. -/
theorem mem_parts_trans {v w u : Value} (inner : u ∈ w.parts) (outer : w ∈ v.parts) :
    u ∈ v.parts := by
  have items : ∀ {vs}, (∀ v ∈ vs, w ∈ v.parts → u ∈ v.parts) → w ∈ itemParts vs →
      u ∈ itemParts vs := by
    intro vs ih member
    obtain ⟨v, listed, inside⟩ := mem_itemParts.1 member
    exact mem_itemParts.2 ⟨v, listed, ih v listed inside⟩
  have entries : ∀ {es : List (Value × Value)}, (∀ e ∈ es, (w ∈ e.1.parts → u ∈ e.1.parts) ∧
      (w ∈ e.2.parts → u ∈ e.2.parts)) → w ∈ entryParts es → u ∈ entryParts es := by
    intro es ih member
    obtain ⟨e, listed, inside⟩ := mem_entryParts.1 member
    exact mem_entryParts.2 ⟨e, listed, inside.imp (ih e listed).1 (ih e listed).2⟩
  induction v using induct with
  | scalar v noList noTuple noMap noStruct =>
    cases v with
    | null | bool | int | float | text | moment =>
      cases List.mem_singleton.1 outer
      exact inner
    | list items => exact absurd rfl (noList items)
    | tuple items => exact absurd rfl (noTuple items)
    | map entries => exact absurd rfl (noMap entries)
    | struct unit fields => exact absurd rfl (noStruct unit fields)
  | list vs ih | tuple vs ih =>
    rcases List.mem_cons.1 outer with rfl | outer
    · exact inner
    · exact List.mem_cons_of_mem _ (items ih outer)
  | map es ih | struct unit es ih =>
    rcases List.mem_cons.1 outer with rfl | outer
    · exact inner
    · exact List.mem_cons_of_mem _ (entries ih outer)

/-- A value holds an integer with more digits than are written. -/
def HoldsLong (v : Value) : Prop := ∃ n, .int n ∈ v.parts ∧ Numeral.isWritable n = false

/-- A value holds a date or a time. -/
def HoldsMoment (v : Value) : Prop := ∃ m, .moment m ∈ v.parts

theorem HoldsLong.of_part {v w : Value} (h : w.HoldsLong) (part : w ∈ v.parts) : v.HoldsLong :=
  let ⟨n, member, long⟩ := h
  ⟨n, mem_parts_trans member part, long⟩

theorem HoldsMoment.of_part {v w : Value} (h : w.HoldsMoment) (part : w ∈ v.parts) :
    v.HoldsMoment :=
  let ⟨m, member⟩ := h
  ⟨m, mem_parts_trans member part⟩

theorem not_holdsLong_null : ¬Value.null.HoldsLong := by
  rintro ⟨n, member, -⟩
  cases List.mem_singleton.1 member

theorem holdsLong_int {n : Int} : (Value.int n).HoldsLong ↔ Numeral.isWritable n = false := by
  constructor
  · rintro ⟨m, member, long⟩
    cases List.mem_singleton.1 member
    exact long
  · exact fun long => ⟨n, List.mem_singleton_self _, long⟩

end Value

/-! ## Texts -/

/-- A text is written, unless there is a reason not to. -/
def WrittenUnless (reason : Prop) (r : Except Fault α) : Prop :=
  (¬reason ∧ ∃ a, r = .ok a) ∨ (reason ∧ r = .error .tooManyDigits)

namespace WrittenUnless

variable {p q : Prop}

theorem ok (a : α) (h : ¬p) : WrittenUnless p (.ok a) := .inl ⟨h, a, rfl⟩

theorem congr {r : Except Fault α} (h : WrittenUnless p r) (iff : p ↔ q) : WrittenUnless q r := by
  rwa [← propext iff]

/-- A text that is made of another one. -/
theorem map {r : Except Fault α} (h : WrittenUnless p r) (f : α → β) :
    WrittenUnless p (r >>= fun a => .ok (f a)) := by
  rcases h with ⟨written, a, rfl⟩ | ⟨long, rfl⟩
  · exact .inl ⟨written, f a, rfl⟩
  · exact .inr ⟨long, rfl⟩

/-- A text that is made of two others. -/
theorem map₂ {γ : Type} {r : Except Fault α} {s : Except Fault β} (h : WrittenUnless p r)
    (h' : WrittenUnless q s) (f : α → β → γ) :
    WrittenUnless (p ∨ q) (r >>= fun a => s >>= fun b => .ok (f a b)) := by
  rcases h with ⟨written, a, rfl⟩ | ⟨long, rfl⟩
  · rcases h' with ⟨written', b, rfl⟩ | ⟨long', rfl⟩
    · exact .inl ⟨not_or.2 ⟨written, written'⟩, f a b, rfl⟩
    · exact .inr ⟨.inr long', rfl⟩
  · exact .inr ⟨.inl long, rfl⟩

end WrittenUnless

namespace Value

theorem renderItems_written {vs : List Value}
    (each : ∀ v ∈ vs, WrittenUnless v.HoldsLong v.render) :
    WrittenUnless (∃ v ∈ vs, v.HoldsLong) (renderItems vs) := by
  induction vs with
  | nil => exact .ok [] (by simp)
  | cons v vs ih =>
    have rest := ih fun w member => each w (List.mem_cons_of_mem v member)
    exact ((each v List.mem_cons_self).map₂ rest List.cons).congr (by simp)

theorem renderEntries_written {es : List (Value × Value)}
    (each : ∀ e ∈ es, WrittenUnless e.1.HoldsLong e.1.render ∧
      WrittenUnless e.2.HoldsLong e.2.render) :
    WrittenUnless (∃ e ∈ es, e.1.HoldsLong ∨ e.2.HoldsLong) (renderEntries es) := by
  induction es with
  | nil => exact .ok [] (by simp)
  | cons e es ih =>
    have rest := ih fun f member => each f (List.mem_cons_of_mem e member)
    obtain ⟨key, value⟩ := each e List.mem_cons_self
    have entry := key.map₂ (value.map₂ rest fun v rest => (v, rest)) fun k parts =>
      (k ++ ": " ++ parts.1) :: parts.2
    have same : renderEntries (e :: es) = (e.1.render >>= fun k =>
        (e.2.render >>= fun v => renderEntries es >>= fun rest => .ok (v, rest)) >>= fun parts =>
          .ok ((k ++ ": " ++ parts.1) :: parts.2)) := by
      show (e.1.render >>= fun k => e.2.render >>= fun v => renderEntries es >>= fun rest =>
        .ok ((k ++ ": " ++ v) :: rest)) = _
      cases e.1.render with
      | error => rfl
      | ok k =>
        cases e.2.render with
        | error => rfl
        | ok v => cases renderEntries es <;> rfl
    rw [same]
    exact entry.congr (by simp [or_assoc])

/-- **Showing a value.**  It is written unless it holds an integer with too many digits. -/
theorem render_written (v : Value) : WrittenUnless v.HoldsLong v.render := by
  have ofItems : ∀ items : List Value, (∃ w ∈ items, w.HoldsLong) ↔
      ∃ n, .int n ∈ itemParts items ∧ Numeral.isWritable n = false := by
    intro items
    simp only [HoldsLong, mem_itemParts]
    constructor
    · exact fun ⟨w, listed, n, member, long⟩ => ⟨n, ⟨w, listed, member⟩, long⟩
    · exact fun ⟨n, ⟨w, listed, member⟩, long⟩ => ⟨w, listed, n, member, long⟩
  have ofEntries : ∀ entries : List (Value × Value),
      (∃ e ∈ entries, e.1.HoldsLong ∨ e.2.HoldsLong) ↔
      ∃ n, .int n ∈ entryParts entries ∧ Numeral.isWritable n = false := by
    intro entries
    simp only [HoldsLong, mem_entryParts]
    constructor
    · rintro ⟨e, listed, ⟨n, member, long⟩ | ⟨n, member, long⟩⟩
      · exact ⟨n, ⟨e, listed, .inl member⟩, long⟩
      · exact ⟨n, ⟨e, listed, .inr member⟩, long⟩
    · rintro ⟨n, ⟨e, listed, member | member⟩, long⟩
      · exact ⟨e, listed, .inl ⟨n, member, long⟩⟩
      · exact ⟨e, listed, .inr ⟨n, member, long⟩⟩
  induction v using induct with
  | scalar v noList noTuple noMap noStruct =>
    cases v with
    | null | bool | float | text | moment =>
      refine .ok _ ?_
      rintro ⟨n, member, -⟩
      cases List.mem_singleton.1 member
    | int n =>
      refine WrittenUnless.congr ?_ holdsLong_int.symm
      cases long : Numeral.isWritable n with
      | true => exact .inl ⟨nofun, _, Numeral.ofInt_of_isWritable long⟩
      | false => exact .inr ⟨rfl, Numeral.ofInt_of_not_isWritable long⟩
    | list items => exact absurd rfl (noList items)
    | tuple items => exact absurd rfl (noTuple items)
    | map entries => exact absurd rfl (noMap entries)
    | struct unit fields => exact absurd rfl (noStruct unit fields)
  | list items ih | tuple items ih =>
    refine ((renderItems_written ih).map _).congr ((ofItems items).trans ?_)
    simp [HoldsLong, parts]
  | map entries ih | struct unit entries ih =>
    refine ((renderEntries_written ih).map _).congr ((ofEntries entries).trans ?_)
    simp [HoldsLong, parts]

end Value

/-! ## Errors about definitions -/

namespace DefinitionError

/-- The data that the text of an error shows. -/
def shown : DefinitionError → List Value
  | .notText _ got => [got]
  | .unknownForm form => [form]
  | .unknownPattern pattern => [pattern]
  | .unknownPatternForm form => [form]
  | .notAKey got => [got]
  | .noBody declaration => [declaration]
  | .partsNotLists declaration => [declaration]
  | .hookNotAList got => [got]
  | .importedKeysNotAList source => [source]
  | .inUnit _ _ cause => cause.shown
  | _ => []

/-- None of the data that the text of an error shows holds an integer with too many digits. -/
def IsShort (cause : DefinitionError) : Prop := ∀ v ∈ cause.shown, ¬v.HoldsLong

/-- The text of an error is written unless the data that it shows hold an integer with too many
digits. -/
theorem message_written (cause : DefinitionError) :
    WrittenUnless (∃ v ∈ cause.shown, v.HoldsLong) cause.message := by
  have one : ∀ v : Value, ∀ f : String → String,
      WrittenUnless (∃ w ∈ [v], w.HoldsLong) (v.render >>= fun s => .ok (f s)) := fun v f =>
    (v.render_written.map f).congr (by simp)
  induction cause with
  | notText | unknownForm | unknownPattern | unknownPatternForm | notAKey | noBody | partsNotLists
  | hookNotAList | importedKeysNotAList => exact one _ _
  | inUnit file unit cause ih => exact ih.map _
  | _ => exact .ok _ (by simp [shown])

/-- The errors whose text can be written. -/
theorem message_eq_ok_iff (cause : DefinitionError) :
    (∃ text, cause.message = .ok text) ↔ cause.IsShort := by
  rcases cause.message_written with ⟨short, text, written⟩ | ⟨⟨v, member, long⟩, unwritten⟩
  · exact ⟨fun _ v member long => short ⟨v, member, long⟩, fun _ => ⟨text, written⟩⟩
  · refine ⟨?_, fun short => (short v member long).elim⟩
    rintro ⟨text, written⟩
    cases unwritten.symm.trans written

end DefinitionError

namespace Error

/-- The error that is raised is another one if the text of the error cannot be written. -/
theorem raised_cases (e : Error) :
    (∃ message, e.message? = .ok message) ∧ e.raised = e ∨
      (∃ fault, e.message? = .error fault) ∧ e.raised = .unshown := by
  cases outcome : e.message? with
  | ok message => exact .inl ⟨⟨message, rfl⟩, raised_of_ok outcome⟩
  | error fault => exact .inr ⟨⟨fault, rfl⟩, raised_of_error outcome⟩

/-- The errors about definitions that are raised. -/
theorem raised_eq_definition_iff {e : Error} {cause : DefinitionError} :
    e.raised = .definition cause ↔ e = .definition cause ∧ cause.IsShort := by
  have message?_eq : (Error.definition cause).message? = cause.message >>= fun s => .ok (some s) :=
    rfl
  constructor
  · intro h
    rcases e.raised_cases with ⟨⟨message, written⟩, same⟩ | ⟨-, unshown⟩
    · obtain rfl := same.symm.trans h
      rw [message?_eq] at written
      obtain ⟨text, written, -⟩ := exists_of_bind_eq_ok written
      exact ⟨rfl, cause.message_eq_ok_iff.1 ⟨text, written⟩⟩
    · cases unshown.symm.trans h
  · rintro ⟨rfl, short⟩
    obtain ⟨text, written⟩ := cause.message_eq_ok_iff.2 short
    have shown : (Error.definition cause).message? = .ok (some text) := by
      rw [message?_eq, written]
      rfl
    exact raised_of_ok shown

theorem raised_of_long {cause : DefinitionError} (long : ¬cause.IsShort) :
    (Error.definition cause).raised = .unshown := by
  rcases (Error.definition cause).raised_cases with ⟨-, same⟩ | ⟨-, unshown⟩
  · exact (long (raised_eq_definition_iff.1 same).2).elim
  · exact unshown

end Error

/-! ## What is seen of a result -/

theorem seen_eq_ok_iff {r : Except Error α} {a : α} : seen r = .ok a ↔ r = .ok a := by
  cases r with
  | ok b => exact Iff.rfl
  | error e => exact ⟨nofun, nofun⟩

theorem seen_eq_error_iff {r : Except Error α} {e : Error} :
    seen r = .error e ↔ ∃ found, r = .error found ∧ found.raised = e := by
  cases r with
  | ok b => exact ⟨nofun, nofun⟩
  | error found =>
    constructor
    · intro h
      cases h
      exact ⟨found, rfl, rfl⟩
    · rintro ⟨found, isFound, rfl⟩
      cases isFound
      rfl

/-- **When what is seen is as documented.**  A reader gives something, or an error about a
definition, exactly if all that it can find to be wrong is an error about a definition whose text
can be written. -/
theorem seen_documented_iff {r : Except Error α} :
    ((∃ a, seen r = .ok a) ∨ ∃ cause, seen r = .error (.definition cause)) ↔
      ∀ e, r = .error e → ∃ cause, e = .definition cause ∧ cause.IsShort := by
  constructor
  · rintro (⟨a, done⟩ | ⟨cause, failed⟩) e isError
    · cases (seen_eq_ok_iff.1 done).symm.trans isError
    · obtain ⟨found, isFound, raised⟩ := seen_eq_error_iff.1 failed
      cases isFound.symm.trans isError
      exact ⟨cause, Error.raised_eq_definition_iff.1 raised⟩
  · intro h
    cases r with
    | ok a => exact .inl ⟨a, rfl⟩
    | error e =>
      obtain ⟨cause, raised⟩ := h e rfl
      exact .inr ⟨cause, seen_eq_error_iff.2 ⟨e, rfl, Error.raised_eq_definition_iff.2 raised⟩⟩

/-! ## Failing readers -/

/-- An error is about a value: it shows parts of it, and nothing in the place of what is missing. -/
def DefinitionError.About (cause : DefinitionError) (v : Value) : Prop :=
  ∀ w ∈ cause.shown, w = .null ∨ w ∈ v.parts

/-- **What can be wrong when a value is read.** -/
inductive Error.ArisesFrom (v : Value) : Error → Prop where
  /-- It is not of the documented form. -/
  | form (cause : DefinitionError) (about : cause.About v) : ArisesFrom v (.definition cause)
  /-- It holds a date or a time, which is taken apart like a form. -/
  | moment (holds : v.HoldsMoment) : ArisesFrom v (.fault .unsupported)

theorem DefinitionError.About.of_part {cause : DefinitionError} {v w : Value} (h : cause.About w)
    (part : w ∈ v.parts) : cause.About v :=
  fun u member => (h u member).imp_right fun inside => Value.mem_parts_trans inside part

/-- A value holds an integer with too many digits if what an error shows of it does. -/
theorem DefinitionError.About.holdsLong {cause : DefinitionError} {v : Value} (h : cause.About v)
    (long : ¬cause.IsShort) : v.HoldsLong := by
  by_contra short
  refine long fun w member holds => ?_
  rcases h w member with rfl | part
  · exact Value.not_holdsLong_null holds
  · exact short (holds.of_part part)

namespace Error.ArisesFrom

variable {v w : Value} {e : Error}

/-- What is wrong with a part is wrong with the whole. -/
theorem of_part (h : e.ArisesFrom w) (part : w ∈ v.parts) : e.ArisesFrom v := by
  cases h with
  | form cause about => exact .form cause (about.of_part part)
  | moment holds => exact .moment (holds.of_part part)

/-- What is wrong with nothing, in the place of what is missing. -/
theorem of_null (h : e.ArisesFrom .null) : e.ArisesFrom v := by
  cases h with
  | form cause about =>
    exact .form cause fun w member => .inl ((about w member).elim id List.mem_singleton.1)
  | moment holds =>
    obtain ⟨m, member⟩ := holds
    cases List.mem_singleton.1 member

end Error.ArisesFrom

/-- A reader fails only for what is wrong with a value. -/
def FailsFrom (v : Value) (r : Except Error α) : Prop := ∀ e, r = .error e → e.ArisesFrom v

namespace FailsFrom

variable {v w : Value}

theorem ok (a : α) : FailsFrom v (.ok a) := nofun

theorem refuse {cause : DefinitionError} (about : cause.About v) :
    FailsFrom v (Heredity.refuse cause : Except Error α) := by
  intro e failed
  cases failed
  exact .form cause about

/-- An error that shows one part of the value. -/
theorem refuse_one {cause : DefinitionError} (isShown : cause.shown = [w]) (part : w ∈ v.parts) :
    FailsFrom v (Heredity.refuse cause : Except Error α) := by
  refine refuse fun u member => .inr ?_
  rw [isShown] at member
  cases List.mem_singleton.1 member
  exact part

/-- An error that shows no data. -/
theorem refuse_none {cause : DefinitionError} (isShown : cause.shown = []) :
    FailsFrom v (Heredity.refuse cause : Except Error α) :=
  refuse fun _ member => (List.not_mem_nil (isShown ▸ member)).elim

theorem bind {r : Except Error α} {f : α → Except Error β} (first : FailsFrom v r)
    (next : ∀ a, r = .ok a → FailsFrom v (f a)) : FailsFrom v (r >>= f) := by
  intro e failed
  cases r with
  | error e' =>
    cases failed
    exact first e rfl
  | ok a => exact next a rfl e failed

theorem mapM {f : α → Except Error β} {xs : List α} (each : ∀ x ∈ xs, FailsFrom v (f x)) :
    FailsFrom v (xs.mapM f) := by
  induction xs with
  | nil => exact ok []
  | cons x xs ih =>
    rw [List.mapM_cons]
    exact bind (each x List.mem_cons_self) fun _ _ =>
      bind (ih fun y member => each y (List.mem_cons_of_mem x member)) fun _ _ => ok _

theorem of_part {r : Except Error α} (h : FailsFrom w r) (part : w ∈ v.parts) : FailsFrom v r :=
  fun e failed => (h e failed).of_part part

theorem of_null {r : Except Error α} (h : FailsFrom .null r) : FailsFrom v r :=
  fun e failed => (h e failed).of_null

/-- **What is seen of a failing reader** is an error about a definition, which shows parts of the
value; or an integer with too many digits, or a date or a time, has kept it from being one. -/
theorem seen_cases {r : Except Error α} (h : FailsFrom v r) {e : Error}
    (failed : seen r = .error e) :
    (∃ cause, e = .definition cause ∧ cause.About v) ∨
      e = .unshown ∧ v.HoldsLong ∨ e = .fault .unsupported ∧ v.HoldsMoment := by
  obtain ⟨found, isFound, rfl⟩ := seen_eq_error_iff.1 failed
  cases h found isFound with
  | form cause about =>
    by_cases short : cause.IsShort
    · exact .inl ⟨cause, Error.raised_eq_definition_iff.2 ⟨rfl, short⟩, about⟩
    · exact .inr (.inl ⟨Error.raised_of_long short, about.holdsLong short⟩)
  | moment holds => exact .inr (.inr ⟨rfl, holds⟩)

end FailsFrom

end Heredity
