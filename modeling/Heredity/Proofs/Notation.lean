import Mathlib.Data.List.Forall2
import Heredity.Proofs.Refusals
import Heredity.Tree.Notation

/-!
# What the notation expresses

Definitions write trees as values.  The notation has a spelling for every tree whose nodes are of
the sorts that their places ask for, whose operations have symbols, and whose bindings and wildcards
can be told apart by their names, and for no other tree.

* `Tree.isSpelled` — whether the notation has a spelling for the node itself.
* `Tree.Expressible` — it has one for every node of the tree, in the place where the node is.
* `read_encode`, `expressible_of_read`, `failsFrom_read` — writing and reading.
* `notation_expresses` — what is seen of these.

**A form is read from the readings of its items,** so what is proved of a form needs to know of its
items only what they give when they are read (`AllGive`).  Most forms are a head with items; these
differ in the node that is built only, and `Uniform` is what the proofs need of it.
-/

namespace Heredity.Tree

/-! ## Expressible trees -/

/-- Whether the notation has a spelling for the node itself: an operation has a symbol, and of the
names that parameters have, those of wildcards start with an underscore, and only those. -/
def isSpelled : Tree → Bool
  | .primitive symbol _ => Operation.isSymbol symbol
  | .binding name => !isUnused name
  | .wildcard name => isUnused name
  | _ => true

/-- The notation has a spelling for every node of a tree, in the place where it is. -/
structure Expressible (t : Tree) : Prop where
  /-- Every node has the sort that its place asks for. -/
  sorted : t.WellSorted
  /-- Every node has a spelling. -/
  spelled : ∀ n ∈ t.walk, n.isSpelled = true

instance (t : Tree) : Decidable t.Expressible :=
  decidable_of_iff (t.WellSorted ∧ ∀ n ∈ t.walk, n.isSpelled = true)
    ⟨fun h => ⟨h.1, h.2⟩, fun h => ⟨h.sorted, h.spelled⟩⟩

/-- A tree is expressible if its node and its parts are. -/
theorem expressible_iff {t : Tree} :
    t.Expressible ↔ (t.children.map isExpression = t.childSorts ∧ t.isSpelled = true) ∧
      ∀ c ∈ t.children, c.Expressible := by
  constructor
  · rintro ⟨sorted, spelled⟩
    refine ⟨⟨sorted t (self_mem_walk t), spelled t (self_mem_walk t)⟩, fun c part => ?_⟩
    have inside := walk_subset_of_mem_children part
    exact ⟨fun n member => sorted n (inside member), fun n member => spelled n (inside member)⟩
  · rintro ⟨⟨sorted, spelled⟩, parts⟩
    have everywhere : ∀ n ∈ t.walk, n = t ∨ ∃ c ∈ t.children, n ∈ c.walk := by
      intro n member
      rw [walk_eq] at member
      exact (List.mem_cons.1 member).imp_right List.mem_flatMap.1
    constructor
    · intro n member
      rcases everywhere n member with rfl | ⟨c, part, inside⟩
      · exact sorted
      · exact (parts c part).sorted n inside
    · intro n member
      rcases everywhere n member with rfl | ⟨c, part, inside⟩
      · exact spelled
      · exact (parts c part).spelled n inside

/-- A node whose parts are all to be of its own sort, and are. -/
theorem expressible_of_parts {t : Tree} {sort : Bool} (isSort : t.isExpression = sort)
    (uniform : t.childSorts = t.children.map fun _ => t.isExpression) (spelled : t.isSpelled = true)
    (parts : ∀ c ∈ t.children, c.isExpression = sort ∧ c.Expressible) :
    t.isExpression = sort ∧ t.Expressible := by
  refine ⟨isSort, expressible_iff.2 ⟨⟨?_, spelled⟩, fun c part => (parts c part).2⟩⟩
  rw [uniform, isSort]
  exact List.map_congr_left fun c part => (parts c part).1

/-! ## Reading -/

theorem readItems_eq_map (vs : List Value) :
    readItems vs = vs.map fun v => (v, ofExpression v) := by
  induction vs with
  | nil => rfl
  | cons v vs ih => rw [readItems, ih, List.map_cons]

theorem readKeys_eq_map (es : List (Value × Value)) :
    readKeys es = es.map fun e => (e.1, ofExpression e.1) := by
  induction es with
  | nil => rfl
  | cons e es ih => rw [readKeys, ih, List.map_cons]

theorem readPatternItems_eq_map (vs : List Value) :
    readPatternItems vs = vs.map fun v => (v, ofPattern v) := by
  induction vs with
  | nil => rfl
  | cons v vs ih => rw [readPatternItems, ih, List.map_cons]

theorem encodeAll_eq_map (ts : List Tree) : encodeAll ts = ts.map encode := by
  induction ts with
  | nil => rfl
  | cons t ts ih => rw [encodeAll, ih, List.map_cons]

/-- Every operation has a form of its own: no symbol is the head of another form. -/
theorem ofForm_symbol (o : Operation) (form : Value) (reading : Except Error Tree)
    (args : List Item) :
    ofForm form ((.text o.symbol, reading) :: args) =
      readings args >>= fun args => .ok (.primitive o.symbol args) := by
  cases o <;> rfl

/-! ## What is written can be read -/

/-- The readings of trees that can be read when they are written. -/
theorem readings_encode {ts : List Tree} {reads : Value → Except Error Tree}
    (each : ∀ t ∈ ts, reads t.encode = .ok t) :
    readings ((ts.map encode).map fun v => (v, reads v)) = .ok ts := by
  induction ts with
  | nil => rfl
  | cons t ts ih =>
    have first := each t List.mem_cons_self
    have rest := ih fun t member => each t (List.mem_cons_of_mem _ member)
    simp only [readings, List.map_cons, List.mapM_cons] at rest ⊢
    rw [first, rest]
    rfl

/-- A node that is built from a list of expressions is read by reading them. -/
theorem readItems_encodeAll {ts : List Tree} (each : ∀ t ∈ ts, ofExpression t.encode = .ok t)
    (build : List Tree → Tree) :
    (readings (readItems (encodeAll ts)) >>= fun ts => .ok (build ts)) = .ok (build ts) := by
  rw [encodeAll_eq_map, readItems_eq_map, readings_encode each]
  rfl

/-- A node that is built from a list of patterns is read by reading them. -/
theorem readPatternItems_encodeAll {ts : List Tree} (each : ∀ t ∈ ts, ofPattern t.encode = .ok t)
    (build : List Tree → Tree) :
    (readings (readPatternItems (encodeAll ts)) >>= fun ts => .ok (build ts)) =
      .ok (build ts) := by
  rw [encodeAll_eq_map, readPatternItems_eq_map, readings_encode each]
  rfl

/-- **Writing, then reading** gives the tree back. -/
theorem read_encode {t : Tree} (h : t.Expressible) : read t.isExpression t.encode = .ok t := by
  induction t using induct with
  | step t ih =>
    obtain ⟨⟨sorted, spelled⟩, parts⟩ := expressible_iff.1 h
    have part : ∀ c ∈ t.children, ∀ sort, c.isExpression = sort → read sort c.encode = .ok c := by
      rintro c member _ rfl
      exact ih c member (parts c member)
    -- The parts of all nodes but optional parameters are of the sort of the node.
    have same : t.childSorts = t.children.map (fun _ => t.isExpression) →
        ∀ c ∈ t.children, read t.isExpression c.encode = .ok c :=
      fun uniform c member => part c member _ (List.map_inj_left.1 (sorted.trans uniform) c member)
    cases t with
    | literal | var | currentUnit | constant => rfl
    | call name args => exact readItems_encodeAll (same rfl) (call name)
    | remoteCall unit name args => exact readItems_encodeAll (same rfl) (remoteCall unit name)
    | superCall args => exact readItems_encodeAll (same rfl) superCall
    | baseCall name args => exact readItems_encodeAll (same rfl) (baseCall name)
    | tuple items => exact readItems_encodeAll (same rfl) tuple
    | list items => exact readItems_encodeAll (same rfl) list
    | tuplePattern items => exact readPatternItems_encodeAll (same rfl) tuplePattern
    | listPattern items => exact readPatternItems_encodeAll (same rfl) listPattern
    | primitive symbol args =>
      obtain ⟨o, rfl⟩ := (Operation.isSymbol_iff symbol).1 spelled
      exact (ofForm_symbol o _ (.ok (.var o.symbol)) _).trans
        (readItems_encodeAll (same rfl) (primitive o.symbol))
    | fieldAccess subject field =>
      have subjectRead : ofExpression subject.encode = _ := same rfl subject List.mem_cons_self
      show (ofExpression subject.encode >>= fun subject => _) = _
      rw [subjectRead]
      rfl
    | cond condition thenBranch elseBranch =>
      obtain ⟨conditionRead, thenRead, elseRead⟩ :
          ofExpression condition.encode = .ok condition ∧
            ofExpression thenBranch.encode = .ok thenBranch ∧
            ofExpression elseBranch.encode = .ok elseBranch :=
        ⟨same rfl _ (by simp [children]), same rfl _ (by simp [children]),
          same rfl _ (by simp [children])⟩
      show (ofExpression condition.encode >>= fun condition =>
        ofExpression thenBranch.encode >>= fun thenBranch =>
          ofExpression elseBranch.encode >>= fun elseBranch => _) = _
      rw [conditionRead, thenRead, elseRead]
      rfl
    | «alias» pattern name =>
      have patternRead : ofPattern pattern.encode = _ := same rfl pattern List.mem_cons_self
      show (ofPattern pattern.encode >>= fun pattern => _) = _
      rw [patternRead]
      rfl
    | optional pattern value =>
      obtain ⟨isPattern, isValue⟩ : pattern.isExpression = false ∧ value.isExpression = true := by
        simpa [children, childSorts] using sorted
      have patternRead : ofPattern pattern.encode = _ :=
        part pattern (by simp [children]) _ isPattern
      have valueRead : ofExpression value.encode = _ :=
        part value (by simp [children]) _ isValue
      show (ofPattern pattern.encode >>= fun pattern =>
        ofExpression value.encode >>= fun value => _) = _
      rw [patternRead, valueRead]
      rfl
    | binding name =>
      have used : isUnused name = false := by simpa [isSpelled] using spelled
      show Except.ok (ofName name) = _
      rw [ofName, used]
      rfl
    | wildcard name =>
      have unused : isUnused name = true := spelled
      show Except.ok (ofName name) = _
      rw [ofName, unused]
      rfl

/-! ## What is read has a spelling -/

/-- The items of a form that can be read give expressible trees of a sort. -/
def AllGive (sort : Bool) (items : List Item) : Prop :=
  ∀ reading ∈ items.map Prod.snd, ∀ t, reading = .ok t → t.isExpression = sort ∧ t.Expressible

theorem AllGive.tail {sort : Bool} {item : Item} {items : List Item}
    (give : AllGive sort (item :: items)) : AllGive sort items :=
  fun reading member => give reading (List.mem_cons_of_mem _ member)

theorem AllGive.readings {sort : Bool} {items : List Item} {ts : List Tree}
    (give : AllGive sort items) (h : readings items = .ok ts) :
    ∀ t ∈ ts, t.isExpression = sort ∧ t.Expressible := by
  intro t member
  obtain ⟨item, listed, isReading⟩ := exists_left_of_forall₂ (forall₂_of_mapM_eq_ok h) member
  exact give item.2 (List.mem_map_of_mem listed) t isReading

/-- A node that is built from a list of parts of its own sort, and has a spelling. -/
structure Uniform (sort : Bool) (build : List Tree → Tree) : Prop where
  /-- The sort of the node. -/
  isSort : ∀ ts, (build ts).isExpression = sort := by exact fun _ => rfl
  /-- Its parts are those of the list. -/
  children : ∀ ts, (build ts).children = ts := by exact fun _ => rfl
  /-- They are to be of its sort. -/
  childSorts : ∀ ts, (build ts).childSorts =
    (build ts).children.map fun _ => (build ts).isExpression := by exact fun _ => rfl
  /-- It has a spelling. -/
  spelled : ∀ ts, (build ts).isSpelled = true := by exact fun _ => rfl

/-- A form that is a head with items is expressible. -/
theorem Uniform.expressible {sort : Bool} {build : List Tree → Tree} (uniform : Uniform sort build)
    {items : List Item} {t : Tree} (give : AllGive sort items)
    (h : (Tree.readings items >>= fun ts => .ok (build ts)) = .ok t) :
    t.isExpression = sort ∧ t.Expressible := by
  obtain ⟨ts, isReading, built⟩ := exists_of_bind_eq_ok h
  cases built
  refine expressible_of_parts (uniform.isSort ts) (uniform.childSorts ts) (uniform.spelled ts) ?_
  rw [uniform.children]
  exact give.readings isReading

/-- **A form of expressions** is an expressible expression. -/
theorem expressible_of_ofForm {form : Value} {items : List Item} {t : Tree}
    (give : AllGive true items) (h : ofForm form items = .ok t) :
    t.isExpression = true ∧ t.Expressible := by
  fun_cases ofForm form items with
  | case1 => cases h
  | case2 | case7 =>
    cases h
    exact expressible_of_parts rfl rfl rfl (List.forall_mem_nil _)
  | case3 _ name _ args =>
    obtain ⟨called, -, h⟩ := exists_of_bind_eq_ok h
    have uniform : Uniform true (call called) := {}
    exact uniform.expressible give.tail.tail h
  | case4 _ unit _ name _ args =>
    obtain ⟨target, -, h⟩ := exists_of_bind_eq_ok h
    obtain ⟨called, -, h⟩ := exists_of_bind_eq_ok h
    have uniform : Uniform true (remoteCall target called) := {}
    exact uniform.expressible give.tail.tail.tail h
  | case5 _ args =>
    have uniform : Uniform true superCall := {}
    exact uniform.expressible give.tail h
  | case6 _ name _ args =>
    obtain ⟨called, -, h⟩ := exists_of_bind_eq_ok h
    have uniform : Uniform true (baseCall called) := {}
    exact uniform.expressible give.tail.tail h
  | case8 _ _ subject field =>
    obtain ⟨inner, isReading, h⟩ := exists_of_bind_eq_ok h
    obtain ⟨field, -, h⟩ := exists_of_bind_eq_ok h
    cases h
    refine expressible_of_parts rfl rfl rfl ?_
    simp only [children, List.forall_mem_singleton]
    exact give _ (by simp) _ isReading
  | case9 _ items =>
    have uniform : Uniform true tuple := {}
    exact uniform.expressible give.tail h
  | case10 _ items =>
    have uniform : Uniform true list := {}
    exact uniform.expressible give.tail h
  | case11 _ _ condition _ thenBranch _ elseBranch =>
    obtain ⟨c₁, isReading₁, h⟩ := exists_of_bind_eq_ok h
    obtain ⟨c₂, isReading₂, h⟩ := exists_of_bind_eq_ok h
    obtain ⟨c₃, isReading₃, h⟩ := exists_of_bind_eq_ok h
    cases h
    refine expressible_of_parts rfl rfl rfl ?_
    simp only [children, List.forall_mem_cons]
    exact ⟨give _ (by simp) _ isReading₁, give _ (by simp) _ isReading₂,
      give _ (by simp) _ isReading₃, List.forall_mem_nil _⟩
  | case12 _ symbol args _ _ _ _ _ _ _ _ _ _ isSymbol =>
    rw [ofForm, if_pos isSymbol] at h
    · have uniform : Uniform true (primitive symbol) :=
        { spelled := fun _ => isSymbol }
      exact uniform.expressible give.tail h
    all_goals assumption
  | case13 _ symbol args _ _ _ _ _ _ _ _ _ _ isNoSymbol =>
    rw [ofForm, if_neg isNoSymbol] at h
    · cases h
    all_goals assumption
  | case14 =>
    rw [ofForm] at h
    · cases h
    all_goals assumption

/-- What an expression is read from gives, whatever it is, an expressible expression. -/
theorem expressible_of_ofExpression {v : Value} {t : Tree} (h : ofExpression v = .ok t) :
    t.isExpression = true ∧ t.Expressible := by
  induction v using Value.induct generalizing t with
  | scalar v noList noTuple noMap noStruct =>
    cases v with
    | null | bool | int | float | text =>
      cases h
      exact expressible_of_parts rfl rfl rfl (List.forall_mem_nil _)
    | moment m => cases h
    | list items => exact absurd rfl (noList items)
    | tuple items => exact absurd rfl (noTuple items)
    | map entries => exact absurd rfl (noMap entries)
    | struct unit fields => exact absurd rfl (noStruct unit fields)
  | map entries =>
    cases h
    exact expressible_of_parts rfl rfl rfl (List.forall_mem_nil _)
  | list items ih | tuple items ih =>
    refine expressible_of_ofForm (fun reading member t isReading => ?_) h
    rw [readItems_eq_map, List.map_map] at member
    obtain ⟨v, listed, rfl⟩ := List.mem_map.1 member
    exact ih v listed isReading
  | struct unit fields ih =>
    refine expressible_of_ofForm (fun reading member t isReading => ?_) h
    rw [readKeys_eq_map, List.map_map] at member
    obtain ⟨entry, listed, rfl⟩ := List.mem_map.1 member
    exact (ih entry listed).1 isReading

/-- **A form of patterns** is an expressible pattern. -/
theorem expressible_of_ofPatternForm {form : Value} {items : List Item} {t : Tree}
    (give : AllGive false items) (h : ofPatternForm form items = .ok t) :
    t.isExpression = false ∧ t.Expressible := by
  fun_cases ofPatternForm form items with
  | case1 => cases h
  | case2 _ items =>
    have uniform : Uniform false tuplePattern := {}
    exact uniform.expressible give.tail h
  | case3 _ items =>
    have uniform : Uniform false listPattern := {}
    exact uniform.expressible give.tail h
  | case4 =>
    cases h
    exact expressible_of_parts rfl rfl rfl (List.forall_mem_nil _)
  | case5 _ _ pattern name =>
    obtain ⟨inner, isReading, h⟩ := exists_of_bind_eq_ok h
    obtain ⟨name, -, h⟩ := exists_of_bind_eq_ok h
    cases h
    refine expressible_of_parts rfl rfl rfl ?_
    simp only [children, List.forall_mem_singleton]
    exact give _ (by simp) _ isReading
  | case6 _ _ pattern value =>
    obtain ⟨inner, isReading, h⟩ := exists_of_bind_eq_ok h
    obtain ⟨fallback, isFallback, h⟩ := exists_of_bind_eq_ok h
    cases h
    obtain ⟨isPattern, inner⟩ := give _ (by simp) _ isReading
    obtain ⟨isExpression, outer⟩ := expressible_of_ofExpression isFallback
    refine ⟨rfl, expressible_iff.2 ⟨⟨?_, rfl⟩, ?_⟩⟩
    · rw [children, List.map_cons, List.map_cons, isPattern, isExpression]
      rfl
    · simp only [children, List.forall_mem_cons]
      exact ⟨inner, outer, List.forall_mem_nil _⟩
  | case7 =>
    rw [ofPatternForm] at h
    · cases h
    all_goals assumption

theorem expressible_ofName (name : String) :
    (ofName name).isExpression = false ∧ (ofName name).Expressible := by
  unfold ofName
  split
  · next unused => exact expressible_of_parts rfl rfl unused (List.forall_mem_nil _)
  · next used =>
    have spelled : (binding name).isSpelled = true := by simpa [isSpelled] using used
    exact expressible_of_parts rfl rfl spelled (List.forall_mem_nil _)

/-- What a pattern is read from gives, whatever it is, an expressible pattern. -/
theorem expressible_of_ofPattern {v : Value} {t : Tree} (h : ofPattern v = .ok t) :
    t.isExpression = false ∧ t.Expressible := by
  induction v using Value.induct generalizing t with
  | scalar v noList noTuple noMap noStruct =>
    cases v with
    | null | bool | int | float =>
      cases h
      exact expressible_of_parts rfl rfl rfl (List.forall_mem_nil _)
    | text name =>
      cases h
      exact expressible_ofName name
    | moment m => cases h
    | list items => exact absurd rfl (noList items)
    | tuple items => exact absurd rfl (noTuple items)
    | map entries => exact absurd rfl (noMap entries)
    | struct unit fields => exact absurd rfl (noStruct unit fields)
  | map | tuple | struct => cases h
  | list items ih =>
    refine expressible_of_ofPatternForm (fun reading member t isReading => ?_) h
    rw [readPatternItems_eq_map, List.map_map] at member
    obtain ⟨v, listed, rfl⟩ := List.mem_map.1 member
    exact ih v listed isReading

/-! ## What cannot be read -/

/-- The items of a form are parts of a value, and reading them fails only for what is wrong with
it. -/
structure PartsOf (whole : Value) (items : List Item) : Prop where
  /-- The items are parts. -/
  values : ∀ v ∈ items.map Prod.fst, v ∈ whole.parts
  /-- Their readings fail for what is wrong. -/
  readings : ∀ reading ∈ items.map Prod.snd, FailsFrom whole reading

theorem PartsOf.tail {whole : Value} {item : Item} {items : List Item}
    (parts : PartsOf whole (item :: items)) : PartsOf whole items :=
  ⟨fun v member => parts.values v (List.mem_cons_of_mem _ member),
    fun reading member => parts.readings reading (List.mem_cons_of_mem _ member)⟩

/-- The items of a value with the readings that a reader gives. -/
theorem PartsOf.of_map {whole : Value} {vs : List Value} {reads : Value → Except Error Tree}
    (parts : ∀ v ∈ vs, v ∈ whole.parts) (each : ∀ v ∈ vs, FailsFrom v (reads v)) :
    PartsOf whole (vs.map fun v => (v, reads v)) := by
  constructor
  · intro v member
    rw [List.map_map] at member
    obtain ⟨v, listed, rfl⟩ := List.mem_map.1 member
    exact parts v listed
  · intro reading member
    rw [List.map_map] at member
    obtain ⟨v, listed, rfl⟩ := List.mem_map.1 member
    exact (each v listed).of_part (parts v listed)

theorem failsFrom_nameOf {whole v : Value} (role : TextRole) (part : v ∈ whole.parts) :
    FailsFrom whole (nameOf role v) := by
  cases v with
  | text s => exact .ok s
  | _ => exact .refuse_one rfl part

/-- A node that is built from the readings of items. -/
theorem PartsOf.build {whole : Value} {items : List Item} (parts : PartsOf whole items)
    (build : List Tree → Tree) :
    FailsFrom whole (Tree.readings items >>= fun ts => .ok (build ts)) :=
  .bind (.mapM fun item member => parts.readings item.2 (List.mem_map_of_mem member)) fun _ _ =>
    .ok _

/-- **A form of expressions** fails for what is wrong with it or with one of its items. -/
theorem failsFrom_ofForm {form : Value} {items : List Item} (parts : PartsOf form items) :
    FailsFrom form (ofForm form items) := by
  fun_cases ofForm form items with
  | case1 => exact .refuse_none rfl
  | case2 | case7 => exact .ok _
  | case3 _ name _ args =>
    exact .bind (failsFrom_nameOf _ (parts.values name (by simp))) fun _ _ =>
      parts.tail.tail.build _
  | case4 _ unit _ name _ args =>
    exact .bind (failsFrom_nameOf _ (parts.values unit (by simp))) fun _ _ =>
      .bind (failsFrom_nameOf _ (parts.values name (by simp))) fun _ _ =>
        parts.tail.tail.tail.build _
  | case5 | case9 | case10 => exact parts.tail.build _
  | case6 _ name _ args =>
    exact .bind (failsFrom_nameOf _ (parts.values name (by simp))) fun _ _ =>
      parts.tail.tail.build _
  | case8 _ _ subject field =>
    exact .bind (parts.readings subject (by simp)) fun _ _ =>
      .bind (failsFrom_nameOf _ (parts.values field (by simp))) fun _ _ => .ok _
  | case11 _ _ condition _ thenBranch _ elseBranch =>
    exact .bind (parts.readings condition (by simp)) fun _ _ =>
      .bind (parts.readings thenBranch (by simp)) fun _ _ =>
        .bind (parts.readings elseBranch (by simp)) fun _ _ => .ok _
  | case12 => exact parts.tail.build _
  | case13 | case14 => exact .refuse_one rfl form.self_mem_parts

/-- **An expression** fails for what is wrong with the value that it is read from. -/
theorem failsFrom_ofExpression (v : Value) : FailsFrom v (ofExpression v) := by
  induction v using Value.induct with
  | scalar v noList noTuple noMap noStruct =>
    cases v with
    | null | bool | int | float | text => exact .ok _
    | moment m =>
      intro e failed
      cases failed
      exact .moment ⟨m, Value.self_mem_parts _⟩
    | list items => exact absurd rfl (noList items)
    | tuple items => exact absurd rfl (noTuple items)
    | map entries => exact absurd rfl (noMap entries)
    | struct unit fields => exact absurd rfl (noStruct unit fields)
  | map entries => exact .ok _
  | list items ih =>
    refine failsFrom_ofForm (readItems_eq_map items ▸ .of_map (fun v listed => ?_) ih)
    exact Value.item_mem_parts listed
  | tuple items ih =>
    refine failsFrom_ofForm (readItems_eq_map items ▸ .of_map (fun v listed => ?_) ih)
    exact List.mem_cons_of_mem _ (Value.mem_itemParts.2 ⟨v, listed, v.self_mem_parts⟩)
  | struct unit fields ih =>
    have keys : readKeys fields = (fields.map Prod.fst).map fun k => (k, ofExpression k) := by
      rw [readKeys_eq_map, List.map_map]
      rfl
    refine failsFrom_ofForm (keys ▸ .of_map (fun k member => ?_) fun k member => ?_)
    · obtain ⟨e, listed, rfl⟩ := List.mem_map.1 member
      exact List.mem_cons_of_mem _ (Value.mem_entryParts.2 ⟨e, listed, .inl e.1.self_mem_parts⟩)
    · obtain ⟨e, listed, rfl⟩ := List.mem_map.1 member
      exact (ih e listed).1

/-- **A form of patterns** fails for what is wrong with it or with one of its items. -/
theorem failsFrom_ofPatternForm {form : Value} {items : List Item} (parts : PartsOf form items) :
    FailsFrom form (ofPatternForm form items) := by
  fun_cases ofPatternForm form items with
  | case1 => exact .refuse_one rfl form.self_mem_parts
  | case2 | case3 => exact parts.tail.build _
  | case4 => exact .ok _
  | case5 _ _ pattern name =>
    exact .bind (parts.readings pattern (by simp)) fun _ _ =>
      .bind (failsFrom_nameOf _ (parts.values name (by simp))) fun _ _ => .ok _
  | case6 _ _ pattern value =>
    have fallback := (failsFrom_ofExpression value).of_part (parts.values value (by simp))
    exact .bind (parts.readings pattern (by simp)) fun _ _ => .bind fallback fun _ _ => .ok _
  | case7 => exact .refuse_one rfl form.self_mem_parts

/-- **A pattern** fails for what is wrong with the value that it is read from. -/
theorem failsFrom_ofPattern (v : Value) : FailsFrom v (ofPattern v) := by
  induction v using Value.induct with
  | scalar v noList noTuple noMap noStruct =>
    cases v with
    | null | bool | int | float | text => exact .ok _
    | moment m => exact .refuse_one rfl (Value.self_mem_parts _)
    | list items => exact absurd rfl (noList items)
    | tuple items => exact absurd rfl (noTuple items)
    | map entries => exact absurd rfl (noMap entries)
    | struct unit fields => exact absurd rfl (noStruct unit fields)
  | map | tuple | struct => exact .refuse_one rfl (Value.self_mem_parts _)
  | list items ih =>
    refine failsFrom_ofPatternForm (readPatternItems_eq_map items ▸ .of_map (fun v listed => ?_) ih)
    exact Value.item_mem_parts listed

/-! ## Both sorts -/

theorem expressible_of_read {sort : Bool} {v : Value} {t : Tree} (h : read sort v = .ok t) :
    t.isExpression = sort ∧ t.Expressible := by
  cases sort with
  | true => exact expressible_of_ofExpression h
  | false => exact expressible_of_ofPattern h

theorem failsFrom_read (sort : Bool) (v : Value) : FailsFrom v (read sort v) := by
  cases sort with
  | true => exact failsFrom_ofExpression v
  | false => exact failsFrom_ofPattern v

/-- **The notation** has a spelling for the expressible trees and for no others.  What is written of
one reads back as the same tree.  What is read of any value is an expressible tree of the sort that
is asked for, so that writing it reads back, too.  A tree, or an error about a definition, is seen
exactly if the first thing that is found to be wrong, if there is one, has a text that can be
written.  The errors that are seen show parts of the value; the only other ones are about a text
that would show an integer with too many digits, and about a date or a time. -/
theorem notation_expresses (t : Tree) (sort : Bool) (v : Value) :
    (t.Expressible → parse t.isExpression t.encode = .ok t) ∧
    (∀ u, parse sort v = .ok u →
      u.isExpression = sort ∧ u.Expressible ∧ parse sort u.encode = .ok u) ∧
    (((∃ u, parse sort v = .ok u) ∨ ∃ cause, parse sort v = .error (.definition cause)) ↔
      ∀ e, read sort v = .error e → ∃ cause, e = .definition cause ∧ cause.IsShort) ∧
    (∀ e, parse sort v = .error e → (∃ cause, e = .definition cause ∧ cause.About v) ∨
      e = .unshown ∧ v.HoldsLong ∨ e = .fault .unsupported ∧ v.HoldsMoment) := by
  have back : ∀ u : Tree, u.Expressible → parse u.isExpression u.encode = .ok u :=
    fun u expressible => seen_eq_ok_iff.2 (read_encode expressible)
  refine ⟨back t, fun u done => ?_, seen_documented_iff,
    fun e => (failsFrom_read sort v).seen_cases⟩
  obtain ⟨rfl, expressible⟩ := expressible_of_read (seen_eq_ok_iff.1 done)
  exact ⟨rfl, expressible, back u expressible⟩

/-- A parameter with forms of both sorts, whose heads are also values, names and symbols. -/
def nestedParameter : Tree :=
  .optional
    (.alias (.tuplePattern [.binding "lit", .wildcard "_x", .constant (.list [.text "call"]),
      .listPattern []]) "as")
    (.cond (.primitive "<" [.var "tuple", .literal (.text "+")])
      (.call "if" [.remoteCall "list" "unit" [.currentUnit], .superCall []])
      (.fieldAccess (.tuple [.list [], .baseCall "super" [.literal .null]]) "field"))

theorem notation_expresses_nested :
    nestedParameter.Expressible ∧ nestedParameter.isExpression = false ∧
      parse false nestedParameter.encode = .ok nestedParameter := by
  have expressible : nestedParameter.Expressible := by decide
  obtain ⟨written, -⟩ := notation_expresses nestedParameter false nestedParameter.encode
  exact ⟨expressible, rfl, written expressible⟩

/-- A list whose only item has one digit more than are written. -/
def longForm : Value := .list [.int (Int.ofNat (Nat.pow 10 Numeral.digitLimit))]

/-- **A form that is not reported.**  Its head is no text, but the error that is seen is about the
text in which the form would be shown. -/
theorem longForm_not_reported :
    parse true longForm = .error .unshown ∧
      ¬((∃ t, parse true longForm = .ok t) ∨
        ∃ cause, parse true longForm = .error (.definition cause)) := by
  have long : longForm.HoldsLong :=
    ⟨_, Value.item_mem_parts (List.mem_singleton_self _), by decide +kernel⟩
  have found : read true longForm = .error (.definition (.unknownForm longForm)) := rfl
  have failed : parse true longForm = .error .unshown :=
    seen_eq_error_iff.2 ⟨_, found, Error.raised_of_long fun short =>
      short longForm (List.mem_singleton_self _) long⟩
  refine ⟨failed, ?_⟩
  rw [failed]
  rintro (⟨t, done⟩ | ⟨cause, same⟩)
  · cases done
  · cases same

end Heredity.Tree
