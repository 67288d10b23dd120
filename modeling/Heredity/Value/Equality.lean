import Heredity.Value.Basic

/-!
# Equality of values

Values are compared by their contents, in two ways.

* `alike`, which is written `==` here, decides whether a value is found at the place of another, as
  a key of a map or as a part of two values that are compared.  It is an equivalence.
* `same` decides whether two values are equal.  That is the same thing, but for `nan`, which equals
  nothing, not even itself.

Under both,

* truth values, integers and floating-point numbers agree if they are numerically equal;
* dates and times agree if they are the same moment;
* lists agree with lists and tuples with tuples, item by item;
* maps agree if they have the same entries in whatever order, and records if their units and their
  fields do.

What a value holds is compared by `alike`, so a list with a `nan` equals itself.  Both are coarser
than equality of terms: `1 == true`.

`Value.ofEntries` builds a map from entries in which keys may repeat.

For maps, "the same entries" is said in both directions, every entry of either side having one like
it on the other; between lists without repeated keys that is the same as looking every key up.
-/

namespace Heredity

namespace Value

/-- Whether a value is a number that is found at the place of the given one. -/
def alikeNumber (a : Number) (v : Value) : Bool :=
  match v.number? with
  | some b => a.alike b
  | none => false

mutual

/-- Whether two values are found at the same place. -/
def alike : Value → Value → Bool
  | .null, .null => true
  | .bool a, v => alikeNumber (.int (if a then 1 else 0)) v
  | .int a, v => alikeNumber (.int a) v
  | .float a, v => alikeNumber (.float a) v
  | .text a, .text b => a == b
  | .moment a, .moment b => a.same b
  | .list as, .list bs => alikeItems as bs
  | .tuple as, .tuple bs => alikeItems as bs
  | .map es, .map fs => covered es fs && fs.all (fun f => covers es f)
  | .struct u es, .struct w fs => u == w && (covered es fs && fs.all (fun f => covers es f))
  | _, _ => false
termination_by structural v => v

/-- Whether two lists have items that are alike. -/
def alikeItems : List Value → List Value → Bool
  | [], [] => true
  | a :: as, b :: bs => alike a b && alikeItems as bs
  | _, _ => false
termination_by structural vs => vs

/-- Whether every entry of the first list is like one of the second. -/
def covered : List (Value × Value) → List (Value × Value) → Bool
  | [], _ => true
  | (k, v) :: es, fs => fs.any (fun f => alike k f.1 && alike v f.2) && covered es fs
termination_by structural es => es

/-- Whether an entry is like one of the list. -/
def covers : List (Value × Value) → Value × Value → Bool
  | [], _ => false
  | (k, v) :: es, f => (alike k f.1 && alike v f.2) || covers es f
termination_by structural es => es

end

instance : BEq Value := ⟨alike⟩

/-- Whether a value is no number although it is of the kind of one. -/
def isNan : Value → Bool
  | .float (.nan _) => true
  | _ => false

/-- Whether two values are equal. -/
def same (v w : Value) : Bool := !v.isNan && alike v w

/-! ### An equivalence

`==` is reflexive, symmetric and transitive.  All three are inductions over the first value. -/

/-- Induction over values: for lists, tuples, maps and records the property may be assumed of
everything they hold. -/
theorem induct {P : Value → Prop} (scalar : ∀ v : Value, (∀ i, v ≠ .list i) → (∀ i, v ≠ .tuple i) →
      (∀ e, v ≠ .map e) → (∀ u e, v ≠ .struct u e) → P v)
    (list : ∀ items, (∀ v ∈ items, P v) → P (.list items))
    (tuple : ∀ items, (∀ v ∈ items, P v) → P (.tuple items))
    (map : ∀ entries, (∀ e ∈ entries, P e.1 ∧ P e.2) → P (.map entries))
    (struct : ∀ unit fields, (∀ e ∈ fields, P e.1 ∧ P e.2) → P (.struct unit fields)) :
    ∀ v, P v := by
  refine @Value.rec P (fun vs => ∀ v ∈ vs, P v) (fun es => ∀ e ∈ es, P e.1 ∧ P e.2)
    (fun e => P e.1 ∧ P e.2) ?_ ?_ ?_ ?_ ?_ ?_ list tuple map struct ?_ ?_ ?_ ?_ ?_
  · exact scalar _ nofun nofun nofun nofun
  · exact fun _ => scalar _ nofun nofun nofun nofun
  · exact fun _ => scalar _ nofun nofun nofun nofun
  · exact fun _ => scalar _ nofun nofun nofun nofun
  · exact fun _ => scalar _ nofun nofun nofun nofun
  · exact fun _ => scalar _ nofun nofun nofun nofun
  · exact nofun
  · exact fun v vs hv hvs => List.forall_mem_cons.2 ⟨hv, hvs⟩
  · exact nofun
  · exact fun e es he hes => List.forall_mem_cons.2 ⟨he, hes⟩
  · exact fun k v hk hv => ⟨hk, hv⟩

/-- Whether two entries have keys that are alike and values that are. -/
def alikeEntry (e f : Value × Value) : Bool := alike e.1 f.1 && alike e.2 f.2

theorem covered_eq (es fs : List (Value × Value)) :
    covered es fs = es.all fun e => fs.any fun f => alikeEntry e f := by
  induction es with
  | nil => rfl
  | cons e es ih => rw [List.all_cons, ← ih]; rfl

theorem covers_eq (es : List (Value × Value)) (f : Value × Value) :
    covers es f = es.any fun e => alikeEntry e f := by
  induction es with
  | nil => rfl
  | cons e es ih => rw [List.any_cons, ← ih]; rfl

/-- Whether either list of entries covers the other. -/
def alikeEntries (es fs : List (Value × Value)) : Bool :=
  covered es fs && fs.all (fun f => covers es f)

theorem alikeEntries_iff {es fs : List (Value × Value)} :
    alikeEntries es fs = true ↔
      (∀ e ∈ es, ∃ f ∈ fs, alikeEntry e f = true) ∧
        (∀ f ∈ fs, ∃ e ∈ es, alikeEntry e f = true) := by
  simp [alikeEntries, covered_eq, covers_eq, List.all_eq_true, List.any_eq_true]

theorem alike_struct (u w : String) (es fs : List (Value × Value)) :
    alike (.struct u es) (.struct w fs) = (u == w && alikeEntries es fs) := rfl

/-- A number is compared as a number. -/
theorem alike_of_number {v : Value} {a : Number} (h : v.number? = some a) (w : Value) :
    alike v w = alikeNumber a w := by
  cases v <;> simp_all [number?, alike]

theorem alikeNumber_eq_true_iff {a : Number} {w : Value} :
    alikeNumber a w = true ↔ ∃ b, w.number? = some b ∧ a.alike b = true := by
  unfold alikeNumber
  split
  · next b h => simp [h]
  · next h => simp [h]

theorem eq_null_of_alike {w : Value} (h : alike .null w = true) : w = .null := by
  cases w <;> first | rfl | cases h

theorem eq_text_of_alike {s : String} {w : Value} (h : alike (.text s) w = true) : w = .text s := by
  cases w <;> first | cases h | skip
  rw [eq_of_beq (show (s == _) = true from h)]

theorem eq_moment_of_alike {m : Moment} {w : Value} (h : alike (.moment m) w = true) :
    ∃ m', w = .moment m' ∧ m.same m' = true := by
  cases w <;> first | exact ⟨_, rfl, h⟩ | cases h

theorem alikeItems_self {as : List Value} (h : ∀ a ∈ as, alike a a = true) :
    alikeItems as as = true := by
  induction as with
  | nil => rfl
  | cons a as ih =>
    rw [alikeItems, h a List.mem_cons_self,
      ih fun b member => h b (List.mem_cons_of_mem a member)]
    rfl

theorem alikeEntries_self {es : List (Value × Value)}
    (h : ∀ e ∈ es, alike e.1 e.1 = true ∧ alike e.2 e.2 = true) : alikeEntries es es = true := by
  have self : ∀ e ∈ es, alikeEntry e e = true := by
    intro e member
    rw [alikeEntry, (h e member).1, (h e member).2]
    rfl
  exact alikeEntries_iff.2 ⟨fun e member => ⟨e, member, self e member⟩,
    fun e member => ⟨e, member, self e member⟩⟩

/-- Every value is found at its own place. -/
theorem alike_self (v : Value) : alike v v = true := by
  induction v using induct with
  | scalar v noList noTuple noMap noStruct =>
    cases isNumber : v.number? with
    | some a =>
      rw [alike_of_number isNumber, alikeNumber_eq_true_iff]
      exact ⟨a, isNumber, Number.alike_self a⟩
    | none =>
      cases v with
      | null => rfl
      | text s => exact beq_self_eq_true s
      | moment m => exact Moment.same_iff.2 ⟨rfl, rfl⟩
      | bool | int | float => cases isNumber
      | list items => exact absurd rfl (noList items)
      | tuple items => exact absurd rfl (noTuple items)
      | map entries => exact absurd rfl (noMap entries)
      | struct unit fields => exact absurd rfl (noStruct unit fields)
  | list items ih | tuple items ih => exact alikeItems_self ih
  | map entries ih => exact alikeEntries_self ih
  | struct unit fields ih =>
    rw [alike_struct, beq_self_eq_true, alikeEntries_self ih]
    rfl

theorem alikeItems_symm {as : List Value} (h : ∀ a ∈ as, ∀ w, alike a w = true → alike w a = true)
    (bs : List Value) : alikeItems as bs = true → alikeItems bs as = true := by
  induction as generalizing bs with
  | nil => cases bs <;> simp [alikeItems]
  | cons a as ih =>
    cases bs with
    | nil => simp [alikeItems]
    | cons b bs =>
      simp only [alikeItems, Bool.and_eq_true]
      rintro ⟨h1, h2⟩
      exact ⟨h a List.mem_cons_self b h1,
        ih (fun x hx => h x (List.mem_cons_of_mem _ hx)) bs h2⟩

theorem alikeEntries_symm {es : List (Value × Value)}
    (h : ∀ e ∈ es, (∀ w, alike e.1 w = true → alike w e.1 = true) ∧
      (∀ w, alike e.2 w = true → alike w e.2 = true)) (fs : List (Value × Value)) :
    alikeEntries es fs = true → alikeEntries fs es = true := by
  have hs : ∀ e ∈ es, ∀ f, alikeEntry e f = true → alikeEntry f e = true := by
    intro e he f
    simp only [alikeEntry, Bool.and_eq_true]
    exact fun ⟨h1, h2⟩ => ⟨(h e he).1 _ h1, (h e he).2 _ h2⟩
  rw [alikeEntries_iff, alikeEntries_iff]
  rintro ⟨h1, h2⟩
  constructor
  · intro f hf
    obtain ⟨e, he, hef⟩ := h2 f hf
    exact ⟨e, he, hs e he f hef⟩
  · intro e he
    obtain ⟨f, hf, hef⟩ := h1 e he
    exact ⟨f, hf, hs e he f hef⟩

theorem alike_symm (v : Value) : ∀ w, alike v w = true → alike w v = true := by
  induction v using induct with
  | scalar v hl ht hm hs =>
    intro w h
    cases hv : v.number? with
    | some a =>
      rw [alike_of_number hv, alikeNumber_eq_true_iff] at h
      obtain ⟨b, hw, hab⟩ := h
      rw [alike_of_number hw, alikeNumber_eq_true_iff]
      exact ⟨a, hv, Number.alike_symm hab⟩
    | none =>
      cases v <;> first | (simp [number?] at hv; done) | skip
      · rw [eq_null_of_alike h]; rfl
      · have hw := eq_text_of_alike h
        subst hw
        exact h
      · obtain ⟨m, rfl, hm'⟩ := eq_moment_of_alike h
        obtain ⟨line, position⟩ := Moment.same_iff.1 hm'
        exact Moment.same_iff.2 ⟨line.symm, position.symm⟩
      · exact absurd rfl (hl _)
      · exact absurd rfl (ht _)
      · exact absurd rfl (hm _)
      · exact absurd rfl (hs _ _)
  | list as ih =>
    intro w h
    cases w <;> first | (simp [alike] at h; done) | skip
    exact alikeItems_symm ih _ h
  | tuple as ih =>
    intro w h
    cases w <;> first | (simp [alike] at h; done) | skip
    exact alikeItems_symm ih _ h
  | map es ih =>
    intro w h
    cases w <;> first | (simp [alike] at h; done) | skip
    exact alikeEntries_symm ih _ h
  | struct u es ih =>
    intro w h
    cases w <;> first | (simp [alike] at h; done) | skip
    rw [alike_struct, Bool.and_eq_true] at h ⊢
    exact ⟨BEq.symm h.1, alikeEntries_symm ih _ h.2⟩

theorem alikeItems_trans {as : List Value}
    (h : ∀ a ∈ as, ∀ b c, alike a b = true → alike b c = true → alike a c = true)
    (bs cs : List Value) : alikeItems as bs = true → alikeItems bs cs = true →
      alikeItems as cs = true := by
  induction as generalizing bs cs with
  | nil => cases bs <;> cases cs <;> simp [alikeItems]
  | cons a as ih =>
    cases bs with
    | nil => simp [alikeItems]
    | cons b bs =>
      cases cs with
      | nil => simp [alikeItems]
      | cons c cs =>
        simp only [alikeItems, Bool.and_eq_true]
        rintro ⟨h1, h2⟩ ⟨h3, h4⟩
        exact ⟨h a List.mem_cons_self b c h1 h3,
          ih (fun x hx => h x (List.mem_cons_of_mem _ hx)) bs cs h2 h4⟩

theorem alikeEntries_trans {es : List (Value × Value)}
    (h : ∀ e ∈ es, (∀ b c, alike e.1 b = true → alike b c = true → alike e.1 c = true) ∧
      (∀ b c, alike e.2 b = true → alike b c = true → alike e.2 c = true))
    (fs gs : List (Value × Value)) : alikeEntries es fs = true → alikeEntries fs gs = true →
      alikeEntries es gs = true := by
  have ht : ∀ e ∈ es, ∀ f g, alikeEntry e f = true → alikeEntry f g = true →
      alikeEntry e g = true := by
    intro e he f g
    simp only [alikeEntry, Bool.and_eq_true]
    exact fun ⟨h1, h2⟩ ⟨h3, h4⟩ => ⟨(h e he).1 _ _ h1 h3, (h e he).2 _ _ h2 h4⟩
  rw [alikeEntries_iff, alikeEntries_iff, alikeEntries_iff]
  rintro ⟨h1, h2⟩ ⟨h3, h4⟩
  constructor
  · intro e he
    obtain ⟨f, hf, hef⟩ := h1 e he
    obtain ⟨g, hg, hfg⟩ := h3 f hf
    exact ⟨g, hg, ht e he f g hef hfg⟩
  · intro g hg
    obtain ⟨f, hf, hfg⟩ := h4 g hg
    obtain ⟨e, he, hef⟩ := h2 f hf
    exact ⟨e, he, ht e he f g hef hfg⟩

theorem alike_trans (v : Value) :
    ∀ w u, alike v w = true → alike w u = true → alike v u = true := by
  induction v using induct with
  | scalar v hl ht hm hs =>
    intro w u h h'
    cases hv : v.number? with
    | some a =>
      rw [alike_of_number hv, alikeNumber_eq_true_iff] at h
      obtain ⟨b, hw, hab⟩ := h
      rw [alike_of_number hw, alikeNumber_eq_true_iff] at h'
      obtain ⟨c, hu, hbc⟩ := h'
      rw [alike_of_number hv, alikeNumber_eq_true_iff]
      exact ⟨c, hu, Number.alike_trans hab hbc⟩
    | none =>
      cases v <;> first | (simp [number?] at hv; done) | skip
      · rw [eq_null_of_alike h] at h'; exact h'
      · have hw := eq_text_of_alike h
        subst hw
        exact h'
      · obtain ⟨m, rfl, hm'⟩ := eq_moment_of_alike h
        obtain ⟨m', rfl, hm''⟩ := eq_moment_of_alike h'
        obtain ⟨line, position⟩ := Moment.same_iff.1 hm'
        obtain ⟨line', position'⟩ := Moment.same_iff.1 hm''
        exact Moment.same_iff.2 ⟨line.trans line', position.trans position'⟩
      · exact absurd rfl (hl _)
      · exact absurd rfl (ht _)
      · exact absurd rfl (hm _)
      · exact absurd rfl (hs _ _)
  | list as ih =>
    intro w u h h'
    cases w <;> first | (simp [alike] at h; done) | skip
    cases u <;> first | (simp [alike] at h'; done) | skip
    exact alikeItems_trans ih _ _ h h'
  | tuple as ih =>
    intro w u h h'
    cases w <;> first | (simp [alike] at h; done) | skip
    cases u <;> first | (simp [alike] at h'; done) | skip
    exact alikeItems_trans ih _ _ h h'
  | map es ih =>
    intro w u h h'
    cases w <;> first | (simp [alike] at h; done) | skip
    cases u <;> first | (simp [alike] at h'; done) | skip
    exact alikeEntries_trans ih _ _ h h'
  | struct x es ih =>
    intro w u h h'
    cases w <;> first | (simp [alike] at h; done) | skip
    cases u <;> first | (simp [alike] at h'; done) | skip
    rw [alike_struct, Bool.and_eq_true] at h h' ⊢
    exact ⟨BEq.trans h.1 h'.1, alikeEntries_trans ih _ _ h.2 h'.2⟩

instance : EquivBEq Value where
  rfl := alike_self _
  symm h := alike_symm _ _ h
  trans h h' := alike_trans _ _ _ h h'

/-! ### Equality -/

theorem same_iff {v w : Value} : same v w = true ↔ v.isNan = false ∧ (v == w) = true := by
  rw [same, Bool.and_eq_true, Bool.not_eq_true']
  rfl

/-- Only another object of its kind is like a `nan`. -/
theorem isNan_of_beq {v w : Value} (h : (v == w) = true) (nan : w.isNan = true) :
    v.isNan = true := by
  obtain ⟨n, rfl⟩ : ∃ n, w = .float (.nan n) := by
    unfold isNan at nan
    split at nan
    · exact ⟨_, rfl⟩
    · cases nan
  have isNumber : alikeNumber (.float (.nan n)) v = true := alike_symm _ _ h
  obtain ⟨a, isA, alike⟩ := alikeNumber_eq_true_iff.1 isNumber
  have nowhere : a.position? = none := (Number.alike_iff.1 alike).1.symm
  cases v with
  | bool | int =>
    cases isA
    cases nowhere
  | float x =>
    cases isA
    cases x with
    | nan m => rfl
    | infinity | finite => cases nowhere
  | _ => cases isA

/-- Equality of values is symmetric. -/
theorem same_symm {v w : Value} (h : same v w = true) : same w v = true := by
  obtain ⟨number, agree⟩ := same_iff.1 h
  refine same_iff.2 ⟨?_, BEq.symm agree⟩
  rw [Bool.eq_false_iff] at number ⊢
  exact fun nan => number (isNan_of_beq agree nan)

/-- Equality of values is transitive. -/
theorem same_trans {v w u : Value} (h : same v w = true) (h' : same w u = true) :
    same v u = true :=
  same_iff.2 ⟨(same_iff.1 h).1, BEq.trans (same_iff.1 h).2 (same_iff.1 h').2⟩

/-- The map of a list of entries in which keys may repeat: a key keeps its first place and its last
value. -/
def ofEntries (entries : List (Value × Value)) : Value := .map (Table.ofList entries).entries

end Value

end Heredity
