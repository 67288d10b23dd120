import Heredity.Proofs.Declarations
import Heredity.Proofs.Derivation

/-!
# Bare calls in copied routines

A copied routine is emitted again in the extension, so that its bare calls mean the routines of the
extension.  On the way the imports of the base are applied to its text.  A call that the base answers
itself, although it also imports the key, means the import in the copy.

* `Tree.at?_qualified_call` — what becomes of a bare call, in its place.
* `Emission.Copies` — one routine carries the text of another one, qualified with imports.
* `Reachable.copied_call_iff` — a copied record is such a copy of what the image of the base runs, so
  a bare call is a bare call of the copy exactly if the base does not import the key.
* `copied_call_redirected` — a copy that does not do what the original does.

**Imports and images are not compared.**  Declarations are prepared with the imports of the time, but
the routines for smaller arities are made after that, a routine may be declared before its key is
imported, and inherited texts are never prepared.  All three leave bare calls of imported keys in
what a unit runs.
-/

namespace Heredity

/-- What becomes of a bare call when a tree is qualified, in its place. -/
theorem Tree.at?_qualified_call {imports : Table Key String} {t : Tree} {path : List Nat}
    {name : String} {args : List Tree} (written : t.at? path = some (.call name args)) :
    (t.qualified imports).at? path =
      some (match imports.get? (Key.ofCount name args.length) with
        | some source => .remoteCall source name (args.map (qualified imports))
        | none => .call name (args.map (qualified imports))) := by
  rw [qualified, at?_transform (children_qualifiedNode imports), written]
  show some (qualified _ _) = _
  rw [qualified_eq, mapChildren, qualifiedNode, List.length_map]
  rfl

/-- One routine carries the text of another one, qualified with imports. -/
def Emission.Copies (imports : Table Key String) (e e' : Emission) : Prop :=
  e'.expressions = e.expressions.qualified imports

namespace Emission.Copies

variable {imports : Table Key String} {e e' : Emission} {path : List Nat} {name : String}
  {args : List Tree}

/-- **A call of a routine that is not imported** is a bare call in the copy, and no other one is. -/
theorem call_iff (h : e.Copies imports e')
    (written : e.expressions.at? path = some (.call name args)) :
    (∃ args', e'.expressions.at? path = some (.call name args') ∧ args'.length = args.length) ↔
      imports.contains (Key.ofCount name args.length) = false := by
  rw [← Table.get?_eq_none_iff, h, Tree.at?_qualified_call written]
  constructor
  · rintro ⟨args', found, -⟩
    split at found
    · cases found
    · assumption
  · intro unimported
    rw [unimported]
    exact ⟨_, rfl, List.length_map _⟩

/-- **A call of an imported routine** is a call of its source in the copy. -/
theorem remoteCall (h : e.Copies imports e')
    (written : e.expressions.at? path = some (.call name args)) {source : String}
    (isImported : imports.get? (Key.ofCount name args.length) = some source) :
    ∃ args', e'.expressions.at? path = some (.remoteCall source name args') ∧
      args'.length = args.length := by
  rw [h, Tree.at?_qualified_call written, isImported]
  exact ⟨_, rfl, List.length_map _⟩

end Emission.Copies

/-- A unit answers its own calls with whatever its image holds, private routines included. -/
theorem Program.callee_self {image : Image} {key : Key} {e : Emission}
    (stored : image.routines.get? key = some e) (unit : String) :
    callee image unit key (some unit) = .ok e := by
  rw [callee, stored]
  simp

namespace Workspace

variable {w : Workspace}

/-- **Copies and their calls.**  In every workspace that commands lead to, a copied record of an
extension is what its image runs, and the base has published an original that its own image runs.
A bare call in the body or a guard of the original, at any depth, is a bare call of the same key in
its place in the copy exactly if the base does not import the key; the extension answers it with
whatever its own image holds.  If the base imports the key, whether it has a routine of its own there
or not, the copy calls the source of the import. -/
theorem Reachable.copied_call_iff (h : w.Reachable) {unit : String} {s : Session} {key : Key}
    {r' : RoutineRecord} (session : w.sessions.get? unit = some s)
    (recorded : s.draft.routines.get? key = some r') (copied : r'.origin = .copied) :
    ∃ base registry r baseImage image e e', s.draft.base = some base ∧
      w.store.get? base = some registry ∧ registry.routines.get? key = some r ∧
      w.program.units.get? base = some baseImage ∧ w.program.units.get? unit = some image ∧
      baseImage.routines.get? key = some e ∧ e.Matches r ∧
      image.routines.get? key = some e' ∧ e'.Matches r' ∧
      ∀ path name args, e.expressions.at? path = some (.call name args) →
        ((∃ args', e'.expressions.at? path = some (.call name args') ∧ args'.length = args.length) ↔
          registry.imports.contains (Key.ofCount name args.length) = false) ∧
        (∀ target, image.routines.get? (Key.ofCount name args.length) = some target →
          Program.callee image unit (Key.ofCount name args.length) (some unit) = .ok target) ∧
        ∀ source, registry.imports.get? (Key.ofCount name args.length) = some source →
          ∃ args', e'.expressions.at? path = some (.remoteCall source name args') ∧
            args'.length = args.length := by
  obtain ⟨base, registry, r, isBase, published, -, original, -, handed⟩ :=
    h.handed_down session recorded (by rw [RoutineRecord.inherited, copied]; rfl)
  obtain ⟨s₀, session₀, -, rfl⟩ := h.coherent.published published
  obtain ⟨baseImage, e, baseHeld, stored, carries⟩ :=
    h.coherent.stored_of_recorded session₀ original
  obtain ⟨image, e', held, stored', carries'⟩ := h.coherent.stored_of_recorded session recorded
  have copies : e.Copies s₀.draft.imports e' := by
    cases handed with
    | delegated dependent made =>
      rw [made] at copied
      cases copied
    | copied independent made =>
      rw [Emission.Copies, Emission.expressions, Emission.expressions, carries'.body,
        carries'.guards, carries.body, carries.guards, made, Tree.qualified_eq]
      rfl
  exact ⟨base, _, r, baseImage, image, e, e', isBase, published, original, baseHeld, held, stored,
    carries, stored', carries', fun path name args written =>
      ⟨copies.call_iff written, fun target held => Program.callee_self held unit,
        fun source isImported => copies.remoteCall written isImported⟩⟩

/-- The commands by which a unit is published that imports a routine and then declares one at the
same key, with an optional parameter; another of its routines leaves the parameter out. -/
def redirectionCommands : List Command :=
  [.openRoot {} "lib" (.list []),
    .define "lib" ⟨"f", [.binding "x", .binding "y"], .literal (.text "lib"), [], false, false⟩,
    .finish "lib",
    .openRoot {} "base" (.list []),
    .importRoutines "base" (.text "lib") none,
    .define "base" ⟨"f", [.binding "x", .optional (.binding "y") (.literal (.int 0))],
      .literal (.text "base"), [], false, false⟩,
    .define "base" ⟨"g", [.binding "x"], .tuple [.call "f" [.var "x"]], [], false, false⟩,
    .finish "base",
    .openExtension {} "child" "base" (.list []),
    .finish "child"]

/-- The call of the routine that is not imported is a bare call in the copy. -/
theorem copied_call_kept :
    ∃ image e args, (afterAll ∅ redirectionCommands).program.units.get? "child" = some image ∧
      image.routines.get? (.ofCount "g" 1) = some e ∧ e.origin = .copied ∧
      e.expressions.at? [0, 0] = some (.call "f" args) ∧ args.length = 1 := by
  have evaluated : ((afterAll ∅ redirectionCommands).sessions.get? "child").map (fun s =>
        (s.draft.base, (s.draft.routines.get? (.ofCount "g" 1)).map RoutineRecord.origin)) =
          some (some "base", some .copied) ∧
      ((afterAll ∅ redirectionCommands).store.get? "base").map (fun registry =>
        (registry.imports.contains (.ofCount "f" 1),
          (registry.routines.get? (.ofCount "g" 1)).map RoutineRecord.body)) =
          some (false, some (.tuple [.call "f" [.var "x"]])) := by
    cbv
  obtain ⟨extended, published⟩ := evaluated
  obtain ⟨s, session, facts⟩ := Option.map_eq_some_iff.1 extended
  obtain ⟨isBase, isCopy⟩ := Prod.mk.injEq .. ▸ facts
  obtain ⟨r', recorded, copied⟩ := Option.map_eq_some_iff.1 isCopy
  obtain ⟨registry, stored, facts⟩ := Option.map_eq_some_iff.1 published
  obtain ⟨unimported, text⟩ := Prod.mk.injEq .. ▸ facts
  obtain ⟨r₀, isRecord, body⟩ := Option.map_eq_some_iff.1 text
  obtain ⟨base, registry', r, baseImage, image, e, e', isBase', stored', original, -, held, -,
    carries, inImage, carries', calls⟩ :=
      Reachable.copied_call_iff (Reachable.empty.afterAll redirectionCommands) session recorded copied
  cases isBase'.symm.trans isBase
  cases stored'.symm.trans stored
  cases original.symm.trans isRecord
  have written : e.expressions.at? [0, 0] = some (.call "f" [.var "x"]) := by
    rw [Emission.expressions, carries.body, body]
    rfl
  obtain ⟨kept, -⟩ := calls [0, 0] "f" [.var "x"] written
  obtain ⟨args', found, length⟩ := kept.2 unimported
  exact ⟨image, e', args', held, inImage, carries'.origin.trans copied, found, length⟩

/-- **A copy that does something else.**  The base answers the call of the shorter routine with its
own routine, which its image holds, and so it answers `f` with one argument.  In the copy, which the
extension has of that very text, the call goes to the unit from which the key was imported. -/
theorem copied_call_redirected :
    ((afterAll ∅ redirectionCommands).program.units.get? "base").map (fun image =>
        (image.routines.contains (.ofCount "f" 2),
          (image.routines.get? (.ofCount "f" 1)).map Emission.body)) =
        some (true, some (.call "f" [.var "x", .literal (.int 0)])) ∧
      ((afterAll ∅ redirectionCommands).program.units.get? "child").map (fun image =>
        (image.routines.contains (.ofCount "f" 2),
          (image.routines.get? (.ofCount "f" 1)).map fun e => (e.body, e.origin))) =
        some (true, some (.remoteCall "lib" "f" [.var "x", .literal (.int 0)], .copied)) ∧
      (afterAll ∅ redirectionCommands).program.call "base" "f" [.int 1] = .ok (.text "base") ∧
      (afterAll ∅ redirectionCommands).program.call "child" "f" [.int 1] = .ok (.text "lib") := by
  refine ⟨?_, ?_⟩
  all_goals cbv

end Workspace

end Heredity
