import Heredity.Registry

/-!
# Precedence of declarations

Which declaration of a key takes effect in a unit.

* `Admission` — how a declaration is treated: recorded as new, replacing another, inert because the
  inherited routine is locked, or local because the key is withheld.
* `Ledger.assess` decides.  For inherited routines it asks the *snapshot* of the permissions that
  the unit inherited, so a unit that grants permission passes it on without unlocking the routine
  for itself.
* `Ledger.declare` records an admitted declaration; `Ledger.grant` and `Ledger.withhold` change what
  is passed on.

**The snapshot is what makes permission directed.**  It is taken when the unit is opened and never
written again, while grants change the records that descendants will see.

A declaration that is inert is reported as a warning or refused, as the configuration says.  What a
base's hook declares is reported in neither way: the author of the extension did not write it.
-/

namespace Heredity

/-- What happens to a declaration at a locked key. -/
inductive InertPolicy where
  /-- It is accepted, stays without effect, and a warning is issued. -/
  | warn
  /-- It is refused. -/
  | refuse
deriving DecidableEq

/-- The options of compilation. -/
structure Config where
  /-- What happens to a declaration at a locked key. -/
  inertPolicy : InertPolicy := .warn
  /-- What synthetic parameter names start with. -/
  stem : String := "arg_"
  /-- Whether calls of withheld routines keep a routine from being copied. -/
  delegateWithheld : Bool := true
deriving DecidableEq

/-- How the declaration of a key by the unit itself is treated. -/
inductive Admission where
  /-- The key is new; the declaration is recorded. -/
  | record
  /-- The declaration replaces what is recorded. -/
  | replace
  /-- The inherited routine is locked; the declaration stays without effect. -/
  | inert
  /-- The key is kept from descendants; the declaration counts for the unit alone. -/
  | isLocal
deriving DecidableEq, Inhabited

/-- Whether an admitted declaration is recorded. -/
def Admission.isRecorded : Admission → Bool
  | .record => true
  | .replace => true
  | _ => false

/-- The permissions that a unit inherited, and the options under which it is compiled. -/
structure Ledger where
  /-- The options. -/
  config : Config := {}
  /-- The permissions of the inherited routines when the unit was opened. -/
  permissions : Table Key Bool := ∅

namespace Ledger

/-- The permissions of the inherited routines of a draft. -/
def snapshot (d : Draft) : Table Key Bool :=
  ⟨(d.routines.entries.filter (fun e => e.2.inherited)).map (fun e => (e.1, e.2.permitted)), by
    have h : ((d.routines.entries.filter (fun e => e.2.inherited)).map
        (fun e => (e.1, e.2.permitted))).map Prod.fst =
        (d.routines.entries.filter (fun e => e.2.inherited)).map Prod.fst := by
      rw [List.map_map]; rfl
    rw [h]
    exact d.routines.distinct.sublist (List.Sublist.map _ List.filter_sublist)⟩

/-- The ledger of a draft that has just been opened. -/
def ofDraft (config : Config) (d : Draft) : Ledger := ⟨config, snapshot d⟩

/-- Permits descendants to replace a recorded routine. -/
def grant (d : Draft) (key : Key) : Except Error Draft :=
  match d.routines.get? key with
  | none => .error (.unknownRoutine d.unit key)
  | some routine => d.record key { routine with permitted := true }

/-- Keeps a key from every descendant. -/
def withhold (d : Draft) (key : Key) : Except Error Draft := do
  let (_, d) ← d.discard key
  d.addWithheld key

/-- Whether the unit may replace an inherited routine. -/
def mayReplace (l : Ledger) (key : Key) (routine : RoutineRecord) : Bool :=
  (l.permissions.get? key).getD routine.permitted

/-- Treats a declaration at a locked key. -/
def refuseInert (l : Ledger) (unit : String) (key : Key) (spliced : Bool) :
    Except Error (Admission × Option Warning) :=
  if spliced then .ok (.inert, none)
  else
    match l.config.inertPolicy with
    | .refuse => .error (.inertOverride unit key)
    | .warn => .ok (.inert, some ⟨unit, key⟩)

/-- Decides how a declaration of the unit itself is treated; `spliced` says that it comes from a
hook of the base. -/
def assess (l : Ledger) (d : Draft) (key : Key) (spliced : Bool) :
    Except Error (Admission × Option Warning) :=
  if d.withheld.contains key then .ok (.isLocal, none)
  else
    match d.routines.get? key with
    | none => .ok (.record, none)
    | some routine =>
      if !routine.inherited || l.mayReplace key routine then .ok (.replace, none)
      else l.refuseInert d.unit key spliced

/-- The record of a routine that a unit declares. -/
def nativeRecord (params guards : List Tree) (body : Tree) : RoutineRecord :=
  ⟨params, guards, body, .native, false⟩

/-- Admits a declaration and records it if it is to be recorded. -/
def declare (l : Ledger) (d : Draft) (key : Key) (params guards : List Tree) (body : Tree)
    (spliced : Bool) : Except Error (Admission × Option Warning × Draft) := do
  let (admission, warning) ← l.assess d key spliced
  if admission.isRecorded then
    return (admission, warning, ← d.record key (nativeRecord params guards body))
  else
    return (admission, warning, d)

end Ledger

end Heredity
