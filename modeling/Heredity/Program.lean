import Heredity.Emission
import Heredity.Value.Equality

/-!
# Programs

A program holds an image of every unit that was opened in it: the routines that can be called, with
the private ones, and the fields of the unit's records.

* `Program.openUnit`, `Program.emit`, `Program.require`, `Program.closeUnit` build an image up.  A
  unit is opened once; a later emission at a key replaces the earlier one; a unit can be closed only
  when every unit that it requires has been opened.
* `Program.newRecord` makes a record of a unit from its defaults.

Nothing is ever taken out of a program.
-/

namespace Heredity

/-- What a program holds of one unit. -/
structure Image where
  /-- The unit that it extends. -/
  base : Option String
  /-- The fields of its records with their defaults. -/
  fields : Table Value Value
  /-- The routines, in the order of their first emission. -/
  routines : Table Key Emission := ∅
  /-- The other units that it requires. -/
  requires : NameSet := ∅
  /-- The keys that were withheld when the unit was closed. -/
  withheld : KeySet := ∅
  /-- Whether the unit is complete. -/
  closed : Bool := false

/-- The images of the units that were opened. -/
structure Program where
  /-- The images by unit. -/
  units : Table String Image := ∅

namespace Program

instance : EmptyCollection Program := ⟨{}⟩

/-- Whether a unit was opened. -/
def contains (p : Program) (unit : String) : Bool := p.units.contains unit

/-- The image of a unit. -/
def image (p : Program) (unit : String) : Except Error Image :=
  match p.units.get? unit with
  | some image => .ok image
  | none => .error (.notLoaded unit)

/-- Puts a new image in the place of the image of a unit. -/
def setImage (p : Program) (unit : String) (image : Image) : Program :=
  ⟨p.units.insert unit image⟩

/-- Opens a unit. -/
def openUnit (p : Program) (unit : String) (base : Option String) (fields : Table Value Value) :
    Except Error Program :=
  if p.contains unit then .error (.alreadyLoaded unit)
  else .ok (p.setImage unit { base := base, fields := fields })

/-- Makes a routine callable on a unit. -/
def emit (p : Program) (unit : String) (emission : Emission) : Except Error Program := do
  let image ← p.image unit
  return p.setImage unit { image with routines := image.routines.insert emission.key emission }

/-- Notes that a unit requires others. -/
def require (p : Program) (unit : String) (units : List String) : Except Error Program := do
  let image ← p.image unit
  return p.setImage unit
    { image with requires := image.requires.addAll (units.filter (· != unit)) }

/-- The units that an image requires and that were not opened, in order. -/
def missing (p : Program) (image : Image) : List String :=
  image.requires.sorted.filter fun u => !p.contains u

/-- Completes a unit. -/
def closeUnit (p : Program) (unit : String) (registry : Registry) : Except Error Program := do
  let image ← p.image unit
  let missing := p.missing image
  if missing.isEmpty then
    return p.setImage unit { image with withheld := registry.withheld, closed := true }
  else
    throw (.requirementsNotLoaded unit missing)

/-- The base of a unit. -/
def parent (p : Program) (unit : String) : Except Error (Option String) := do
  return (← p.image unit).base

/-- Names that cannot be given to fields when a record is made, since they say which record is made
and by whom. -/
def reservedFields : List String := ["self", "unit"]

/-- Makes a record of a unit: the defaults with the given fields over them.  Every given field must
be a field of the unit. -/
def newRecord (p : Program) (unit : String) (given : List (String × Value)) :
    Except Error Value := do
  -- A reserved name is refused whether the unit was opened or not.
  if given.any (fun f => reservedFields.contains f.1) then throw (.fault .unsupported)
  let image ← p.image unit
  match given.find? (fun f => !image.fields.contains (.text f.1)) with
  | some f => throw (.noSuchField unit f.1)
  | none =>
    let fields := image.fields.insertAll (given.map fun f => (Value.text f.1, f.2))
    return .struct unit fields.entries

end Program

end Heredity
