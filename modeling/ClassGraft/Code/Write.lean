import ClassGraft.Bytes.Counted
import ClassGraft.Code.Layout

/-!
# Writing method bodies

The contents of a `Code` attribute around code that was laid out anew.  Lines and local variables
get their new offsets, and entries whose instructions are gone are dropped, as are ranges of
handlers that became empty.  Attributes whose contents are not known are dropped.
-/

namespace ClassGraft

/-- An attribute as it stands in the file. -/
def RawAttribute.bytes (raw : RawAttribute) : Except ClassFault Bytes := do
  return Bytes.ofUInt16 raw.name ++ (← Bytes.block raw.info)

namespace Layout

variable (layout : Layout)

/-- The row of a handler; none if its range is empty. -/
def handlerRow? (handler : Handler) : Except ClassFault (Option (List UInt16)) := do
  let start ← layout.offset handler.start
  let stop ← layout.offsetOf handler.stop
  let entry ← layout.offset handler.entry
  return if stop ≤ start then none
    else some [UInt16.ofNat start, UInt16.ofNat stop, UInt16.ofNat entry, handler.catchType]

/-- The row of a line; none if its instruction is gone. -/
def lineRow? (entry : LineEntry) : Option (List UInt16) :=
  (layout.offset? entry.start).map fun start => [UInt16.ofNat start, entry.line]

/-- The row of a local variable; none if an end of its range is gone, or lies before the start. -/
def variableRow? (entry : VariableEntry) : Option (List UInt16) := do
  let start ← layout.offset? entry.start
  let stop ← (layout.offsetOf entry.stop).toOption
  if stop < start then none
  else
    return [UInt16.ofNat start, UInt16.ofNat (stop - start), entry.name, entry.descriptor,
      entry.slot]

/-- The attributes of a body, with the new table of frames in place of the old one or, if there was
none, at the end. -/
def attributes : List BodyAttribute → (frames : Option RawAttribute) →
    Except ClassFault (List RawAttribute)
  | [], frames => return frames.toList
  | .lines name entries :: rest, frames => do
    let info ← Bytes.tableOf id (entries.filterMap layout.lineRow?)
    return ⟨name, info⟩ :: (← attributes rest frames)
  | .locals _ name entries :: rest, frames => do
    let info ← Bytes.tableOf id (entries.filterMap layout.variableRow?)
    return ⟨name, info⟩ :: (← attributes rest frames)
  | .frames _ _ :: rest, some raw => do return raw :: (← attributes rest none)
  | .frames _ _ :: rest, none => attributes rest none
  | .other _ :: rest, frames => attributes rest frames

end Layout

/-- The contents of the attribute of a body whose instructions were laid out. -/
def Body.bytes (body : Body) (layout : Layout) (frames : Option RawAttribute) :
    Except ClassFault Bytes := do
  let code ← Bytes.block layout.code
  let handlers ← body.handlers.mapM layout.handlerRow?
  let handlers ← Bytes.tableOf id (handlers.filterMap id)
  let attributes ← layout.attributes body.attributes frames
  let attributes ← Bytes.listOf RawAttribute.bytes attributes
  return Bytes.ofUInt16 body.maxStack ++ Bytes.ofUInt16 body.maxLocals ++ code ++ handlers
    ++ attributes

end ClassGraft
