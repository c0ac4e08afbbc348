import DwarfLines.Bytes.Progress
import DwarfLines.Dwarf.Form

/-!
# Abbreviations

Entries of the debug information name an abbreviation, which lists the attributes they have and
the form of each. The declarations of a unit run up to a code of zero or the end of the section.
-/

namespace DwarfLines

structure AttributeSpec where
  name : UInt16
  form : UInt16
  /-- Whether the value stands in the abbreviation itself. -/
  implicit : Bool
  deriving DecidableEq, Repr

structure Abbreviation where
  code : UInt64
  attributes : List AttributeSpec
  deriving DecidableEq, Repr

namespace AttributeSpec

/-- The attribute after its name. -/
def readForm (name form : UInt16) : Reader ReadError (Option AttributeSpec) := do
  if name = 0 then
    if form = 0 then return none else throw .expectedZero
  else if form = 0 then
    throw .attributeFormZero
  else if form = Form.implicitConst.code then
    let _ ← Reader.sleb128
    return some { name, form, implicit := true }
  else
    return some { name, form, implicit := false }

/-- An attribute, or the end of the list. -/
def read : Reader ReadError (Option AttributeSpec) := do
  let name ← Reader.uleb128Short
  let form ← Reader.uleb128Short
  readForm name form

theorem consuming_uleb128Short : Reader.uleb128Short.Consuming := by
  refine Reader.consuming_byte.bind fun low => ?_
  split
  · exact Reader.forward_pure _
  · refine Reader.consuming_byte.forward.bind fun middle => ?_
    split
    · exact Reader.forward_pure _
    · refine Reader.consuming_byte.forward.bind fun high => ?_
      split
      · exact Reader.forward_throw _
      · exact Reader.forward_pure _

theorem consuming_read : read.Consuming := by
  refine consuming_uleb128Short.bind fun name => consuming_uleb128Short.forward.bind fun form => ?_
  unfold readForm
  split
  · split
    · exact Reader.forward_pure _
    · exact Reader.forward_throw _
  · split
    · exact Reader.forward_throw _
    · split
      · exact Reader.consuming_sleb128.forward.bind fun _ => Reader.forward_pure _
      · exact Reader.forward_pure _

end AttributeSpec

namespace Abbreviation

/-- The declaration after its code. -/
def readBody (code : UInt64) : Reader ReadError Abbreviation := do
  let tag ← Reader.uleb128Short
  if tag = 0 then
    throw .abbreviationTagZero
  else
    let children ← Reader.byte
    if 1 < children then
      throw .badHasChildren
    else
      return { code, attributes := ← Reader.untilNone AttributeSpec.read AttributeSpec.consuming_read }

def read : Reader ReadError (Option Abbreviation) := do
  let code ← Reader.uleb128
  if code = 0 then return none else some <$> readBody code

theorem forward_readBody (code : UInt64) : (readBody code).Forward := by
  refine AttributeSpec.consuming_uleb128Short.forward.bind fun tag => ?_
  split
  · exact Reader.forward_throw _
  · refine Reader.consuming_byte.forward.bind fun children => ?_
    split
    · exact Reader.forward_throw _
    · refine Reader.Forward.bind ?_ fun _ => Reader.forward_pure _
      exact fun _ _ _ h => (Reader.untilNone_lt h).1

theorem consuming_read : read.Consuming := by
  refine Reader.consuming_uleb128.bind fun code => ?_
  split
  · exact Reader.forward_pure _
  · exact (forward_readBody code).bind fun _ => Reader.forward_pure _

def listFrom (known : List Abbreviation) (c : Cursor) : Except ReadError (List Abbreviation) :=
  if c.atEnd then
    .ok known
  else
    match h : read c with
    | .error e => .error e
    | .ok (none, _) => .ok known
    | .ok (some declared, next) =>
      have := Cursor.length_lt (consuming_read h)
      if known.any (·.code == declared.code) then
        .error .duplicateAbbreviationCode
      else
        listFrom (known ++ [declared]) next
termination_by c.rest.length

def listAt (bytes : List UInt8) (offset : Nat) : Except ReadError (List Abbreviation) := do
  listFrom [] (← Cursor.at? bytes offset)

end Abbreviation
end DwarfLines
