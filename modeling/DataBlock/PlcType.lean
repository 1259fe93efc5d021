/-!
# Types of the controller

The elementary types a tag can have, with the names used in addresses and the
number of bytes a value takes.
-/

namespace DataBlock

inductive PlcType where
  | bool | byte | word | dword
  | sint | usint | int | uint | dint | udint
  | real | lreal
  | char | wchar | string | wstring
  | time | date | timeOfDay
  deriving DecidableEq, Repr

namespace PlcType

def all : List PlcType :=
  [bool, byte, word, dword, sint, usint, int, uint, dint, udint, real, lreal,
    char, wchar, string, wstring, time, date, timeOfDay]

def name : PlcType → String
  | bool => "BOOL"
  | byte => "BYTE"
  | word => "WORD"
  | dword => "DWORD"
  | sint => "SINT"
  | usint => "USINT"
  | int => "INT"
  | uint => "UINT"
  | dint => "DINT"
  | udint => "UDINT"
  | real => "REAL"
  | lreal => "LREAL"
  | char => "CHAR"
  | wchar => "WCHAR"
  | string => "STRING"
  | wstring => "WSTRING"
  | time => "TIME"
  | date => "DATE"
  | timeOfDay => "TIME_OF_DAY"

instance : ToString PlcType := ⟨name⟩

def ofName? (name : String) : Option PlcType :=
  all.find? fun type => type.name == name

/-- Bytes of a value, for types whose values are all equally long. -/
def fixedWidth? : PlcType → Option Nat
  | bool | byte | sint | usint | char => some 1
  | word | int | uint | wchar | date => some 2
  | dword | dint | udint | real | time | timeOfDay => some 4
  | lreal => some 8
  | string | wstring => none

/-- The greatest capacity that can be declared, for types that need one. -/
def maxLength? : PlcType → Option UInt16
  | string => some 254
  | wstring => some 16382
  | _ => none

def isString (type : PlcType) : Bool := type.maxLength?.isSome

theorem mem_all (type : PlcType) : type ∈ all := by
  cases type <;> decide

theorem ofName?_name (type : PlcType) : ofName? type.name = some type := by
  cases type <;> rfl

theorem name_of_ofName? {name : String} {type : PlcType}
    (h : ofName? name = some type) : type.name = name := by
  simpa using List.find?_some h

theorem isString_iff_fixedWidth? (type : PlcType) :
    type.isString = true ↔ type.fixedWidth? = none := by
  cases type <;> decide

end PlcType

end DataBlock
