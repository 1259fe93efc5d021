import DataBlock.CodecError
/-!
# Errors of reading tags and of scenarios

An error is a cause, and an error about a tag or a line has a cause in turn.
The wording is in `Error.message` alone.
-/

namespace DataBlock

inductive TransportFault where
  | notConnected
  | blockMissing (block : UInt16)
  | outOfRange (block : UInt16) (span : Span) (size : Nat)
  /-- A request was answered with too few or too many items. -/
  | itemCount (block : UInt16) (requested returned : Nat)
  | unplanned
  /-- A fault found elsewhere, in words of its own. -/
  | other (reason : String)
  deriving DecidableEq, Repr

def TransportFault.message : TransportFault → String
  | notConnected => "not connected"
  | blockMissing block => "DB" ++ toString block.toNat ++ " does not exist"
  | outOfRange block span size =>
    "DB" ++ toString block.toNat ++ " " ++ toString span ++ " out of range, block size " ++
      toString size
  | itemCount block requested returned =>
    "DB" ++ toString block.toNat ++ ": " ++ toString requested ++ " items requested, " ++
      toString returned ++ " returned"
  | unplanned => "tag missing from read plan"
  | other reason => reason

inductive ConfigFault where
  /-- An expectation without the mark between its type and its value. -/
  | noSeparator (text : String)
  | unknownKey (key : String)
  | invalidValue (key value : String)
  | notInteger (setting value : String)
  | outOfRange (setting : String) (most : Nat) (value : Int)
  | missing (setting : String)
  | unreadable (path reason : String)
  /-- A fault found elsewhere, in words of its own. -/
  | other (reason : String)
  deriving DecidableEq, Repr

def ConfigFault.message : ConfigFault → String
  | noSeparator text => "expected `type;value`, got `" ++ text ++ "`"
  | unknownKey key => "unknown value type `" ++ key ++ "`"
  | invalidValue key value => "invalid " ++ key ++ " value `" ++ value ++ "`"
  | notInteger setting value => setting ++ " is not an integer: `" ++ value ++ "`"
  | outOfRange setting most value =>
    setting ++ " out of range [0-" ++ toString most ++ "]: " ++ toString value
  | missing setting => setting ++ " required"
  | unreadable path reason => "failed to read " ++ path ++ ": " ++ reason
  | other reason => reason

inductive Error where
  | codec (cause : CodecError)
  | transport (fault : TransportFault)
  | config (fault : ConfigFault)
  /-- A line of a scenario that cannot be used, counted from one. -/
  | line (number : Nat) (text : String) (cause : Error)
  | tag (name address : String) (cause : Error)
  /-- A tag that holds another value than expected. -/
  | mismatch (name address expected actual : String)
  /-- A sum of durations is out of range. -/
  | overflow
  deriving DecidableEq, Repr

namespace Error

def message : Error → String
  | codec cause => cause.message
  | transport fault => "TransportError - " ++ fault.message
  | config fault => "ConfigError - " ++ fault.message
  | line number text cause =>
    "ConfigError - line " ++ toString number ++ " `" ++ text ++ "`: " ++ cause.message
  | tag name address cause => "tag " ++ name ++ " (" ++ address ++ "): " ++ cause.message
  | mismatch name address expected actual =>
    "tag " ++ name ++ " (" ++ address ++ "): expected " ++ expected ++ ", got " ++ actual
  | overflow => "overflow when adding durations"

def isConfig : Error → Bool
  | config _ | line .. => true
  | _ => false

end Error

end DataBlock
