import HostScript.Host.Call
import HostScript.Text.Class
import HostScript.Ty

namespace HostScript

-- What a reference keeps alive.
inductive Payload where
  | text (s : String)
  | object (o : ObjectRef)
  deriving DecidableEq, Repr

-- The lists of a registry from which a script picks members by number.
inductive MemberKind where
  | method
  | property
  | constructor
  deriving DecidableEq, Repr

def MemberKind.text : MemberKind → String
  | .method => "method"
  | .property => "property"
  | .constructor => "constructor"

-- The numbered kinds of events a run reports. Warnings are numbered from 600 on.
inductive Fault.Code where
  | invalidOperation
  | invalidType
  | stackOverflow
  | stackUnderflow
  | invalidBytecode
  | invalidLocal
  | invalidReference
  | referenceTableFull
  | hostCallFailed
  | invalidMember
  | inVarTypeError
  | stackNotEmpty
  | referenceNotRemoved
  deriving DecidableEq, Repr

namespace Fault.Code

def number : Fault.Code → Nat
  | .invalidOperation => 501
  | .invalidType => 502
  | .stackOverflow => 503
  | .stackUnderflow => 504
  | .invalidBytecode => 505
  | .invalidLocal => 506
  | .invalidReference => 507
  | .referenceTableFull => 508
  | .hostCallFailed => 509
  | .invalidMember => 510
  | .inVarTypeError => 511
  | .stackNotEmpty => 601
  | .referenceNotRemoved => 602

-- All codes in the order of their numbers.
def all : List Fault.Code :=
  [.invalidOperation, .invalidType, .stackOverflow, .stackUnderflow, .invalidBytecode,
   .invalidLocal, .invalidReference, .referenceTableFull, .hostCallFailed, .invalidMember,
   .inVarTypeError, .stackNotEmpty, .referenceNotRemoved]

def name : Fault.Code → String
  | .invalidOperation => "InvalidOperation"
  | .invalidType => "InvalidType"
  | .stackOverflow => "StackOverflow"
  | .stackUnderflow => "StackUnderflow"
  | .invalidBytecode => "InvalidBytecode"
  | .invalidLocal => "InvalidLocal"
  | .invalidReference => "InvalidReference"
  | .referenceTableFull => "ReferenceTableFull"
  | .hostCallFailed => "HostCallFailed"
  | .invalidMember => "InvalidMember"
  | .inVarTypeError => "InVarTypeError"
  | .stackNotEmpty => "StackNotEmpty"
  | .referenceNotRemoved => "ReferenceNotRemoved"

def ofName? (name : String) : Option Fault.Code :=
  all.find? (·.name = name)

def isWarning (c : Fault.Code) : Bool :=
  600 ≤ c.number

def header (c : Fault.Code) : String :=
  if c.isWarning then "Runtime Warning" else "Runtime Error"

end Fault.Code

-- Everything that can end a run. Types and kinds of values are given by the names messages use.
inductive Fault where
  | badOperands (symbol lhs rhs : String)
  | badOperand (symbol kind : String)
  | noMembers (member kind : String)
  | notABool (kind : String)
  | badCount (kind : String)
  | badValue (expected found : String)
  | badArgument (index : Nat) (member expected found : String)
  | badPropertyValue (member expected found : String)
  | stackOverflow (capacity : Nat)
  | stackUnderflow
  | outside (pc : Nat)
  | unknownOpcode (byte : UInt8) (pc : Nat)
  | truncated
  | badTypeCheck (operand : Int32)
  | noSuchString (index : UInt16)
  | badJump (target : Int32)
  | badLoopLength (length : Int32)
  | notNumbers
  | notANumber
  | noSuchLocal (slot : Nat)
  | deadHandle (handle : Nat)
  | notAText (handle : Nat)
  | notAnObject (handle : Nat)
  | referencesFull (capacity : Nat)
  | refused (error : HostError)
  | badResult (member found expected : String)
  | unknownMember (kind : MemberKind) (id : UInt32)
  | unregistered (member : String)
  | noMethod (owner member : String) (count : Nat)
  | ambiguousMethod (member : String)
  | unreadable (member : String)
  | notReadable (owner member : String)
  | readOnly (member : String)
  | notWritable (owner member : String)
  | badInput (name expected found : String)
  deriving Inhabited

namespace Fault

def code : Fault → Code
  | .badOperands _ _ _ | .badOperand _ _ | .noMembers _ _ => .invalidOperation
  | .notABool _ | .badCount _ | .badValue _ _ | .badArgument _ _ _ _ | .badPropertyValue _ _ _ =>
    .invalidType
  | .stackOverflow _ => .stackOverflow
  | .stackUnderflow => .stackUnderflow
  | .outside _ | .unknownOpcode _ _ | .truncated | .badTypeCheck _ | .noSuchString _ | .badJump _
  | .badLoopLength _ | .notNumbers | .notANumber => .invalidBytecode
  | .noSuchLocal _ => .invalidLocal
  | .deadHandle _ | .notAText _ | .notAnObject _ => .invalidReference
  | .referencesFull _ => .referenceTableFull
  | .refused _ | .badResult _ _ _ => .hostCallFailed
  | .unknownMember _ _ | .unregistered _ | .noMethod _ _ _ | .ambiguousMethod _ | .unreadable _
  | .notReadable _ _ | .readOnly _ | .notWritable _ _ => .invalidMember
  | .badInput _ _ _ => .inVarTypeError

def message : Fault → String
  | .badOperands symbol lhs rhs =>
    s!"Invalid Operation: '{symbol}' cannot be applied to {lhs} and {rhs}"
  | .badOperand symbol kind => s!"Invalid Operation: '{symbol}' cannot be applied to {kind}"
  | .noMembers member kind => s!"Cannot access '{member}' on a {kind} value"
  | .notABool kind => s!"Invalid Type: expected bool, found {kind}"
  | .badCount kind => s!"Invalid Type: loop count must be a number, found {kind}"
  | .badValue expected found => s!"Invalid Type: expected {expected}, found {found}"
  | .badArgument index member expected found =>
    s!"Invalid Type: argument {index} of '{member}' expected {expected}, found {found}"
  | .badPropertyValue member expected found =>
    s!"Invalid Type: property '{member}' expected {expected}, found {found}"
  | .stackOverflow capacity => s!"Stack overflow (capacity {capacity})"
  | .stackUnderflow => "Stack underflow"
  | .outside pc => s!"Jumped outside the script to {pc}"
  | .unknownOpcode byte pc => s!"Unknown opcode {Text.hexText 2 byte.toNat} at {pc}"
  | .truncated => "Truncated instruction"
  | .badTypeCheck operand => s!"Bad type check {Text.hexText 1 operand.toUInt32.toNat}"
  | .noSuchString index => s!"String pool index {index.toNat} out of range"
  | .badJump target => s!"Jump target {target.toInt} out of range"
  | .badLoopLength length => s!"Loop body length {length.toInt} out of range"
  | .notNumbers => "Numeric instruction applied to non-numeric values"
  | .notANumber => "Numeric instruction applied to a non-numeric value"
  | .noSuchLocal slot => s!"Invalid local slot {slot}"
  | .deadHandle handle => s!"Invalid reference handle {handle}"
  | .notAText handle => s!"Handle {handle} is not a string"
  | .notAnObject handle => s!"Handle {handle} is not an object"
  | .referencesFull capacity => s!"Reference table is full ({capacity} slots)"
  | .refused error => error.message
  | .badResult member found expected => s!"'{member}' returned {found}, expected {expected}"
  | .unknownMember kind id => s!"Unknown {kind.text} #{id.toNat}"
  | .unregistered member => s!"Cannot look up '{member}' on an unregistered object"
  | .noMethod owner member count =>
    s!"{owner} has no method '{member}' taking {count} argument(s)"
  | .ambiguousMethod member => s!"'{member}' matches more than one method"
  | .unreadable member => s!"Property '{member}' cannot be read"
  | .notReadable owner member => s!"{owner} has no readable member '{member}'"
  | .readOnly member => s!"Property '{member}' is read-only"
  | .notWritable owner member => s!"{owner} has no writable property '{member}'"
  | .badInput name expected found =>
    s!"In variable '{name}' expected {expected}, found {found}"

end Fault

-- Something a run should have cleaned up itself. An object is shown as it looked when it was found.
inductive Warning where
  | stackNotEmpty (count : Nat)
  | textLeft (handle : Nat) (s : String)
  | objectLeft (handle : Nat) (display : String)
  deriving DecidableEq, Repr

namespace Warning

def code : Warning → Fault.Code
  | .stackNotEmpty _ => .stackNotEmpty
  | .textLeft _ _ | .objectLeft _ _ => .referenceNotRemoved

def message : Warning → String
  | .stackNotEmpty count => s!"stack not empty: {count} value(s) left"
  | .textLeft handle s => s!"reference not removed: handle {handle} (string {Text.quoted s})"
  | .objectLeft handle display => s!"reference not removed: handle {handle} (object {display})"

end Warning

end HostScript
