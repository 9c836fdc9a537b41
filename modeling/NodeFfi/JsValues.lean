import NodeFfi.BlockMemory

/-! The JavaScript values that pass through the marshalling code, as far as it can
tell them apart: whether a value is `undefined`, whether it is truthy, whether it
is a function, and what assigning to its `message` does. -/
namespace NodeFfi
open BlockMemory

inductive ObjectKind where
  | plain (id : Nat)
  | error (name : String)
  | function (id : Nat)
  | buffer (data : Option Pointer) (length : Nat)
  deriving DecidableEq, Repr

/-- What an object does with an assignment to its `message`: a strict-mode write to
a read-only property throws, a setter can do nothing. -/
inductive Slot where
  | writable
  | readOnly
  | ignored
  deriving DecidableEq, Repr

inductive JsVal where
  | undefined
  | null
  | bool (b : Bool)
  /-- The bits of an IEEE 754 double. -/
  | number (bits : BitVec 64)
  | bigint (value : Int)
  | string (text : String)
  | symbol (id : Nat)
  /-- `message` is the text its `message` property reads as, if there is one. -/
  | object (kind : ObjectKind) (message : Option String) (slot : Slot)
  /-- An object with a getter or a trap on `message` that throws. -/
  | hostile (id : Nat) (raised : JsVal)
  deriving DecidableEq, Repr

namespace JsVal

/-- `new Error(message)` and its subclasses. -/
def error (name message : String) : JsVal := .object (.error name) (some message) .writable

def typeError (message : String) : JsVal := error "TypeError" message

def isFunction : JsVal → Bool
  | .object (.function _) _ _ => true
  | _ => false

def isObject : JsVal → Bool
  | .object _ _ _ => true
  | .hostile _ _ => true
  | _ => false

/-- Positive and negative zero, and the NaNs. -/
def zeroOrNaN (bits : BitVec 64) : Bool :=
  bits <<< 1 == 0 || (bits.extractLsb' 52 11 == BitVec.allOnes 11 && bits.extractLsb' 0 52 != 0)

/-- ECMAScript `ToBoolean`. -/
def truthy : JsVal → Bool
  | .undefined => false
  | .null => false
  | .bool b => b
  | .number bits => !zeroOrNaN bits
  | .bigint value => value != 0
  | .string text => text != ""
  | .symbol _ => true
  | .object _ _ _ => true
  | .hostile _ _ => true

/-- The strict-mode assignment `e.message = lead + e.message`: the value it leaves in
`e`, or what it throws. -/
def prependMessage (lead : String) : JsVal → Except JsVal JsVal
  | .undefined => .error (typeError "Cannot read properties of undefined (reading 'message')")
  | .null => .error (typeError "Cannot read properties of null (reading 'message')")
  | .object kind message .writable =>
    .ok (.object kind (some (lead ++ message.getD "undefined")) .writable)
  | .object _ _ .readOnly => .error (typeError "Cannot assign to read only property 'message'")
  | .object kind message .ignored => .ok (.object kind message .ignored)
  | .hostile _ raised => .error raised
  | _ => .error (typeError "Cannot create property 'message'")

/-- What a `catch (e)` that prepends to `e.message` and throws `e` throws. -/
def relabelled (lead : String) (e : JsVal) : JsVal :=
  match prependMessage lead e with
  | .ok e => e
  | .error raised => raised

/-- The error report names the argument: its message starts with `lead`. -/
def Leads (lead : String) : JsVal → Prop
  | .object _ (some message) _ => ∃ rest, message = lead ++ rest
  | _ => False

end JsVal

end NodeFfi
