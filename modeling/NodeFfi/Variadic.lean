import NodeFfi.TransitionSystem
import NodeFfi.TypeIds

/-! `VariadicForeignFunction`: generators that build a function for each list of
variadic types and keep it under a key joined from the types' ids. Types are
objects with an identity; `getId` stores an id on the object itself. -/
namespace NodeFfi.Variadic

/-- The identity of a type object. -/
abbrev TypeRef := Nat

/-- What a caller may name a type by. -/
inductive TypeArg
  | object (type : TypeRef)
  | name (name : String)
  deriving DecidableEq, Repr

/-- What `ref.coerceType` makes of a name: the type registered under it, or, for
`'pointer'` and names that end in `'*'`, a new type derived from the pointee. -/
inductive Naming
  | registered (type : TypeRef)
  | derived (pointee : TypeRef)
  deriving DecidableEq, Repr

/-- The type objects that exist, their prototypes and their own `_ffiId`
properties, and the module's `counter`. `numbered` lists the types that `getId`
has given an id, in order. -/
structure Types where
  allocated : Nat
  proto : TypeRef → Option TypeRef
  ffiId : TypeRef → Option (List Char)
  counter : Nat
  numbered : List TypeRef

namespace Types

/-- `Object.create(proto)`, or a new object without a type for a prototype. -/
def create (types : Types) (proto : Option TypeRef) : Types :=
  { types with
    allocated := types.allocated + 1
    proto := Function.update types.proto types.allocated proto }

/-- The read `type[idKey]`: an own property, else the prototype's. -/
def readId (types : Types) : Nat → TypeRef → Option (List Char)
  | 0, _ => none
  | depth + 1, type => (types.ffiId type).or ((types.proto type).bind (types.readId depth))

/-- The assignment `type[idKey] = ((counter++*0x10000)|0).toString(16)`. -/
def number (types : Types) (type : TypeRef) : Types :=
  { types with
    ffiId := Function.update types.ffiId type (some (idString types.counter))
    counter := types.counter + 1
    numbered := types.numbered ++ [type] }

end Types

/-- `getId`: number the type unless it has an id of its own, then read its id. -/
def getId (types : Types) (type : TypeRef) : List Char × Types :=
  let types := if (types.ffiId type).isNone then types.number type else types
  ((types.readId (types.allocated + 1) type).getD [], types)

/-- What `_ForeignFunction(CIF_var(returnType, argTypes, numFixedArgs), rtnType,
argTypes)` was built from. -/
structure Function where
  cifReturn : TypeArg
  numFixedArgs : Nat
  rtnType : TypeRef
  argTypes : List TypeRef
  deriving DecidableEq, Repr

/-- A `variadic_function_generator` with the variables it closes over. `declared`
is the constructor's `returnType`, `returnType` the property set on the function. -/
structure Generator where
  declared : TypeArg
  returnType : TypeArg
  fixedArgTypes : List TypeRef
  fixedKey : List (List Char)
  cache : List (List Char × Nat)

/-- A call that returned: the types it was made with and the function it got. -/
structure Answer where
  generator : Nat
  rtnType : TypeRef
  argTypes : List TypeRef
  function : Nat
  deriving DecidableEq, Repr

/-- The return type and the argument types, as the key has them. -/
def Function.signature (function : Function) : List TypeRef := function.rtnType :: function.argTypes

def Answer.signature (answer : Answer) : List TypeRef := answer.rtnType :: answer.argTypes

structure State where
  types : Types
  functions : List Function
  generators : List Generator
  answers : List Answer

/-- `existing` types, none of them numbered. -/
def initial (existing : Nat) : State where
  types := ⟨existing, fun _ => none, fun _ => none, 0, []⟩
  functions := []
  generators := []
  answers := []

/-- What happens: some code creates a type, or a generator, assigns a generator's
`returnType`, or calls one. For a call, `typed` variadic types pass `Type` and the
assertion after it before one does not, and `prepared` says whether `CIF_var` and
`_ForeignFunction` return. -/
inductive Label
  | newType (proto : Option TypeRef)
  | create (returnType : TypeArg) (fixedArgTypes : List TypeArg)
  | setReturnType (generator : Nat) (returnType : TypeArg)
  | call (generator : Nat) (args : List TypeArg) (typed : Nat) (prepared : Bool)
  deriving DecidableEq, Repr

section
variable (names : String → Option Naming)

/-- `ref.coerceType`; `none` is its exception. -/
def coerceType (types : Types) : TypeArg → Option TypeRef × Types
  | .object type => (if type < types.allocated then some type else none, types)
  | .name name =>
    match names name with
    | none => (none, types)
    | some (.registered type) => (some type, types)
    | some (.derived pointee) => (some types.allocated, types.create (some pointee))

/-- `fixedArgTypes.map(ref.coerceType)`. -/
def coerceTypes (types : Types) : List TypeArg → Option (List TypeRef) × Types
  | [] => (some [], types)
  | arg :: rest =>
    match coerceType names types arg with
    | (none, types) => (none, types)
    | (some type, types) =>
      match coerceTypes types rest with
      | (none, types) => (none, types)
      | (some coerced, types) => (some (type :: coerced), types)

/-- `fixedArgTypes.map(getId)`. -/
def getIds (types : Types) : List TypeRef → List (List Char) × Types
  | [] => ([], types)
  | type :: rest =>
    let (id, types) := getId types type
    let (ids, types) := getIds types rest
    (id :: ids, types)

/-- The loop over the variadic types: coerce, `Type` and its assertion, `getId`. -/
def collect (types : Types) : Nat → List TypeArg → Option (List TypeRef × List (List Char)) × Types
  | _, [] => (some ([], []), types)
  | 0, arg :: _ => (none, (coerceType names types arg).2)
  | typed + 1, arg :: rest =>
    match coerceType names types arg with
    | (none, types) => (none, types)
    | (some type, types) =>
      let (id, types) := getId types type
      match collect types typed rest with
      | (none, types) => (none, types)
      | (some (argTypes, key), types) => (some (type :: argTypes, id :: key), types)

/-- `VariadicForeignFunction`. -/
def create (s : State) (returnType : TypeArg) (fixedArgTypes : List TypeArg) : State :=
  match coerceTypes names s.types fixedArgTypes with
  | (none, types) => { s with types }
  | (some fixedArgTypes, types) =>
    let (fixedKey, types) := getIds types fixedArgTypes
    { s with
      types
      generators := s.generators ++
        [⟨returnType, returnType, fixedArgTypes, fixedKey, []⟩] }

/-- The call returns the function numbered `function`. -/
def State.answer (s : State) (g : Nat) (rtnType : TypeRef) (argTypes : List TypeRef)
    (function : Nat) : State :=
  { s with answers := s.answers ++ [⟨g, rtnType, argTypes, function⟩] }

/-- `cache[key] = _ForeignFunction(CIF_var(..), ..)`; `CIF_var` asserts that there
is a fixed argument. -/
def build (s : State) (g : Nat) (generator : Generator) (key : List Char) (rtnType : TypeRef)
    (argTypes : List TypeRef) (prepared : Bool) : State :=
  if prepared ∧ 1 ≤ generator.fixedArgTypes.length then
    let function := Function.mk generator.declared generator.fixedArgTypes.length rtnType argTypes
    let cache := (key, s.functions.length) :: generator.cache
    let built : State :=
      { s with
        functions := s.functions ++ [function]
        generators := s.generators.set g { generator with cache } }
    built.answer g rtnType argTypes s.functions.length
  else s

/-- The end of a call, once its variadic types are collected. -/
def finish (s : State) (g : Nat) (generator : Generator) (argTypes : List TypeRef)
    (key : List (List Char)) (prepared : Bool) : State :=
  match coerceType names s.types generator.returnType with
  | (none, types) => { s with types }
  | (some rtnType, types) =>
    let (rtnName, types) := getId types rtnType
    let s := { s with types }
    let argTypes := generator.fixedArgTypes ++ argTypes
    let key := rtnName ++ (generator.fixedKey ++ key).flatten
    match generator.cache.lookup key with
    | some function => s.answer g rtnType argTypes function
    | none => build s g generator key rtnType argTypes prepared

/-- `variadic_function_generator`. -/
def call (s : State) (g : Nat) (generator : Generator) (args : List TypeArg) (typed : Nat)
    (prepared : Bool) : State :=
  match collect names s.types typed args with
  | (none, types) => { s with types }
  | (some (argTypes, key), types) => finish names { s with types } g generator argTypes key prepared

def step (s : State) : Label → Option State
  | .newType proto => some { s with types := s.types.create proto }
  | .create returnType fixedArgTypes => some (create names s returnType fixedArgTypes)
  | .setReturnType g returnType =>
    s.generators[g]?.map fun generator =>
      { s with generators := s.generators.set g { generator with returnType } }
  | .call g args typed prepared =>
    s.generators[g]?.map fun generator => call names s g generator args typed prepared

end

end NodeFfi.Variadic
