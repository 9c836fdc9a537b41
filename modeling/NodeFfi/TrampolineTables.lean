import NodeFfi.LinkedNodes
import NodeFfi.TransitionSystem

/-! How libffi allocates closures where no memory may be writable and executable at once. A
page of trampolines follows a page of configuration; each trampoline finds its closure in the
slot one page before it. Tables hand such pairs out, and are in a list of which
`ffi_closure_alloc` uses the first. -/
namespace NodeFfi.TrampolineTables
open TransitionSystem LinkedNodes

/-- Where a table or a closure is. -/
abbrev Address := Nat

/-- The sizes of a target: `PAGE_MAX_SIZE`, `FFI_TRAMPOLINE_SIZE` and `sizeof (void *)`. -/
structure Pages where
  pageMaxSize : Nat
  trampolineSize : Nat
  pointerSize : Nat
  pointer_pos : 0 < pointerSize
  config_fits : 2 * pointerSize ≤ trampolineSize
  trampoline_fits : trampolineSize ≤ pageMaxSize
  few : pageMaxSize / trampolineSize < 65536

/-- `FFI_TRAMPOLINE_COUNT`. -/
def Pages.trampolineCount (p : Pages) : Nat := p.pageMaxSize / p.trampolineSize

/-- A pointer to an entry in the pool of a table. -/
structure EntryRef where
  table : Address
  index : Nat
  deriving DecidableEq, Repr

/-- `ffi_trampoline_table_entry`. -/
structure Entry where
  trampoline : Nat
  next : Option EntryRef
  deriving DecidableEq, Repr

/-- `ffi_trampoline_table`. -/
structure Table where
  configPage : Nat
  trampolinePage : Nat
  freeCount : Nat
  freeList : Option EntryRef
  freeListPool : List Entry
  prev : Option Address
  next : Option Address
  deriving DecidableEq, Repr

/-- What `ffi_prep_closure_loc` reads of a `ffi_cif`. -/
structure Cif where
  sysv : Bool
  argV : Bool
  deriving DecidableEq, Repr

/-- What a closure calls. -/
structure Handler where
  cif : Cif
  fn : Nat
  userData : Nat
  deriving DecidableEq, Repr

inductive Start where
  | closureSysv
  | closureSysvV
  deriving DecidableEq, Repr

/-- `ffi_closure`, with the code address that came with it and, from `ffi_prep_closure_loc` on,
the handler. -/
structure Closure where
  trampolineTable : Address
  trampolineTableEntry : EntryRef
  code : Nat
  handler : Option Handler
  deriving DecidableEq, Repr

/-- A pointer in a configuration page. -/
inductive Word where
  | closure (address : Address)
  | start (routine : Start)
  deriving DecidableEq, Repr

/-- The allocated tables and closures, where a configuration page is mapped with a page of
trampolines after it, and the words in configuration pages that are not null. -/
structure State where
  tables : Address → Option Table
  first : Option Address
  closures : Address → Option Closure
  pages : List Nat
  words : Nat → Option Word

def State.initial : State := ⟨fun _ => none, none, fun _ => none, [], fun _ => none⟩

/-! ## Memory -/

/-- `++` of a `uint16_t`. -/
def increment (n : Nat) : Nat := (n + 1) % 65536

/-- `--` of a `uint16_t`. -/
def decrement (n : Nat) : Nat := (65535 + n) % 65536

def State.writeTable (s : State) (a : Address) (t : Option Table) : State :=
  { s with tables := Function.update s.tables a t }

@[simp] theorem State.writeTable_self (s : State) (a : Address) (t : Option Table) : (s.writeTable a t).tables a = t :=
  Function.update_self ..

theorem State.writeTable_other (s : State) {a b : Address} (other : b ≠ a) (t : Option Table) :
    (s.writeTable a t).tables b = s.tables b :=
  Function.update_of_ne other ..

def State.changeTable (s : State) (a : Address) (f : Table → Table) : Option State :=
  (s.tables a).map fun t => s.writeTable a (some (f t))

/-- Write to a table, unless the pointer is null. -/
def State.changePointed (s : State) (f : Table → Table) : Option Address → Option State
  | none => some s
  | some a => s.changeTable a f

def State.entry (s : State) (ref : EntryRef) : Option Entry :=
  (s.tables ref.table).bind fun t => t.freeListPool[ref.index]?

def State.setNext (s : State) (ref : EntryRef) (next : Option EntryRef) : Option State := do
  let e ← s.entry ref
  s.changeTable ref.table fun t => { t with freeListPool := t.freeListPool.set ref.index { e with next } }

/-- The address is in a configuration page. -/
def State.Writable (s : State) (p : Pages) (a : Nat) : Prop :=
  ∃ page ∈ s.pages, page ≤ a ∧ a < page + p.pageMaxSize

/-- The address is in a page of trampolines. -/
def State.Executable (s : State) (p : Pages) (a : Nat) : Prop :=
  ∃ page ∈ s.pages, page + p.pageMaxSize ≤ a ∧ a < page + 2 * p.pageMaxSize

instance (s : State) (p : Pages) (a : Nat) : Decidable (s.Writable p a) :=
  inferInstanceAs (Decidable (∃ page ∈ s.pages, page ≤ a ∧ a < page + p.pageMaxSize))

instance (s : State) (p : Pages) (a : Nat) : Decidable (s.Executable p a) :=
  inferInstanceAs (Decidable (∃ page ∈ s.pages, page + p.pageMaxSize ≤ a ∧ a < page + 2 * p.pageMaxSize))

/-! ## Tables -/

/-- `ffi_trampoline_table_alloc`, in memory at `table` with pages from `configPage` on. -/
def ffiTrampolineTableAlloc (p : Pages) (table : Address) (configPage : Nat) : Table where
  configPage := configPage
  trampolinePage := configPage + p.pageMaxSize
  freeCount := p.trampolineCount
  freeList := some ⟨table, 0⟩
  freeListPool := (List.range p.trampolineCount).map fun i =>
    { trampoline := configPage + p.pageMaxSize + i * p.trampolineSize
      next := if i < p.trampolineCount - 1 then some ⟨table, i + 1⟩ else none }
  prev := none
  next := none

/-- `ffi_trampoline_table_free`; `none` where it writes to what is not allocated. -/
def ffiTrampolineTableFree (s : State) (table : Address) : Option State := do
  let t ← s.tables table
  let s ← s.changePointed (fun u => { u with next := t.next }) t.prev
  let t ← s.tables table
  let s ← s.changePointed (fun u => { u with prev := t.prev }) t.next
  return { s.writeTable table none with pages := s.pages.erase t.configPage }

/-- `table == NULL || table->free_list == NULL`. -/
def State.exhausted (s : State) : Option Bool :=
  match s.first with
  | none => some true
  | some table => (s.tables table).map fun t => t.freeList.isNone

/-- A new table at the top of the list, with pages that are full of zeros. -/
def State.addTable (s : State) (p : Pages) (table : Address) (configPage : Nat) : State where
  tables := Function.update s.tables table
    (some { ffiTrampolineTableAlloc p table configPage with next := s.first })
  first := some table
  closures := s.closures
  pages := configPage :: s.pages
  words a := if configPage ≤ a ∧ a < configPage + 2 * p.pageMaxSize then none else s.words a

/-- Insert the new table at the top of the list. -/
def State.insertTable (s : State) (p : Pages) (table : Address) (configPage : Nat) : Option State :=
  (s.addTable p table configPage).changePointed (fun u => { u with prev := some table }) s.first

/-- Claim the free entry for the closure at `closure`. -/
def State.claim (s : State) (closure : Address) : Option State := do
  let table ← s.first
  let t ← s.tables table
  let ref ← t.freeList
  let e ← s.entry ref
  let s ← s.changeTable table fun t => { t with freeList := e.next, freeCount := decrement t.freeCount }
  let s ← s.setNext ref none
  return { s with closures := Function.update s.closures closure (some ⟨table, ref, e.trampoline, none⟩) }

/-- What there is for `ffi_closure_alloc`: memory for the closure, and for a table and its pages. -/
structure Supply where
  closure : Option Address
  table : Option (Address × Nat)
  deriving DecidableEq, Repr

/-- `ffi_closure_alloc`. -/
def ffiClosureAlloc (p : Pages) (supply : Supply) (s : State) : Option State :=
  match supply.closure with
  | none => some s
  | some closure => do
    if ← s.exhausted then
      match supply.table with
      | none => return s
      | some (table, configPage) => (← s.insertTable p table configPage).claim closure
    else
      s.claim closure

/-- Bump the table to the top of the list. -/
def State.bump (s : State) (table : Address) : Option State := do
  let s' ← s.changeTable table fun t => { t with prev := none, next := s.first }
  let s' ← s'.changePointed (fun u => { u with prev := some table }) s.first
  return { s' with first := some table }

/-- Return an entry to the free list. -/
def State.release (s : State) (table : Address) (ref : EntryRef) : Option State := do
  let t ← s.tables table
  let s ← s.setNext ref t.freeList
  s.changeTable table fun t => { t with freeList := some ref, freeCount := increment t.freeCount }

/-- If all trampolines of the table are free and another table is the first one, the table is
deallocated; otherwise it is bumped to the top. -/
def State.settle (s : State) (p : Pages) (table : Address) (t : Table) : Option State :=
  if t.freeCount = p.trampolineCount ∧ s.first ≠ some table then ffiTrampolineTableFree s table
  else if s.first ≠ some table then s.bump table
  else some s

def State.forget (s : State) (closure : Address) : State :=
  { s with closures := Function.update s.closures closure none }

/-- `ffi_closure_free`. -/
def ffiClosureFree (p : Pages) (closure : Address) (s : State) : Option State := do
  let c ← s.closures closure
  let table := c.trampolineTable
  let s ← s.release table c.trampolineTableEntry
  let t ← s.tables table
  let s ← s.settle p table t
  return s.forget closure

/-! ## Closures -/

def Cif.start (cif : Cif) : Start := if cif.argV then .closureSysvV else .closureSysv

/-- `ffi_prep_closure_loc`, which refuses a `cif` with another convention. -/
def ffiPrepClosureLoc (p : Pages) (closure : Address) (handler : Handler) (codeloc : Nat) (s : State) :
    Option State :=
  if !handler.cif.sysv then some s
  else do
    let c ← s.closures closure
    let config := codeloc - p.pageMaxSize
    if p.pageMaxSize ≤ codeloc ∧ s.Writable p config ∧ s.Writable p (config + p.pointerSize) then
      some { s with
        words := Function.update (Function.update s.words config (some (.closure closure)))
          (config + p.pointerSize) (some (.start handler.cif.start))
        closures := Function.update s.closures closure (some { c with handler := some handler }) }
    else none

/-- A call of the code at `code`: the trampoline loads the two words one page before it and goes
where the second says, which calls what the closure in the first is for. -/
def State.call (s : State) (p : Pages) (code : Nat) : Option (Start × Handler) :=
  if s.Executable p code then do
    let .closure address ← s.words (code - p.pageMaxSize) | none
    let .start routine ← s.words (code - p.pageMaxSize + p.pointerSize) | none
    let closure ← s.closures address
    let handler ← closure.handler
    return (routine, handler)
  else none

/-! ## Runs -/

inductive Event where
  | alloc (supply : Supply)
  | prep (closure : Address) (handler : Handler)
  | free (closure : Address)
  deriving DecidableEq, Repr

/-- One call of the allocator; `none` where it is undefined. -/
def step (p : Pages) (s : State) : Event → Option State
  | .alloc supply => ffiClosureAlloc p supply s
  | .prep closure handler => (s.closures closure).bind fun c => ffiPrepClosureLoc p closure handler c.code s
  | .free closure => ffiClosureFree p closure s

/-- Memory is given out once, and closures are used from their allocation until they are freed. -/
def Allowed (p : Pages) (s : State) : Event → Prop
  | .alloc supply => (∀ a ∈ supply.closure, s.closures a = none) ∧ ∀ given ∈ supply.table,
      s.tables given.1 = none ∧
        ∀ page ∈ s.pages, page + 2 * p.pageMaxSize ≤ given.2 ∨ given.2 + 2 * p.pageMaxSize ≤ page
  | .prep closure _ => s.closures closure ≠ none
  | .free closure => s.closures closure ≠ none

instance (p : Pages) (s : State) : (event : Event) → Decidable (Allowed p s event)
  | .alloc supply => inferInstanceAs (Decidable ((∀ a ∈ supply.closure, s.closures a = none) ∧
      ∀ given ∈ supply.table, s.tables given.1 = none ∧
        ∀ page ∈ s.pages, page + 2 * p.pageMaxSize ≤ given.2 ∨ given.2 + 2 * p.pageMaxSize ≤ page))
  | .prep closure _ => inferInstanceAs (Decidable (s.closures closure ≠ none))
  | .free closure => inferInstanceAs (Decidable (s.closures closure ≠ none))

end NodeFfi.TrampolineTables
