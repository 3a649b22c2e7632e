import FlatLisp.Proofs.Scopes
import FlatLisp.Session
import Mathlib.Data.Finset.Card
import Mathlib.Data.Finset.Range

/-!
# Arenas

A session can keep its scopes in an arena, which takes slots back and uses them again. A slot is held
by a pin. Handles and closures refer to a pin and not to the slot, and there is one pin for a scope as
long as something refers to it; if nothing does, a new pin is made when the scope is asked for.

A sweep frees the slots that cannot be reached. It knows nothing of what is held outside of the
arena, but it can count: if more refers to the pin of a slot than the closures that are bound in the
arena, the slot is held from outside.
-/

namespace FlatLisp

variable {E : Type}

/-! ## Values that refer to scopes -/

/-- The value that is bound in an entry is smaller than a value that holds the entry. -/
theorem Value.sizeOf_entry_lt {entries : List (String × Value E)} {entry : String × Value E}
    (h : entry ∈ entries) (id : Nat) (text : String) :
    sizeOf entry.2 < sizeOf (Value.object (E := E) ⟨id, text, some entries⟩) := by
  have hmem := List.sizeOf_lt_of_mem h
  obtain ⟨name, v⟩ := entry
  simp only [Prod.mk.sizeOf_spec] at hmem
  simp only [Value.object.sizeOf_spec, ObjectOf.mk.sizeOf_spec, Option.some.sizeOf_spec]
  omega

/-- The objects in a value, at any depth. -/
def Value.objects : Value E → List (Object E)
  | .object ⟨id, text, some entries⟩ =>
    ⟨id, text, some entries⟩ :: entries.flatMap fun entry => entry.2.objects
  | .object ⟨id, text, none⟩ => [⟨id, text, none⟩]
  | _ => []
termination_by v => sizeOf v
decreasing_by exact Value.sizeOf_entry_lt (by assumption) _ _

/-- What the closures in a value capture is replaced, at any depth. -/
def Value.rename (place : Nat → ScopeId) : Value E → Value E
  | .function ⟨id, label, .closure formals p s⟩ =>
    .function ⟨id, label, .closure formals p (place s)⟩
  | .object ⟨id, text, some entries⟩ =>
    .object ⟨id, text, some (entries.map fun entry => (entry.1, entry.2.rename place))⟩
  | v => v
termination_by v => sizeOf v
decreasing_by exact Value.sizeOf_entry_lt (by assumption) _ _

/-- What the closures in a snapshot capture. -/
def Object.captures (o : Object E) : List Nat :=
  (o.snapshot.getD []).filterMap fun entry => entry.2.captured?

/-- The bindings that a snapshot holds. -/
def Value.snapshot? : Value E → Option (List (String × Value E))
  | .object o => o.snapshot
  | _ => none

/-- Whether a value is neither a closure nor an object, so that it refers to no scope. -/
def Value.isPlain : Value E → Bool
  | .object _ => false
  | v => v.captured?.isNone

/-- A value but for the scopes that closures in it capture. -/
def Value.outline (v : Value E) : Value E :=
  v.rename fun _ => 0

/-- Objects by their numbers: of those with the same number, which are copies, the last one. -/
def distinct : List (Object E) → List (Object E)
  | [] => []
  | o :: os => if os.any fun other => other.id == o.id then distinct os else o :: distinct os

/-! ## Memories -/

/-- What handles and closures refer to. A closure that is bound here may be one of another session. -/
structure Pin where
  slot : Nat
  /-- Whether the slot is one of this session. -/
  own : Bool

/-- A scope in an arena. -/
structure Record (E : Type) where
  table : Table (Value E)
  /-- The slot of the parent. -/
  parent : Option Nat
  /-- The latest pin that was made for the scope. -/
  pin : Nat

/-- Scopes in slots. -/
structure Arena (E : Type) where
  slots : List (Option (Record E))
  /-- The vacant slots, in the order in which they will be used. -/
  free : List Nat
  /-- How many slots are occupied. -/
  live : Nat
  /-- How many slots have to be occupied for a new scope to set off a sweep. -/
  threshold : Nat

/-- What is held outside of the memory for scopes: handles, and values such as operands and
results. -/
structure Holdings (E : Type) where
  handles : List Nat
  values : List (Value E)

/-- All that there is of a session. Handles, and closures wherever they are, refer to pins. -/
structure Memory (E : Type) extends Arena E, Holdings E where
  /-- All pins that were ever made. -/
  pins : List Pin
  /-- The first number that no function or object has. -/
  nextId : Nat

namespace Arena

variable (a : Arena E)

/-- The scope in a slot. -/
def record? (id : Nat) : Option (Record E) :=
  (a.slots[id]?).join

/-- The value bound to a name in the nearest scope that binds it, at most `fuel` scopes away. -/
def lookupWithin (name : String) : (fuel : Nat) → (id : Nat) → Option (Value E)
  | 0, _ => none
  | fuel + 1, id => do
    let record ← a.record? id
    match record.table.find? name with
    | some v => some v
    | none => do
      let parent ← record.parent
      lookupWithin name fuel parent

/-- The value bound to a name in the nearest scope that binds it. A chain of parents with more scopes
than there are slots would come back to itself. -/
def lookup (id : Nat) (name : String) : Option (Value E) :=
  a.lookupWithin name a.slots.length id

/-- The tables in sight from a scope, its own first, if there are at most `fuel`. -/
def chainWithin : (fuel : Nat) → (id : Nat) → Option (List (Table (Value E)))
  | 0, _ => none
  | fuel + 1, id => do
    let record ← a.record? id
    match record.parent with
    | none => some [record.table]
    | some parent => do
      let tables ← chainWithin fuel parent
      return record.table :: tables

/-- The tables in sight from a scope, its own first, unless the chain of parents has no end. -/
def chain (id : Nat) : Option (List (Table (Value E))) :=
  a.chainWithin a.slots.length id

/-- Every binding in sight from a scope, sorted by name. -/
def bindings (id : Nat) : Option (List (String × Value E)) :=
  (a.chain id).map fun tables =>
    tables.flatten.foldl (fun sorted entry => World.insertNew entry sorted) []

end Arena

namespace Memory

variable (m : Memory E)

/-- The values that are bound in scopes. -/
def bound : List (Value E) :=
  m.slots.flatMap fun slot => slot.elim [] fun record => record.table.map Prod.snd

/-- All values, bound or held. -/
def alive : List (Value E) :=
  m.bound ++ m.values

/-- All objects, at any depth. -/
def objects : List (Object E) :=
  m.alive.flatMap Value.objects

/-- How much refers to a pin: handles, copies of closures, and closures in snapshots. Copies of a
snapshot share what is in it. -/
def strong (p : Nat) : Nat :=
  m.handles.count p + (m.alive.filterMap Value.captured?).count p +
    ((distinct m.objects).flatMap Object.captures).count p

/-- The slot of a pin, if it is one of this session. -/
def slotOf? (p : Nat) : Option Nat :=
  (m.pins[p]?).bind fun pin => if pin.own then some pin.slot else none

/-- The slot that a closure was defined in. -/
def target? (v : Value E) : Option Nat :=
  v.captured?.bind m.slotOf?

/-! ## Sweeps -/

/-- How many bound closures were defined in a slot. -/
def internal (id : Nat) : Nat :=
  m.bound.countP fun v => m.target? v == some id

/-- The slots that a sweep starts from: the root, and what is held from outside. -/
def roots : List Nat :=
  (List.range m.slots.length).filter fun id => (m.record? id).any fun record =>
    id == 0 || decide (m.internal id < m.strong record.pin)

/-- The slots that a slot leads to: its parent, and where the closures bound in it were defined. -/
def successors (id : Nat) : List Nat :=
  (m.record? id).elim [] fun record =>
    record.parent.toList ++ record.table.filterMap fun entry => m.target? entry.2

/-- There is less to mark when something has been marked. -/
theorem card_unmarked_lt {n id : Nat} {marked : List Nat} (h : ¬(n ≤ id ∨ id ∈ marked)) :
    (Finset.range n \ (id :: marked).toFinset).card < (Finset.range n \ marked.toFinset).card := by
  obtain ⟨hlt, hnew⟩ := not_or.mp h
  apply Finset.card_lt_card
  refine Finset.ssubset_iff_subset_ne.mpr ⟨?_, fun heq => ?_⟩
  · apply Finset.sdiff_subset_sdiff (Finset.Subset.refl _)
    simp
  · have hid : id ∈ Finset.range n \ marked.toFinset := by
      simp only [Finset.mem_sdiff, Finset.mem_range, List.mem_toFinset]
      exact ⟨Nat.not_le.mp hlt, hnew⟩
    rw [← heq] at hid
    simp at hid

/-- Mark what is pending and all that it leads to. -/
def mark : (pending marked : List Nat) → List Nat
  | [], marked => marked
  | id :: pending, marked =>
    if m.slots.length ≤ id ∨ id ∈ marked then mark pending marked
    else mark (m.successors id ++ pending) (id :: marked)
termination_by pending marked =>
  ((Finset.range m.slots.length \ marked.toFinset).card, pending.length)
decreasing_by
  · exact Prod.Lex.right _ (Nat.lt_succ_self _)
  · next h => exact Prod.Lex.left _ _ (card_unmarked_lt h)

/-- The slots that a sweep leaves alone. -/
def marked : List Nat :=
  m.mark m.roots []

/-- The slots that a sweep frees. -/
def garbage : List Nat :=
  (List.range m.slots.length).filter fun id => (m.record? id).isSome && id ∉ m.marked

/-- Free every slot that cannot be reached from the root or from outside. -/
def sweep : Memory E :=
  { m with
    slots := m.slots.mapIdx fun id slot => if id ∈ m.marked then slot else none
    free := m.garbage.reverse ++ m.free
    live := m.live - m.garbage.length
    threshold := max (2 * (m.live - m.garbage.length)) 64 }

/-! ## Scopes -/

/-- The slot that the next scope gets. -/
def nextSlot : Nat :=
  m.free.head?.getD m.slots.length

/-- Add a scope without bindings and hold it. -/
def insert (parent : Option Nat) : Memory E :=
  let record := some ⟨[], parent, m.pins.length⟩
  { m with
    slots :=
      if m.nextSlot < m.slots.length then m.slots.set m.nextSlot record else m.slots ++ [record]
    free := m.free.tail
    live := m.live + 1
    pins := m.pins ++ [⟨m.nextSlot, true⟩]
    handles := m.handles ++ [m.pins.length] }

/-- Add a scope below another one and hold it, after a sweep if the arena is crowded. -/
def child (parent : Nat) : Memory E :=
  if m.threshold ≤ m.live then m.sweep.insert (some parent) else m.insert (some parent)

/-- Hold what a pin is for. -/
def hold (p : Nat) : Memory E :=
  { m with handles := m.handles ++ [p] }

/-- Make a new pin for a slot and hold it. -/
def repin (id : Nat) (record : Record E) : Memory E :=
  { m with
    slots := m.slots.set id (some { record with pin := m.pins.length })
    pins := m.pins ++ [⟨id, true⟩]
    handles := m.handles ++ [m.pins.length] }

/-- Hold the scope in a slot, by the pin that there is for it or by a new one. -/
def pinned (id : Nat) : Option (Memory E) :=
  (m.record? id).map fun record =>
    if 0 < m.strong record.pin then m.hold record.pin else m.repin id record

/-- Bind a name in a slot. -/
def write (id : Nat) (name : String) (v : Value E) : Memory E :=
  { m with
    slots := m.slots.modify id fun slot =>
      slot.map fun record => { record with table := record.table.insert name v } }

/-- Hold a value. -/
def keep (v : Value E) : Memory E :=
  { m with values := m.values ++ [v] }

/-- The slot of a handle. -/
def slot? (i : Nat) : Option Nat :=
  (m.handles[i]?).bind m.slotOf?

end Memory

/-! ## Operations -/

/-- What may be done with the scopes of a session. Handles and values are given by their places among
those that are held. -/
inductive Operation (E : Type) where
  /-- Add a scope below one that is held, and hold it. -/
  | child (i : Nat)
  /-- Hold the parent of a scope. -/
  | parent (i : Nat)
  /-- Hold a scope once more. -/
  | clone (i : Nat)
  /-- Let go of a scope. -/
  | release (i : Nat)
  /-- Whether two handles are of one scope. -/
  | sameScope (i i' : Nat)
  /-- Bind a name to a value. -/
  | bind (i : Nat) (name : String) (j : Nat)
  /-- Look a name up and hold what it is bound to. -/
  | lookup (i : Nat) (name : String)
  | hasLocal (i : Nat) (name : String)
  /-- Hold a snapshot of all bindings in sight. -/
  | symbols (i : Nat)
  /-- Hold a new closure over a scope. -/
  | capture (i : Nat) (label : Option String) (formals : List String) (program : Program)
  /-- Hold a closure over a scope of another session. -/
  | adopt (slot : Nat) (label : Option String) (formals : List String) (program : Program)
  /-- Hold the scope that a closure was defined in, for a call of it. -/
  | enter (j : Nat)
  /-- Hold a value from elsewhere, which refers to no scope. -/
  | take (v : Value E)
  /-- Hold a new object of the host. -/
  | make (text : String)
  /-- Hold a value once more. -/
  | copy (j : Nat)
  /-- Hold a value that is bound in a snapshot. -/
  | extract (j : Nat) (name : String)
  /-- Let go of a value. -/
  | discard (j : Nat)
  | sweep

/-- Carry out an operation. If it cannot be done then nothing changes. -/
def Memory.perform (m : Memory E) : Operation E → Option (Value E × Memory E)
  | .child i => do
    let id ← m.slot? i
    return (.empty, m.child id)
  | .parent i => do
    let id ← m.slot? i
    let record ← m.record? id
    let parent ← record.parent
    let m' ← m.pinned parent
    return (.empty, m')
  | .clone i => do
    let p ← m.handles[i]?
    return (.empty, m.hold p)
  | .release i => do
    let _ ← m.handles[i]?
    return (.empty, { m with handles := m.handles.eraseIdx i })
  | .sameScope i i' => do
    let id ← m.slot? i
    let id' ← m.slot? i'
    return (.bool (id == id'), m)
  | .bind i name j => do
    let id ← m.slot? i
    let v ← m.values[j]?
    return (.empty, m.write id name v)
  | .lookup i name => do
    let id ← m.slot? i
    let v ← m.lookup id name
    return (v, m.keep v)
  | .hasLocal i name => do
    let id ← m.slot? i
    let record ← m.record? id
    return (.bool (record.table.find? name).isSome, m)
  | .symbols i => do
    let id ← m.slot? i
    let entries ← m.bindings id
    let v := .object (Object.ofBindings m.nextId entries)
    return (v, keep { m with nextId := m.nextId + 1 } v)
  | .capture i label formals program => do
    let p ← m.handles[i]?
    let v := .function ⟨m.nextId, label, .closure formals program p⟩
    return (v, keep { m with nextId := m.nextId + 1 } v)
  | .adopt slot label formals program =>
    let v : Value E := .function ⟨m.nextId, label, .closure formals program m.pins.length⟩
    some (v, keep { m with pins := m.pins ++ [⟨slot, false⟩], nextId := m.nextId + 1 } v)
  | .enter j => do
    let v ← m.values[j]?
    let p ← v.captured?
    let _ ← m.slotOf? p
    -- A session without handles has ended, and closures do not keep it.
    guard (m.handles ≠ [])
    return (.empty, m.hold p)
  | .take v => do
    guard v.isPlain
    return (v, m.keep v)
  | .make text =>
    let v : Value E := .object ⟨m.nextId, text, none⟩
    some (v, keep { m with nextId := m.nextId + 1 } v)
  | .copy j => do
    let v ← m.values[j]?
    return (v, m.keep v)
  | .extract j name => do
    let v ← m.values[j]?
    let entries ← v.snapshot?
    let u ← Table.find? entries name
    return (u, m.keep u)
  | .discard j => do
    let _ ← m.values[j]?
    return (.empty, { m with values := m.values.eraseIdx j })
  | .sweep => some (.empty, m.sweep)

/-- A session with nothing but its root, which is held. -/
def Memory.start : Memory E :=
  Memory.insert ⟨⟨[], [], 0, 64⟩, ⟨[], []⟩, [], 0⟩ none

/-! ## Clients -/

/-- A client chooses each operation by the answers that it has got, the latest first. One that does
not look at them carries out a fixed sequence. An evaluator is a client too: to call a closure it
enters the scope of the closure, adds a scope below, binds the formals in it, and goes on with the
program (`call_closure_performed`). -/
abbrev Client (E : Type) := List (Option (Value E)) → Operation E

/-- What a client has been told, and the state after its next operation. One that cannot be done
leaves the state as it is. -/
def Client.step {S : Type} (client : Client E) (perform : S → Operation E → Option (Value E × S))
    (before : List (Option (Value E)) × S) : List (Option (Value E)) × S :=
  match perform before.2 (client before.1) with
  | none => (none :: before.1, before.2)
  | some (v, s) => (some v.outline :: before.1, s)

/-- What a client has been told after its first operations, and the state then. -/
def Client.run {S : Type} (client : Client E) (perform : S → Operation E → Option (Value E × S))
    (start : S) : Nat → List (Option (Value E)) × S
  | 0 => ([], start)
  | n + 1 => client.step perform (client.run perform start n)

end FlatLisp
