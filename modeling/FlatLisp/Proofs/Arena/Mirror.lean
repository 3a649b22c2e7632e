import FlatLisp.Proofs.Arena.Preservation
import FlatLisp.Proofs.Simulation.Renaming
import FlatLisp.Session
import Mathlib.Logic.Function.Basic
import Mathlib.Logic.Relation

/-!
# Memories and worlds

In a world scopes are never taken away. A memory mirrors a world if each pin has a scope of the world
such that occupied slots hold the tables and parents of the scopes of their pins. Several pins of a
slot, one after another, have the same scope; and a pin keeps its scope, whatever becomes of slots.
-/

namespace FlatLisp

variable {E : Type}

/-! ## Renaming -/

/-- What the closures in a table capture is replaced. -/
def Table.rename (place : Nat → ScopeId) (t : Table (Value E)) : Table (Value E) :=
  t.map fun entry => (entry.1, entry.2.rename place)

namespace Value

variable {place place' : Nat → ScopeId} {v : Value E}

/-- A snapshot is renamed entry by entry. -/
theorem rename_snapshot (place : Nat → ScopeId) (id : Nat) (text : String)
    (entries : List (String × Value E)) :
    (Value.object ⟨id, text, some entries⟩).rename place =
      .object ⟨id, text, some (Table.rename place entries)⟩ := by
  rw [rename, Table.rename]

/-- The scope that a closure captures is renamed. -/
theorem rename_closure (place : Nat → ScopeId) (id : Nat) (label : Option String)
    (formals : List String) (program : Program) (p : Nat) :
    (Value.function (E := E) ⟨id, label, .closure formals program p⟩).rename place =
      .function ⟨id, label, .closure formals program (place p)⟩ := by
  rw [rename]

/-- There is nothing to rename in an object of the host. -/
theorem rename_hostObject (place : Nat → ScopeId) (id : Nat) (text : String) :
    (Value.object (E := E) ⟨id, text, none⟩).rename place = .object ⟨id, text, none⟩ := by
  simp [rename]

/-- The scope that a value captures is renamed. -/
theorem captured?_rename (place : Nat → ScopeId) (v : Value E) :
    (v.rename place).captured? = v.captured?.map place := by
  cases v with
  | function f =>
    obtain ⟨id, label, body⟩ := f
    cases body <;> simp [rename, captured?, Function.scope?]
  | object o =>
    obtain ⟨id, text, _ | entries⟩ := o
    · simp [rename, captured?]
    · simp [rename, captured?]
  | _ => simp [rename, captured?]

/-- Names of scopes do not show in the text of a value. -/
theorem render_rename (place : Nat → ScopeId) (v : Value E) : (v.rename place).render = v.render := by
  cases v with
  | function f =>
    obtain ⟨id, label, body⟩ := f
    cases body <;> simp [rename, render, Function.render]
  | object o =>
    obtain ⟨id, text, _ | entries⟩ := o
    · simp [rename]
    · simp [rename, render]
  | _ => simp [rename]

/-- The bindings of a snapshot are renamed. -/
theorem snapshot?_rename (place : Nat → ScopeId) (v : Value E) :
    (v.rename place).snapshot? = v.snapshot?.map (Table.rename place) := by
  cases v with
  | function f =>
    obtain ⟨id, label, body⟩ := f
    cases body <;> simp [rename, snapshot?]
  | object o =>
    obtain ⟨id, text, _ | entries⟩ := o
    · simp [rename, snapshot?]
    · simp [rename, snapshot?, Table.rename]
  | _ => simp [rename, snapshot?]

/-- There is nothing to rename in a plain value. -/
theorem rename_of_isPlain (h : v.isPlain = true) : v.rename place = v := by
  cases v with
  | function f =>
    obtain ⟨id, label, body⟩ := f
    cases body with
    | closure formals program s => cases h
    | _ => simp [rename]
  | object o => cases h
  | _ => simp [rename]

/-- Renaming can be done at once. -/
theorem rename_rename (place place' : Nat → ScopeId) (v : Value E) :
    (v.rename place).rename place' = v.rename (place' ∘ place) := by
  fun_induction rename place v with
  | case1 id label formals p s => simp [rename]
  | case2 id text entries ih =>
    simp only [rename, List.map_map, Value.object.injEq, ObjectOf.mk.injEq, Option.some.injEq,
      true_and]
    refine List.map_congr_left fun entry hentry => ?_
    simp only [Function.comp_apply, ih entry hentry]
  | case3 v hother hother' => rw [rename.eq_3 _ _ hother hother', rename.eq_3 _ _ hother hother']

/-- Renaming does not change the outline of a value. -/
theorem outline_rename (place : Nat → ScopeId) (v : Value E) :
    (v.rename place).outline = v.outline :=
  rename_rename place (fun _ => 0) v

/-- It matters only how the scopes are renamed that a value refers to. -/
theorem rename_congr (hclosure : ∀ p, v.captured? = some p → place p = place' p)
    (hsnapshot : ∀ o ∈ v.objects, ∀ p ∈ Object.captures o, place p = place' p) :
    v.rename place = v.rename place' := by
  fun_induction rename place v with
  | case1 id label formals p s => rw [rename, hclosure s rfl]
  | case2 id text entries ih =>
    rw [rename]
    congr 3
    refine List.map_congr_left fun entry hentry => ?_
    have hcaptures : ∀ p, entry.2.captured? = some p → place p = place' p := by
      intro p hp
      refine hsnapshot _ (mem_objects_self _) p ?_
      exact List.mem_filterMap.mpr ⟨entry, hentry, hp⟩
    have hobjects : ∀ o ∈ entry.2.objects, ∀ p ∈ Object.captures o, place p = place' p :=
      fun o ho => hsnapshot o (mem_objects_of_entry rfl hentry ho)
    rw [ih entry hentry hcaptures hobjects]
  | case3 v hother hother' => rw [rename.eq_3 _ _ hother hother']

end Value

namespace Table

variable (place : Nat → ScopeId) (t : Table (Value E)) (name : String)

/-- The value bound to a name is renamed. -/
theorem find?_rename : (t.rename place).find? name = (t.find? name).map (Value.rename place) := by
  induction t with
  | nil => rfl
  | cons entry t ih =>
    obtain ⟨key, v⟩ := entry
    unfold find? rename at ih ⊢
    rw [List.map_cons, List.lookup_cons, List.lookup_cons, ih]
    cases name == key with
    | true => rfl
    | false => rfl

/-- The value in the nearest table that binds a name is renamed. -/
theorem findSome?_rename (tables : List (Table (Value E))) :
    ((tables.map (rename place)).findSome? fun table => table.find? name) =
      (tables.findSome? fun table => table.find? name).map (Value.rename place) := by
  induction tables with
  | nil => rfl
  | cons table tables ih =>
    rw [List.map_cons, List.findSome?_cons, List.findSome?_cons, find?_rename, ih]
    cases table.find? name with
    | none => rfl
    | some v => rfl

/-- A value may be renamed before it is bound. -/
theorem rename_insert (v : Value E) :
    (t.insert name v).rename place = (t.rename place).insert name (v.rename place) := by
  simp only [rename, insert, List.map_cons, List.filter_map]
  rfl

/-- An entry may be renamed before it is sorted in. -/
theorem rename_insertNew (entry : String × Value E) :
    Table.rename place (World.insertNew entry t) =
      World.insertNew (entry.1, entry.2.rename place) (t.rename place) := by
  induction t with
  | nil => rfl
  | cons head rest ih =>
    simp only [rename, List.map_cons, World.insertNew] at ih ⊢
    split
    · rfl
    · split
      · rfl
      · rw [List.map_cons, ih]

/-- Entries may be renamed before they are sorted in. -/
theorem rename_foldl_insertNew (entries : Table (Value E)) :
    Table.rename place (entries.foldl (fun sorted entry => World.insertNew entry sorted) t) =
      (Table.rename place entries).foldl (fun sorted entry => World.insertNew entry sorted)
        (t.rename place) := by
  induction entries generalizing t with
  | nil => rfl
  | cons entry entries ih =>
    rw [List.foldl_cons, ih, rename_insertNew]
    rfl

end Table

/-- Bindings may be renamed before a snapshot is made of them. -/
theorem Value.rename_ofBindings (place : Nat → ScopeId) (id : Nat) (entries : Table (Value E)) :
    (Value.object (Object.ofBindings id entries)).rename place =
      .object (Object.ofBindings id (Table.rename place entries)) := by
  rw [Object.ofBindings, Value.rename_snapshot, Object.ofBindings]
  simp only [Table.rename, List.map_map, Function.comp_def, Value.render_rename]

/-! ## Worlds without slots -/

/-- A session whose scopes are those of a world and stay there, and what is held outside of it.
Handles, and closures wherever they are, refer to scopes. -/
structure Unswept (E : Type) extends Holdings E where
  world : World E

namespace Unswept

variable (c : Unswept E)

/-- Hold a scope. -/
def hold (s : ScopeId) : Unswept E :=
  { c with handles := c.handles ++ [s] }

/-- Hold a value. -/
def keep (v : Value E) : Unswept E :=
  { c with values := c.values ++ [v] }

/-- Give out the next number. -/
def number : Unswept E :=
  { c with world := { c.world with nextId := c.world.nextId + 1 } }

/-- Carry out an operation. Nothing is swept. -/
def perform : Operation E → Option (Value E × Unswept E)
  | .child i => do
    let s ← c.handles[i]?
    match EvalM.child s c.world with
    | (.ok t, w) => some (.empty, hold { c with world := w } t)
    | (.error _, _) => none
  | .parent i => do
    let s ← c.handles[i]?
    let scope ← c.world.scopes[s]?
    let parent ← scope.parent
    return (.empty, c.hold parent)
  | .clone i => do
    let s ← c.handles[i]?
    return (.empty, c.hold s)
  | .release i => do
    let _ ← c.handles[i]?
    return (.empty, { c with handles := c.handles.eraseIdx i })
  | .sameScope i i' => do
    let s ← c.handles[i]?
    let s' ← c.handles[i']?
    return (.bool (s == s'), c)
  | .bind i name j => do
    let s ← c.handles[i]?
    let v ← c.values[j]?
    return (.empty, { c with world := c.world.bind s name v })
  | .lookup i name => do
    let s ← c.handles[i]?
    let v ← c.world.find? s name
    return (v, c.keep v)
  | .hasLocal i name => do
    let s ← c.handles[i]?
    return (.bool (c.world.hasLocal s name), c)
  | .symbols i => do
    let s ← c.handles[i]?
    let v := .object (Object.ofBindings c.world.nextId (c.world.bindings s))
    return (v, c.number.keep v)
  | .capture i label formals program => do
    let s ← c.handles[i]?
    let v := .function ⟨c.world.nextId, label, .closure formals program s⟩
    return (v, c.number.keep v)
  | .adopt _ label formals program =>
    -- The session is number 0, and of other sessions no more is known than that they differ.
    let (w, s) := c.world.pushScope ⟨[], none, 1⟩
    let v : Value E := .function ⟨c.world.nextId, label, .closure formals program s⟩
    some (v, (number { c with world := w }).keep v)
  | .enter j => do
    let v ← c.values[j]?
    let s ← v.captured?
    let scope ← c.world.scopes[s]?
    guard (scope.session = 0)
    guard (c.handles ≠ [])
    return (.empty, c.hold s)
  | .take v => do
    guard v.isPlain
    return (v, c.keep v)
  | .make text =>
    let v : Value E := .object ⟨c.world.nextId, text, none⟩
    some (v, c.number.keep v)
  | .copy j => do
    let v ← c.values[j]?
    return (v, c.keep v)
  | .extract j name => do
    let v ← c.values[j]?
    let entries ← v.snapshot?
    let u ← Table.find? entries name
    return (u, c.keep u)
  | .discard j => do
    let _ ← c.values[j]?
    return (.empty, { c with values := c.values.eraseIdx j })
  | .sweep => some (.empty, c)

/-- A session with nothing but its root, which is held. -/
def start (host : Host E) (loader : Loader) (comments : Bool) (maxDepth : Nat) : Unswept E where
  handles := [0]
  values := []
  world := (openBare host loader comments maxDepth World.empty).2

end Unswept

/-! ## Mirrors -/

/-- The parent of the scope in a slot is in another slot. -/
def Memory.IsParent (m : Memory E) (id parent : Nat) : Prop :=
  ∃ record, m.record? id = some record ∧ record.parent = some parent

/-- A slot holds the scope of a world that its pin has. -/
def Memory.Holds (m : Memory E) (place : Nat → ScopeId) (id : Nat) (s : ScopeId) : Prop :=
  ∃ record, m.record? id = some record ∧ place record.pin = s

/-- A scope of a world is the one in a slot. -/
structure Represents (place : Nat → ScopeId) (m : Memory E) (record : Record E) (scope : Scope E) :
    Prop where
  table : scope.table = record.table.rename place
  parent : Option.Rel (m.Holds place) record.parent scope.parent
  session : scope.session = 0

/-- Each pin has a scope of a world: the slots of a memory hold the scopes of their pins, and what is
held outside, or bound, refers to the scopes of the pins that it refers to. -/
structure Mirrors (place : Nat → ScopeId) (m : Memory E) (c : Unswept E) : Prop where
  scopes {id : Nat} {record : Record E} (h : m.record? id = some record) :
    ∃ scope, c.world.scopes[place record.pin]? = some scope ∧ Represents place m record scope
  /-- No two slots have the same scope. -/
  unique {id id' : Nat} {s : ScopeId} (h : m.Holds place id s) (h' : m.Holds place id' s) : id = id'
  /-- Pins of other sessions have scopes of other sessions. -/
  elsewhere {p : Nat} (h : p < m.pins.length) (hp : m.slotOf? p = none) :
    ∃ scope, c.world.scopes[place p]? = some scope ∧ scope.session ≠ 0
  handles : c.handles = m.handles.map place
  values : c.values = m.values.map (Value.rename place)
  nextId : c.world.nextId = m.nextId
  ordered : c.world.IsOrdered

/-- The parent of a scope, if it has one, is in the slot of the parent. -/
theorem Represents.parent_cases {place : Nat → ScopeId} {m : Memory E} {record : Record E}
    {scope : Scope E} (h : Represents place m record scope) :
    (record.parent = none ∧ scope.parent = none) ∨ ∃ parent above,
      record.parent = some parent ∧ m.record? parent = some above ∧
        scope.parent = some (place above.pin) := by
  have hrel := h.parent
  generalize record.parent = below, scope.parent = above at hrel
  cases hrel with
  | none => exact .inl ⟨rfl, rfl⟩
  | some hholds =>
    obtain ⟨above, habove, rfl⟩ := hholds
    exact .inr ⟨_, above, rfl, habove, rfl⟩

namespace Mirrors

variable {place : Nat → ScopeId} {m : Memory E} {c : Unswept E} {id : Nat} {record : Record E}
  {s : ScopeId}

/-! ## Chains of parents -/

/-- The slots with scopes up to a place in the world. -/
def upTo (place : Nat → ScopeId) (m : Memory E) (s : ScopeId) : Finset Nat :=
  (Finset.range m.slots.length).filter fun id =>
    (m.record? id).any fun record => decide (place record.pin ≤ s)

/-- Which slots have scopes up to a place in the world. -/
theorem mem_upTo_iff (hrecord : m.record? id = some record) :
    id ∈ upTo place m s ↔ place record.pin ≤ s := by
  simp [upTo, hrecord, Memory.lt_of_record? hrecord]

/-- There are fewer slots with scopes up to a place further in front. -/
theorem card_upTo_lt (hrecord : m.record? id = some record) (hlt : s < place record.pin) :
    (upTo place m s).card < (upTo place m (place record.pin)).card := by
  have hsubset : upTo place m s ⊆ upTo place m (place record.pin) := by
    intro j hj
    cases hfound : m.record? j with
    | none => simp [upTo, hfound] at hj
    | some found =>
      rw [mem_upTo_iff hfound] at hj ⊢
      exact Nat.le_trans hj (Nat.le_of_lt hlt)
  refine Finset.card_lt_card ((Finset.ssubset_iff_of_subset hsubset).mpr ⟨id, ?_, ?_⟩)
  · exact (mem_upTo_iff hrecord).mpr (Nat.le_refl _)
  · exact fun hmem => absurd ((mem_upTo_iff hrecord).mp hmem) (Nat.not_le.mpr hlt)

/-- With as many steps as there are slots with scopes up to that of a slot, all tables in sight are
found. -/
theorem exists_chainWithin (h : Mirrors place m c) (hrecord : m.record? id = some record) {fuel : Nat}
    (hfuel : (upTo place m (place record.pin)).card ≤ fuel) :
    ∃ tables, m.chainWithin fuel id = some tables ∧
      c.world.visible (place record.pin) = tables.map (Table.rename place) := by
  induction fuel generalizing id record with
  | zero =>
    have hmem := (mem_upTo_iff hrecord).mpr (Nat.le_refl (place record.pin))
    exact absurd (Finset.card_pos.mpr ⟨id, hmem⟩) (Nat.not_lt.mpr hfuel)
  | succ fuel ih =>
    -- The slot itself is not among those up to the scope of its parent, so one step less will do.
    obtain ⟨scope, hscope, hrepresents⟩ := h.scopes hrecord
    rw [Arena.chainWithin, h.ordered.visible_of_scope hscope, hrepresents.table, hrecord,
      Option.bind_eq_bind, Option.bind_some]
    obtain ⟨hnone, hnone'⟩ | ⟨parent, above, hsome, habove, hsome'⟩ := hrepresents.parent_cases
    · refine ⟨[record.table], ?_, ?_⟩
      · simp only [hnone]
      · rw [hnone', Option.elim_none, List.map_singleton]
    · have hlt := h.ordered _ _ scope hscope hsome'
      have hcard := card_upTo_lt hrecord hlt
      obtain ⟨tables, htables, hvisible⟩ := ih habove (by omega)
      refine ⟨record.table :: tables, ?_, ?_⟩
      · simp only [hsome, htables]
        rfl
      · rw [hsome', Option.elim_some, hvisible, List.map_cons]

/-- The tables in sight from a slot are those in sight from its scope. -/
theorem exists_chain (h : Mirrors place m c) (hrecord : m.record? id = some record) :
    ∃ tables, m.chain id = some tables ∧
      c.world.visible (place record.pin) = tables.map (Table.rename place) := by
  refine h.exists_chainWithin hrecord ?_
  exact (Finset.card_filter_le _ _).trans_eq (Finset.card_range _)

/-- A name is looked up in the tables in sight. -/
theorem lookupWithin_of_chainWithin {fuel : Nat} {tables : List (Table (Value E))} (name : String)
    (htables : m.chainWithin fuel id = some tables) :
    m.lookupWithin name fuel id = tables.findSome? fun table => table.find? name := by
  induction fuel generalizing id tables with
  | zero => cases htables
  | succ fuel ih =>
    obtain ⟨record, hrecord, htables⟩ := Option.bind_eq_some_iff.mp htables
    rw [Arena.lookupWithin, hrecord, Option.bind_eq_bind, Option.bind_some]
    split at htables
    · next hparent =>
      cases htables
      rw [hparent, List.findSome?_cons]
      cases record.table.find? name with
      | none => rfl
      | some v => rfl
    · next parent hparent =>
      obtain ⟨rest, hrest, heq⟩ := Option.bind_eq_some_iff.mp htables
      cases heq
      rw [hparent, List.findSome?_cons]
      cases record.table.find? name with
      | none => exact ih hrest
      | some v => rfl

/-- A name is bound to the same value as seen from the scope. -/
theorem find?_eq (h : Mirrors place m c) (hrecord : m.record? id = some record) (name : String) :
    c.world.find? (place record.pin) name = (m.lookup id name).map (Value.rename place) := by
  obtain ⟨tables, htables, hvisible⟩ := h.exists_chain hrecord
  rw [Arena.lookup, lookupWithin_of_chainWithin name htables, World.find?, hvisible, Table.findSome?_rename]

/-- The same names are bound in a slot as in the scope. -/
theorem hasLocal_eq (h : Mirrors place m c) (hrecord : m.record? id = some record) (name : String) :
    c.world.hasLocal (place record.pin) name = (record.table.find? name).isSome := by
  obtain ⟨scope, hscope, hrepresents⟩ := h.scopes hrecord
  rw [World.hasLocal, hscope]
  simp only [hrepresents.table, Table.find?_rename, Option.isSome_map]

/-- The bindings in sight are the same as those seen from the scope. -/
theorem exists_bindings (h : Mirrors place m c) (hrecord : m.record? id = some record) :
    ∃ entries, m.bindings id = some entries ∧
      c.world.bindings (place record.pin) = Table.rename place entries := by
  obtain ⟨tables, htables, hvisible⟩ := h.exists_chain hrecord
  refine ⟨_, by rw [Arena.bindings, htables, Option.map_some], ?_⟩
  rw [World.bindings, hvisible, Table.rename_foldl_insertNew]
  unfold Table.rename
  rw [List.map_flatten]
  rfl

/-- Chains of parents end at the root: parents stand further in front in the world. -/
theorem reaches_root (h : Mirrors place m c) (hs : m.IsSound) (hrecord : m.record? id = some record) :
    Relation.ReflTransGen m.IsParent id 0 := by
  induction hplace : place record.pin using Nat.strong_induction_on generalizing id record with
  | _ s ih =>
    obtain ⟨scope, hscope, hrepresents⟩ := h.scopes hrecord
    obtain ⟨hnone, -⟩ | ⟨parent, above, hsome, habove, hsome'⟩ := hrepresents.parent_cases
    · rw [(hs.orphan hrecord).mp hnone]
    · have hlt := h.ordered _ _ scope hscope hsome'
      exact .head ⟨record, hrecord, hsome⟩ (ih (place above.pin) (hplace ▸ hlt) habove rfl)

end Mirrors

end FlatLisp
