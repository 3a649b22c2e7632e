import FlatLisp.Proofs.Arena.Soundness

/-!
# Operations on sound memories

All operations keep memories sound, and a memory that has just been set up is sound.
-/

namespace FlatLisp

variable {E : Type}

namespace Memory

variable {m : Memory E} {id p : Nat} {record : Record E}

/-! ## Holding -/

/-- Whether a value may refer to a pin: something does, or the pin is one of another session. -/
def Admits (m : Memory E) (p : Nat) : Prop :=
  m.Refers p ∨ p < m.pins.length ∧ m.slotOf? p = none

/-- What is held may change as long as it refers to pins that it may refer to. -/
theorem IsSound.of_holdings (h : m.IsSound) {m' : Memory E} (harena : m'.toArena = m.toArena)
    (hpins : m'.pins = m.pins) (hrefers : ∀ p, m'.Refers p → m.Admits p)
    (hhandles : ∀ p ∈ m'.handles, (m.slotOf? p).isSome = true)
    (hunique : ∀ o ∈ m'.objects, ∀ o' ∈ m'.objects, o.id = o'.id → o = o')
    (hlt : ∀ o ∈ m'.objects, o.id < m'.nextId) : m'.IsSound := by
  have hslot : ∀ p, m'.slotOf? p = m.slotOf? p := fun p => by rw [slotOf?, slotOf?, hpins]
  refine ⟨harena ▸ h.free_nodup, harena ▸ h.mem_free, harena ▸ h.live, harena ▸ h.root,
    harena ▸ h.orphan, harena ▸ h.parent, ?_, ?_, ?_, ?_, @fun o o' ho ho' => hunique o ho o' ho',
    hlt _⟩
  · intro id record hrecord
    rw [harena] at hrecord
    rw [hslot, h.own hrecord]
  · intro p id hp hid
    rw [hslot] at hid
    rw [harena]
    rcases hrefers p hp with hold | ⟨-, helsewhere⟩
    · exact h.refers hold hid
    · rw [helsewhere] at hid
      cases hid
  · intro p hp
    rw [hpins]
    rcases hrefers p hp with hold | ⟨hlt, -⟩
    · exact h.refers_lt hold
    · exact hlt
  · intro p hp
    rw [hslot]
    exact hhandles p hp

/-- What is held may be given up or held once more. -/
theorem IsSound.of_held (h : m.IsSound) {handles : List Nat} {values : List (Value E)}
    (hrefers : ∀ p ∈ handles, m.Refers p) (hhandles : ∀ p ∈ handles, (m.slotOf? p).isSome = true)
    (hvalues : ∀ v ∈ values, v ∈ m.alive) :
    IsSound { m with handles := handles, values := values } := by
  have halive : ∀ v ∈ alive { m with handles := handles, values := values }, v ∈ m.alive := by
    intro v hv
    rcases List.mem_append.mp hv with hbound | hheld
    · exact List.mem_append_left _ hbound
    · exact hvalues v hheld
  refine h.of_holdings rfl rfl (fun p hp => .inl (hp.of_alive (hrefers p) halive)) hhandles ?_ ?_
  · intro o ho o' ho' hid
    exact h.objects_unique (mem_objects_of_alive halive ho) (mem_objects_of_alive halive ho') hid
  · exact fun o ho => h.objects_lt (mem_objects_of_alive halive ho)

/-- A scope that something refers to may be held. -/
theorem IsSound.hold (h : m.IsSound) (hp : m.Refers p) (hown : (m.slotOf? p).isSome = true) :
    (m.hold p).IsSound := by
  have hcases : ∀ q ∈ m.handles ++ [p], q ∈ m.handles ∨ q = p := by
    intro q hq
    simpa using hq
  refine h.of_held (fun q hq => ?_) (fun q hq => ?_) fun v hv => List.mem_append_right _ hv
  · rcases hcases q hq with hold | rfl
    · exact .handle hold
    · exact hp
  · rcases hcases q hq with hold | rfl
    · exact h.handles hold
    · exact hown

/-- Handles and values may be given up. -/
theorem IsSound.drop (h : m.IsSound) {handles : List Nat} {values : List (Value E)}
    (hhandles : ∀ p ∈ handles, p ∈ m.handles) (hvalues : ∀ v ∈ values, v ∈ m.values) :
    IsSound { m with handles := handles, values := values } :=
  h.of_held (fun p hp => .handle (hhandles p hp)) (fun p hp => h.handles (hhandles p hp))
    fun v hv => List.mem_append_right _ (hvalues v hv)

/-- What the objects in a new value are, and what it refers to. -/
theorem mem_objects_keep {v : Value E} {o : Object E} (h : o ∈ (m.keep v).objects) :
    o ∈ m.objects ∨ o ∈ v.objects := by
  obtain ⟨u, hu, ho⟩ := List.mem_flatMap.mp h
  have hcases : u ∈ m.alive ∨ u = v := by
    simpa [alive, keep, bound, or_assoc] using hu
  rcases hcases with hu | rfl
  · exact .inl (List.mem_flatMap.mpr ⟨u, hu, ho⟩)
  · exact .inr ho

/-- A value may be held whose closures refer to what is referred to, and whose objects are there or
have a new number. -/
theorem IsSound.keep (h : m.IsSound) {v : Value E} {n : Nat} (hn : m.nextId ≤ n)
    (hcaptured : ∀ p, v.captured? = some p → m.Admits p)
    (hobjects : ∀ o ∈ v.objects, o ∈ m.objects ∨
      v = .object o ∧ o.id = m.nextId ∧ m.nextId < n ∧ ∀ p ∈ Object.captures o, m.Refers p) :
    (Memory.keep { m with nextId := n } v).IsSound := by
  have hcases : ∀ o ∈ (Memory.keep { m with nextId := n } v).objects, o ∈ m.objects ∨
      v = .object o ∧ o.id = m.nextId ∧ m.nextId < n ∧ ∀ p ∈ Object.captures o, m.Refers p := by
    intro o ho
    rcases mem_objects_keep ho with hold | hnew
    · exact .inl hold
    · exact hobjects o hnew
  refine h.of_holdings rfl rfl (fun p hp => ?_) (fun p hp => h.handles hp) ?_ fun o ho => ?_
  · cases hp with
    | handle hp => exact .inl (.handle hp)
    | @closure u hu hp =>
      have hmem : u ∈ m.alive ∨ u = v := by
        simpa [alive, Memory.keep, bound, or_assoc] using hu
      rcases hmem with hmem | rfl
      · exact .inl (.closure hmem hp)
      · exact hcaptured p hp
    | @snapshot o ho hp =>
      rcases hcases o ho with hold | ⟨-, -, -, hnew⟩
      · exact .inl (.snapshot hold hp)
      · exact .inl (hnew p hp)
  · intro o ho o' ho' hid
    rcases hcases o ho with hold | ⟨hv, hnew, -⟩
    · rcases hcases o' ho' with hold' | ⟨-, hnew', -⟩
      · exact h.objects_unique hold hold' hid
      · have hlt := h.objects_lt hold
        omega
    · rcases hcases o' ho' with hold' | ⟨hv', -⟩
      · have hlt := h.objects_lt hold'
        omega
      · exact Value.object.inj (hv.symm.trans hv')
  · rcases hcases o ho with hold | ⟨-, hnew, hlt, -⟩
    · exact Nat.lt_of_lt_of_le (h.objects_lt hold) hn
    · exact hnew ▸ hlt

/-- A value that is there may be held once more. -/
theorem IsSound.keep_alive (h : m.IsSound) {v : Value E} (hv : v ∈ m.alive) : (m.keep v).IsSound :=
  h.keep (Nat.le_refl _) (fun _ hp => .inl (.closure hv hp))
    fun _ ho => .inl (List.mem_flatMap.mpr ⟨v, hv, ho⟩)

/-! ## Binding -/

/-- What becomes of a slot when a name is bound. -/
theorem record?_write (m : Memory E) (id : Nat) (name : String) (v : Value E) (j : Nat) :
    (m.write id name v).record? j = (m.record? j).map fun record =>
      if id = j then { record with table := record.table.insert name v } else record := by
  unfold Arena.record? write
  rw [List.getElem?_modify]
  cases m.slots[j]? with
  | none => rfl
  | some slot => cases slot <;> by_cases hj : id = j <;> simp [hj]

/-- What was in a slot before a name was bound. -/
theorem record?_of_write {name : String} {v : Value E} {j : Nat}
    (h : (m.write id name v).record? j = some record) :
    ∃ before, m.record? j = some before ∧ record.parent = before.parent ∧ record.pin = before.pin ∧
      record.table = if id = j then before.table.insert name v else before.table := by
  rw [record?_write] at h
  obtain ⟨before, hbefore, rfl⟩ := Option.map_eq_some_iff.mp h
  refine ⟨before, hbefore, ?_⟩
  split
  · exact ⟨rfl, rfl, rfl⟩
  · exact ⟨rfl, rfl, rfl⟩

/-- What is in a slot after a name was bound. -/
theorem exists_record?_write (name : String) (v : Value E) {j : Nat} (h : m.record? j = some record) :
    ∃ after, (m.write id name v).record? j = some after ∧ after.pin = record.pin := by
  rw [record?_write, h, Option.map_some]
  refine ⟨_, rfl, ?_⟩
  split
  · rfl
  · rfl

/-- Binding a value that is there brings no value into being. -/
theorem mem_alive_of_write {name : String} {v u : Value E} (hv : v ∈ m.values)
    (h : u ∈ (m.write id name v).alive) : u ∈ m.alive := by
  rcases List.mem_append.mp h with hbound | hheld
  · obtain ⟨j, record, hrecord, entry, hentry, rfl⟩ := mem_bound_iff.mp hbound
    obtain ⟨before, hbefore, -, -, htable⟩ := record?_of_write hrecord
    rw [htable] at hentry
    have hcases : entry = (name, v) ∨ entry ∈ before.table := by
      split at hentry
      · exact Table.mem_insert hentry
      · exact .inr hentry
    rcases hcases with rfl | hold
    · exact List.mem_append_right _ hv
    · exact mem_alive_of_entry hbefore hold
  · exact List.mem_append_right _ hheld

/-- A value that is held may be bound. -/
theorem IsSound.write (h : m.IsSound) (id : Nat) (name : String) {v : Value E} (hv : v ∈ m.values) :
    (m.write id name v).IsSound := by
  have halive : ∀ u ∈ (m.write id name v).alive, u ∈ m.alive := fun u => mem_alive_of_write hv
  have hrefers : ∀ {p}, (m.write id name v).Refers p → m.Refers p := fun hp =>
    hp.of_alive (fun hhandle => .handle hhandle) halive
  refine ⟨h.free_nodup, ?_, ?_, ?_, ?_, ?_, ?_, ?_, fun hp => h.refers_lt (hrefers hp), h.handles,
    ?_, ?_⟩
  · intro j
    rw [Memory.write, List.getElem?_modify, h.mem_free]
    cases m.slots[j]? with
    | none => simp
    | some slot => cases slot <;> by_cases hj : id = j <;> simp [hj]
  · rw [countP_slots_congr (a := m.toArena) (List.length_modify _ _ _) fun j => ?_]
    · exact h.live
    · rw [record?_write, Option.isSome_map]
  · obtain ⟨record, hroot⟩ := h.root
    obtain ⟨after, hafter, -⟩ := exists_record?_write name v hroot
    exact ⟨after, hafter⟩
  · intro j record hafter
    obtain ⟨before, hbefore, hparent, -⟩ := record?_of_write hafter
    rw [hparent]
    exact h.orphan hbefore
  · intro j parent record hafter hparent
    obtain ⟨before, hbefore, heq, -⟩ := record?_of_write hafter
    obtain ⟨above, habove⟩ := h.parent hbefore (heq ▸ hparent)
    obtain ⟨after, hfound, -⟩ := exists_record?_write name v habove
    exact ⟨after, hfound⟩
  · intro j record hafter
    obtain ⟨before, hbefore, -, hpin, -⟩ := record?_of_write hafter
    rw [hpin]
    exact h.own hbefore
  · intro p j hp hid
    obtain ⟨record, hfound, hpin⟩ := h.refers (hrefers hp) hid
    obtain ⟨after, hafter, heq⟩ := exists_record?_write name v hfound
    exact ⟨after, hafter, heq.trans hpin⟩
  · intro o o' ho ho' hid
    exact h.objects_unique (mem_objects_of_alive halive ho) (mem_objects_of_alive halive ho') hid
  · exact fun ho => h.objects_lt (mem_objects_of_alive halive ho)

/-! ## New pins -/

/-- Pins of this session were made. -/
theorem lt_of_slotOf? (h : m.slotOf? p = some id) : p < m.pins.length := by
  obtain ⟨pin, hpin, -⟩ := Option.bind_eq_some_iff.mp h
  exact (List.getElem?_eq_some_iff.mp hpin).1

/-- A new pin leaves the slots of the others as they are. -/
theorem slotOf?_of_lt {m' : Memory E} {pin : Pin} (hpins : m'.pins = m.pins ++ [pin])
    (hp : p < m.pins.length) : m'.slotOf? p = m.slotOf? p := by
  rw [slotOf?, slotOf?, hpins, List.getElem?_append_left hp]

/-- The slot of a new pin. -/
theorem slotOf?_length {m' : Memory E} {pin : Pin} (hpins : m'.pins = m.pins ++ [pin]) :
    m'.slotOf? m.pins.length = if pin.own then some pin.slot else none := by
  rw [slotOf?, hpins, List.getElem?_concat_length, Option.bind_some]

/-- A pin of another session changes nothing. -/
theorem IsSound.foreignPin (h : m.IsSound) (slot : Nat) :
    IsSound { m with pins := m.pins ++ [⟨slot, false⟩] } := by
  have hslot : ∀ {p}, p < m.pins.length →
      slotOf? { m with pins := m.pins ++ [⟨slot, false⟩] } p = m.slotOf? p :=
    fun hp => slotOf?_of_lt rfl hp
  have hrefers : ∀ {p}, Refers { m with pins := m.pins ++ [⟨slot, false⟩] } p → m.Refers p :=
    fun hp => hp.of_alive (fun hhandle => .handle hhandle) fun _ hv => hv
  refine ⟨h.free_nodup, h.mem_free, h.live, h.root, h.orphan, h.parent, ?_, ?_, ?_, ?_,
    h.objects_unique, h.objects_lt⟩
  · intro id record hrecord
    rw [hslot (lt_of_slotOf? (h.own hrecord)), h.own hrecord]
  · intro p id hp hid
    rw [hslot (h.refers_lt (hrefers hp))] at hid
    exact h.refers (hrefers hp) hid
  · intro p hp
    have hlt := h.refers_lt (hrefers hp)
    simp only [List.length_append, List.length_singleton]
    omega
  · intro p hp
    rw [hslot (h.refers_lt (.handle hp))]
    exact h.handles hp

/-- A slot is given a scope or a pin and is held by it, and nothing else happens. -/
structure Renews (m m' : Memory E) (id : Nat) (new : Record E) : Prop where
  record? (j : Nat) : m'.record? j = if j = id then some new else m.record? j
  pin : new.pin = m.pins.length
  /-- There are no new bindings. -/
  table : ∀ entry ∈ new.table, ∃ record, m.record? id = some record ∧ entry ∈ record.table
  pins : m'.pins = m.pins ++ [⟨id, true⟩]
  handles : m'.handles = m.handles ++ [m.pins.length]
  values : m'.values = m.values
  nextId : m'.nextId = m.nextId

/-- No value comes into being when a slot is given a scope or a pin. -/
theorem Renews.mem_alive {m' : Memory E} {new : Record E} (hr : m.Renews m' id new) {v : Value E}
    (hv : v ∈ m'.alive) : v ∈ m.alive := by
  rcases List.mem_append.mp hv with hbound | hheld
  · obtain ⟨j, record, hj, entry, hentry, rfl⟩ := mem_bound_iff.mp hbound
    rw [hr.record?] at hj
    split at hj
    · cases hj
      obtain ⟨before, hbefore, hold⟩ := hr.table entry hentry
      exact mem_alive_of_entry hbefore hold
    · exact mem_alive_of_entry hj hentry
  · exact List.mem_append_right _ (hr.values ▸ hheld)

/-- A slot may be given a scope or a pin if nothing refers to pins that it had. -/
theorem IsSound.renew (h : m.IsSound) {m' : Memory E} {new : Record E} (hr : m.Renews m' id new)
    (hunused : ∀ p, m.Refers p → m.slotOf? p ≠ some id) (horphan : new.parent = none ↔ id = 0)
    (hparent : ∀ parent, new.parent = some parent → ∃ above, m.record? parent = some above)
    (hnodup : m'.free.Nodup) (hfree : ∀ {j}, j ∈ m'.free ↔ m'.slots[j]? = some none)
    (hlive : m'.live = m'.slots.countP Option.isSome) : m'.IsSound := by
  have hslot : ∀ {p}, p < m.pins.length → m'.slotOf? p = m.slotOf? p :=
    fun hp => slotOf?_of_lt hr.pins hp
  have hslotNew : m'.slotOf? m.pins.length = some id := slotOf?_length hr.pins
  have halive : ∀ v ∈ m'.alive, v ∈ m.alive := fun v hv => hr.mem_alive hv
  have hrefers : ∀ {p}, m'.Refers p → p = m.pins.length ∨ m.Refers p := by
    intro p hp
    by_cases heq : p = m.pins.length
    · exact .inl heq
    · refine .inr (hp.of_alive (fun hhandle => .handle ?_) halive)
      simpa [hr.handles, heq] using hhandle
  have hexists : ∀ {j record}, m.record? j = some record → ∃ after, m'.record? j = some after := by
    intro j record hold
    rw [hr.record?]
    split
    · exact ⟨new, rfl⟩
    · exact ⟨record, hold⟩
  refine ⟨hnodup, hfree, hlive, ?_, ?_, ?_, ?_, ?_, ?_, ?_, ?_, ?_⟩
  · obtain ⟨record, hroot⟩ := h.root
    exact hexists hroot
  · intro j record hj
    rw [hr.record?] at hj
    split at hj
    · next heq =>
      cases hj
      rw [heq]
      exact horphan
    · exact h.orphan hj
  · intro j parent record hj habove
    have hbefore : ∃ above, m.record? parent = some above := by
      rw [hr.record?] at hj
      split at hj
      · cases hj
        exact hparent parent habove
      · exact h.parent hj habove
    obtain ⟨above, hbefore⟩ := hbefore
    exact hexists hbefore
  · intro j record hj
    rw [hr.record?] at hj
    split at hj
    · next heq =>
      cases hj
      rw [hr.pin, hslotNew, heq]
    · rw [hslot (lt_of_slotOf? (h.own hj)), h.own hj]
  · intro p j hp hj
    rcases hrefers hp with rfl | hold
    · rw [hslotNew] at hj
      cases hj
      exact ⟨new, by rw [hr.record?, if_pos rfl], hr.pin⟩
    · rw [hslot (h.refers_lt hold)] at hj
      obtain ⟨record, hfound, hown⟩ := h.refers hold hj
      have hne : j ≠ id := fun heq => hunused p hold (heq ▸ hj)
      exact ⟨record, by rw [hr.record?, if_neg hne, hfound], hown⟩
  · intro p hp
    rw [hr.pins, List.length_append, List.length_singleton]
    rcases hrefers hp with rfl | hold
    · omega
    · have hlt := h.refers_lt hold
      omega
  · intro p hp
    rcases hrefers (.handle hp) with rfl | hold
    · rw [hslotNew]
      rfl
    · have hlt := h.refers_lt hold
      have hbefore : p ∈ m.handles := by
        simpa [hr.handles, Nat.ne_of_lt hlt] using hp
      rw [hslot hlt]
      exact h.handles hbefore
  · intro o o' ho ho' hid
    exact h.objects_unique (mem_objects_of_alive halive ho) (mem_objects_of_alive halive ho') hid
  · intro o ho
    rw [hr.nextId]
    exact h.objects_lt (mem_objects_of_alive halive ho)

/-! ## Scopes -/

/-- The next slot is the first behind all slots, or else a vacant one that is taken from the free
ones. -/
theorem IsSound.nextSlot_cases (h : m.IsSound) :
    (m.nextSlot = m.slots.length ∧ m.free = []) ∨
      (m.slots[m.nextSlot]? = some none ∧ m.free = m.nextSlot :: m.free.tail) := by
  cases hfree : m.free with
  | nil => exact .inl ⟨by simp [nextSlot, hfree], rfl⟩
  | cons id rest =>
    have hnext : m.nextSlot = id := by simp [nextSlot, hfree]
    have hvacant := h.mem_free.mp (hfree ▸ List.mem_cons_self : id ∈ m.free)
    exact .inr ⟨hnext ▸ hvacant, by rw [hnext, List.tail_cons]⟩

/-- The next slot is vacant. -/
theorem IsSound.record?_nextSlot (h : m.IsSound) : m.record? m.nextSlot = none := by
  rcases h.nextSlot_cases with ⟨hnext, -⟩ | ⟨hvacant, -⟩
  · rw [hnext]
    simp [Arena.record?]
  · rw [Arena.record?, hvacant]
    rfl

/-- A new scope is in the next slot. -/
theorem IsSound.getElem?_insert (h : m.IsSound) (parent : Option Nat) (j : Nat) :
    (m.insert parent).slots[j]? =
      if j = m.nextSlot then some (some ⟨[], parent, m.pins.length⟩) else m.slots[j]? := by
  unfold insert
  dsimp only
  rcases h.nextSlot_cases with ⟨hnext, -⟩ | ⟨hvacant, -⟩
  · rw [if_neg (hnext ▸ Nat.lt_irrefl _), hnext, List.getElem?_append]
    grind
  · have hlt := (List.getElem?_eq_some_iff.mp hvacant).1
    rw [if_pos hlt, List.getElem?_set]
    grind

/-- A new scope is in the next slot. -/
theorem IsSound.record?_insert (h : m.IsSound) (parent : Option Nat) (j : Nat) :
    (m.insert parent).record? j =
      if j = m.nextSlot then some ⟨[], parent, m.pins.length⟩ else m.record? j := by
  rw [Arena.record?, h.getElem?_insert]
  split
  · rfl
  · rfl

/-- A new scope is given to the next slot. -/
theorem IsSound.renews_insert (h : m.IsSound) (parent : Option Nat) :
    m.Renews (m.insert parent) m.nextSlot ⟨[], parent, m.pins.length⟩ :=
  ⟨h.record?_insert parent, rfl, nofun, rfl, rfl, rfl, rfl⟩

/-- One more slot is occupied when there is a new scope. -/
theorem IsSound.live_insert (h : m.IsSound) (parent : Option Nat) :
    (m.insert parent).live = (m.insert parent).slots.countP Option.isSome := by
  unfold insert
  dsimp only
  rcases h.nextSlot_cases with ⟨hnext, -⟩ | ⟨hvacant, -⟩
  · rw [if_neg (hnext ▸ Nat.lt_irrefl _), List.countP_append, ← h.live]
    rfl
  · obtain ⟨hlt, hnone⟩ := List.getElem?_eq_some_iff.mp hvacant
    rw [if_pos hlt, List.countP_set hlt, hnone, ← h.live]
    simp

/-- Free slots after a new scope are the vacant ones. -/
theorem IsSound.mem_free_insert (h : m.IsSound) (parent : Option Nat) :
    id ∈ (m.insert parent).free ↔ (m.insert parent).slots[id]? = some none := by
  have hbefore : id ∈ m.free ↔ m.slots[id]? = some none := h.mem_free
  rw [h.getElem?_insert]
  change id ∈ m.free.tail ↔ _
  rcases h.nextSlot_cases with ⟨-, hfree⟩ | ⟨-, hfree⟩
  · rw [hfree] at hbefore ⊢
    split
    · simp
    · simpa using hbefore
  · have hnodup := h.free_nodup
    rw [hfree] at hbefore hnodup
    split
    · next heq =>
      rw [heq]
      simpa using (List.nodup_cons.mp hnodup).1
    · next hne => simpa [hne] using hbefore

/-- A scope may be added below one that there is. -/
theorem IsSound.insert (h : m.IsSound) {parent : Nat} {above : Record E}
    (habove : m.record? parent = some above) : (m.insert (some parent)).IsSound := by
  have hvacant := h.record?_nextSlot
  refine h.renew (h.renews_insert _) ?_ ?_ ?_ ?_ (h.mem_free_insert _) (h.live_insert _)
  · intro p hp hslot
    obtain ⟨record, hfound, -⟩ := h.refers hp hslot
    rw [hvacant] at hfound
    cases hfound
  · obtain ⟨root, hroot⟩ := h.root
    have hne : m.nextSlot ≠ 0 := by
      intro heq
      rw [heq, hroot] at hvacant
      cases hvacant
    simp [hne]
  · intro q hq
    cases hq
    exact ⟨above, habove⟩
  · exact h.free_nodup.sublist (List.tail_sublist _)

/-- A scope may be added below one that there is, after a sweep if need be, as long as the one above
is held. -/
theorem IsSound.child (h : m.IsSound) {parent : Nat} {above : Record E}
    (habove : m.record? parent = some above) (hheld : above.pin ∈ m.handles) :
    (m.child parent).IsSound := by
  unfold Memory.child
  split
  · exact h.sweep.insert (h.record?_sweep_of_held habove hheld)
  · exact h.insert habove

/-- Only what refers to a pin is counted. -/
theorem refers_of_strong_pos (h : 0 < m.strong p) : m.Refers p := by
  by_contra hnone
  have hhandles : m.handles.count p = 0 := List.count_eq_zero.mpr fun hp => hnone (.handle hp)
  have hclosures : (m.alive.filterMap Value.captured?).count p = 0 := by
    refine List.count_eq_zero.mpr fun hp => ?_
    obtain ⟨v, hv, hcaptured⟩ := List.mem_filterMap.mp hp
    exact hnone (.closure hv hcaptured)
  have hsnapshots : ((distinct m.objects).flatMap Object.captures).count p = 0 := by
    refine List.count_eq_zero.mpr fun hp => ?_
    obtain ⟨o, ho, hcaptured⟩ := List.mem_flatMap.mp hp
    exact hnone (.snapshot (mem_of_mem_distinct ho) hcaptured)
  rw [strong, hhandles, hclosures, hsnapshots] at h
  exact Nat.lt_irrefl 0 h

/-- What becomes of a slot when another gets a new pin. -/
theorem getElem?_repin (hrecord : m.record? id = some record) (j : Nat) :
    (m.repin id record).slots[j]? =
      if j = id then some (some { record with pin := m.pins.length }) else m.slots[j]? := by
  have hlt := lt_of_record? hrecord
  rw [repin, List.getElem?_set]
  grind

/-- A new pin is given to a slot. -/
theorem renews_repin (hrecord : m.record? id = some record) :
    m.Renews (m.repin id record) id { record with pin := m.pins.length } := by
  refine ⟨fun j => ?_, rfl, fun entry hentry => ⟨record, hrecord, hentry⟩, rfl, rfl, rfl, rfl⟩
  rw [Arena.record?, getElem?_repin hrecord]
  split
  · rfl
  · rfl

/-- A slot may be given a new pin if nothing refers to the one that it has. -/
theorem IsSound.repin (h : m.IsSound) (hrecord : m.record? id = some record)
    (hunused : ¬m.Refers record.pin) : (m.repin id record).IsSound := by
  have hslot := Arena.record?_eq_some_iff.mp hrecord
  have horphan := h.orphan hrecord
  refine h.renew (renews_repin hrecord) ?_ horphan (fun parent hparent => h.parent hrecord hparent)
    h.free_nodup ?_ ?_
  · intro p hp hid
    obtain ⟨found, hfound, rfl⟩ := h.refers hp hid
    rw [hrecord] at hfound
    cases hfound
    exact hunused hp
  · intro j
    rw [getElem?_repin hrecord]
    change j ∈ m.free ↔ _
    rw [h.mem_free]
    split
    · next heq => simp [heq, hslot]
    · rfl
  · have hoccupied : ∀ j, ((m.repin id record).record? j).isSome = (m.record? j).isSome := by
      intro j
      rw [(renews_repin hrecord).record?]
      split
      · next heq => rw [heq, hrecord]; rfl
      · rfl
    rw [countP_slots_congr (a := m.toArena) List.length_set hoccupied]
    exact h.live

/-- A scope that there is may be held. -/
theorem IsSound.pinned (h : m.IsSound) {m' : Memory E} (hm' : m.pinned id = some m') : m'.IsSound := by
  obtain ⟨record, hrecord, rfl⟩ := Option.map_eq_some_iff.mp hm'
  split
  · next hstrong =>
    exact h.hold (refers_of_strong_pos hstrong) (by rw [h.own hrecord]; rfl)
  · next hstrong => exact h.repin hrecord fun hp => hstrong (h.strong_pos hp)

/-! ## What can be found -/

/-- A value that is found is bound. -/
theorem mem_alive_of_lookupWithin {name : String} {v : Value E} {fuel : Nat}
    (h : m.lookupWithin name fuel id = some v) : v ∈ m.alive := by
  induction fuel generalizing id with
  | zero => cases h
  | succ fuel ih =>
    obtain ⟨record, hrecord, hfound⟩ := Option.bind_eq_some_iff.mp h
    split at hfound
    · next u hu =>
      cases hfound
      exact mem_alive_of_entry hrecord (Table.mem_of_find? hu)
    · obtain ⟨parent, -, hfound⟩ := Option.bind_eq_some_iff.mp hfound
      exact ih hfound

/-- Tables in sight are tables of slots. -/
theorem exists_record_of_mem_chainWithin {fuel : Nat} {tables : List (Table (Value E))}
    (h : m.chainWithin fuel id = some tables) {table : Table (Value E)} (ht : table ∈ tables) :
    ∃ j record, m.record? j = some record ∧ record.table = table := by
  induction fuel generalizing id tables with
  | zero => cases h
  | succ fuel ih =>
    obtain ⟨record, hrecord, htables⟩ := Option.bind_eq_some_iff.mp h
    split at htables
    · cases htables
      rw [List.mem_singleton.mp ht]
      exact ⟨id, record, hrecord, rfl⟩
    · obtain ⟨rest, hrest, heq⟩ := Option.bind_eq_some_iff.mp htables
      cases heq
      rcases List.mem_cons.mp ht with rfl | ht
      · exact ⟨id, record, hrecord, rfl⟩
      · exact ih hrest ht

/-- Bindings in sight bind values that there are. -/
theorem mem_alive_of_mem_bindings {entries : List (String × Value E)}
    (h : m.bindings id = some entries) {entry : String × Value E} (he : entry ∈ entries) :
    entry.2 ∈ m.alive := by
  obtain ⟨tables, htables, rfl⟩ := Option.map_eq_some_iff.mp h
  rcases World.mem_foldl_insertNew he with he | he
  · cases he
  · obtain ⟨table, htable, hentry⟩ := List.mem_flatten.mp he
    obtain ⟨j, record, hrecord, rfl⟩ := exists_record_of_mem_chainWithin htables htable
    exact mem_alive_of_entry hrecord hentry

/-- A new object of the host may be held. -/
theorem IsSound.keep_hostObject (h : m.IsSound) (text : String) :
    (Memory.keep { m with nextId := m.nextId + 1 } (.object ⟨m.nextId, text, none⟩)).IsSound := by
  refine h.keep (Nat.le_succ _) nofun fun o ho => ?_
  rw [Value.objects, List.mem_singleton] at ho
  rw [ho]
  exact .inr ⟨rfl, rfl, Nat.lt_succ_self _, fun p hp => absurd hp List.not_mem_nil⟩

/-- A snapshot of values that there are may be held. -/
theorem IsSound.keep_snapshot (h : m.IsSound) {entries : List (String × Value E)}
    (he : ∀ entry ∈ entries, entry.2 ∈ m.alive) :
    (Memory.keep { m with nextId := m.nextId + 1 }
      (.object (Object.ofBindings m.nextId entries))).IsSound := by
  refine h.keep (Nat.le_succ _) nofun fun o ho => ?_
  rw [Object.ofBindings, Value.objects] at ho
  rcases List.mem_cons.mp ho with rfl | ho
  · refine .inr ⟨rfl, rfl, Nat.lt_succ_self _, fun p hp => ?_⟩
    obtain ⟨entry, hentry, hcaptured⟩ := List.mem_filterMap.mp hp
    exact .closure (he entry hentry) hcaptured
  · obtain ⟨entry, hentry, ho⟩ := List.mem_flatMap.mp ho
    exact .inl (List.mem_flatMap.mpr ⟨entry.2, he entry hentry, ho⟩)

/-- What is bound in a snapshot may be held. -/
theorem IsSound.keep_extracted (h : m.IsSound) {v u : Value E} {name : String}
    {entries : List (String × Value E)} (hv : v ∈ m.alive) (hs : v.snapshot? = some entries)
    (hu : Table.find? entries name = some u) : (m.keep u).IsSound := by
  have hentry := Table.mem_of_find? hu
  refine h.keep (Nat.le_refl _) (fun p hp => .inl ?_) fun o ho => .inl ?_
  · cases v with
    | object snapshot =>
      refine .snapshot (o := snapshot) ?_ ?_
      · exact List.mem_flatMap.mpr ⟨_, hv, Value.mem_objects_self snapshot⟩
      · have hs : snapshot.snapshot = some entries := hs
        rw [Object.captures, hs]
        exact List.mem_filterMap.mpr ⟨_, hentry, hp⟩
    | _ => cases hs
  · exact List.mem_flatMap.mpr ⟨v, hv, Value.mem_objects_of_entry hs hentry ho⟩

/-! ## Operations -/

/-- A handle is of an occupied slot. -/
theorem IsSound.exists_record_of_slot? (h : m.IsSound) {i : Nat} (hi : m.slot? i = some id) :
    ∃ record, m.record? id = some record ∧ record.pin ∈ m.handles := by
  obtain ⟨p, hp, hid⟩ := Option.bind_eq_some_iff.mp hi
  have hmem := List.mem_of_getElem? hp
  obtain ⟨record, hrecord, rfl⟩ := h.refers (.handle hmem) hid
  exact ⟨record, hrecord, hmem⟩

/-- There is nothing but the root at first. -/
theorem record?_start (h : start.record? id = some record) : id = 0 ∧ record = ⟨[], none, 0⟩ := by
  cases id with
  | zero =>
    cases h
    exact ⟨rfl, rfl⟩
  | succ id => simp [start, insert, nextSlot, Arena.record?] at h

/-- A memory that has just been set up is sound. -/
theorem isSound_start : (start : Memory E).IsSound := by
  have hpin : ∀ {p}, (start : Memory E).Refers p → p = 0 := by
    intro p hp
    cases hp with
    | handle hp => exact List.mem_singleton.mp hp
    | closure hv _ => cases hv
    | snapshot ho _ => cases ho
  refine ⟨List.nodup_nil, ?_, rfl, ⟨_, rfl⟩, ?_, ?_, ?_, ?_, ?_, ?_, nofun, nofun⟩
  · intro id
    cases id with
    | zero => simp [start, insert, nextSlot]
    | succ id => simp [start, insert, nextSlot]
  · intro id record h
    obtain ⟨rfl, rfl⟩ := record?_start h
    simp
  · intro id parent record h hparent
    obtain ⟨-, rfl⟩ := record?_start h
    cases hparent
  · intro id record h
    obtain ⟨rfl, rfl⟩ := record?_start h
    rfl
  · intro p id hp hid
    rw [hpin hp] at hid ⊢
    cases hid
    exact ⟨_, rfl, rfl⟩
  · intro p hp
    rw [hpin hp]
    exact Nat.zero_lt_one
  · intro p hp
    rw [hpin (.handle hp)]
    rfl

/-- Operations keep memories sound. -/
theorem IsSound.perform (h : m.IsSound) {op : Operation E} {v : Value E} {m' : Memory E}
    (hop : m.perform op = some (v, m')) : m'.IsSound := by
  cases op with
  | child i =>
    obtain ⟨id, hid, heq⟩ := Option.bind_eq_some_iff.mp hop
    cases heq
    obtain ⟨record, hrecord, hheld⟩ := h.exists_record_of_slot? hid
    exact h.child hrecord hheld
  | parent i =>
    obtain ⟨id, -, hop⟩ := Option.bind_eq_some_iff.mp hop
    obtain ⟨record, -, hop⟩ := Option.bind_eq_some_iff.mp hop
    obtain ⟨parent, -, hop⟩ := Option.bind_eq_some_iff.mp hop
    obtain ⟨m', hm', heq⟩ := Option.bind_eq_some_iff.mp hop
    cases heq
    exact h.pinned hm'
  | clone i =>
    obtain ⟨p, hp, heq⟩ := Option.bind_eq_some_iff.mp hop
    cases heq
    have hmem := List.mem_of_getElem? hp
    exact h.hold (.handle hmem) (h.handles hmem)
  | release i =>
    obtain ⟨p, -, heq⟩ := Option.bind_eq_some_iff.mp hop
    cases heq
    exact h.drop (fun p hp => List.mem_of_mem_eraseIdx hp) fun v hv => hv
  | sameScope i i' =>
    obtain ⟨id, -, hop⟩ := Option.bind_eq_some_iff.mp hop
    obtain ⟨id', -, heq⟩ := Option.bind_eq_some_iff.mp hop
    cases heq
    exact h
  | bind i name j =>
    obtain ⟨id, -, hop⟩ := Option.bind_eq_some_iff.mp hop
    obtain ⟨u, hu, heq⟩ := Option.bind_eq_some_iff.mp hop
    cases heq
    exact h.write id name (List.mem_of_getElem? hu)
  | lookup i name =>
    obtain ⟨id, -, hop⟩ := Option.bind_eq_some_iff.mp hop
    obtain ⟨u, hu, heq⟩ := Option.bind_eq_some_iff.mp hop
    cases heq
    exact h.keep_alive (mem_alive_of_lookupWithin hu)
  | hasLocal i name =>
    obtain ⟨id, -, hop⟩ := Option.bind_eq_some_iff.mp hop
    obtain ⟨record, -, heq⟩ := Option.bind_eq_some_iff.mp hop
    cases heq
    exact h
  | symbols i =>
    obtain ⟨id, -, hop⟩ := Option.bind_eq_some_iff.mp hop
    obtain ⟨entries, hentries, heq⟩ := Option.bind_eq_some_iff.mp hop
    cases heq
    exact h.keep_snapshot fun entry he => mem_alive_of_mem_bindings hentries he
  | capture i label formals program =>
    obtain ⟨p, hp, heq⟩ := Option.bind_eq_some_iff.mp hop
    cases heq
    refine h.keep (Nat.le_succ _) (fun q hq => ?_) fun o ho => ?_
    · cases hq
      exact .inl (.handle (List.mem_of_getElem? hp))
    · rw [Value.objects_function] at ho
      cases ho
  | adopt slot label formals program =>
    cases hop
    refine (h.foreignPin slot).keep (Nat.le_succ _) (fun q hq => ?_) fun o ho => ?_
    · cases hq
      exact .inr ⟨by simp, by simp [slotOf?]⟩
    · rw [Value.objects_function] at ho
      cases ho
  | enter j =>
    obtain ⟨u, hu, hop⟩ := Option.bind_eq_some_iff.mp hop
    obtain ⟨p, hp, hop⟩ := Option.bind_eq_some_iff.mp hop
    obtain ⟨id, hid, hop⟩ := Option.bind_eq_some_iff.mp hop
    obtain ⟨-, -, heq⟩ := Option.bind_eq_some_iff.mp hop
    cases heq
    have hrefers : m.Refers p := .closure (List.mem_append_right _ (List.mem_of_getElem? hu)) hp
    exact h.hold hrefers (by rw [hid]; rfl)
  | take u =>
    obtain ⟨_, hguard, heq⟩ := Option.bind_eq_some_iff.mp hop
    have hplain : u.isPlain = true := by simpa using hguard
    cases heq
    refine h.keep (Nat.le_refl _) (fun p hp => ?_) fun o ho => ?_
    · rw [Value.captured?_of_isPlain hplain] at hp
      cases hp
    · rw [Value.objects_of_isPlain hplain] at ho
      cases ho
  | make text =>
    cases hop
    exact h.keep_hostObject text
  | copy j =>
    obtain ⟨u, hu, heq⟩ := Option.bind_eq_some_iff.mp hop
    cases heq
    exact h.keep_alive (List.mem_append_right _ (List.mem_of_getElem? hu))
  | extract j name =>
    obtain ⟨u, hu, hop⟩ := Option.bind_eq_some_iff.mp hop
    obtain ⟨entries, hentries, hop⟩ := Option.bind_eq_some_iff.mp hop
    obtain ⟨bound, hbound, heq⟩ := Option.bind_eq_some_iff.mp hop
    cases heq
    exact h.keep_extracted (List.mem_append_right _ (List.mem_of_getElem? hu)) hentries hbound
  | discard j =>
    obtain ⟨u, -, heq⟩ := Option.bind_eq_some_iff.mp hop
    cases heq
    exact h.drop (fun p hp => hp) fun v hv => List.mem_of_mem_eraseIdx hv
  | sweep =>
    cases hop
    exact h.sweep

end Memory

end FlatLisp
