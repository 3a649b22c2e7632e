import FlatLisp.Proofs.Arena.Basic

/-!
# Sound memories

In a sound memory the free slots are the vacant ones, parents are occupied, and whatever refers to a
pin refers to the pin of an occupied slot. All operations keep memories sound. The delicate one is
the sweep: a slot that it frees is not held from outside, since then its pin would have been counted
more often than closures in tables account for; and no slot that stays leads to it.
-/

namespace FlatLisp

variable {E : Type}

/-! ## Objects in values -/

/-- Of objects with the same number one is left. -/
theorem exists_mem_distinct {os : List (Object E)} {o : Object E} (h : o ∈ os) :
    ∃ o' ∈ distinct os, o'.id = o.id := by
  induction os generalizing o with
  | nil => cases h
  | cons first os ih =>
    unfold distinct
    split
    · next hany =>
      rcases List.mem_cons.mp h with rfl | hrest
      · obtain ⟨other, hother, heq⟩ := List.any_eq_true.mp hany
        obtain ⟨o', ho', hid⟩ := ih hother
        exact ⟨o', ho', hid.trans (beq_iff_eq.mp heq)⟩
      · exact ih hrest
    · rcases List.mem_cons.mp h with rfl | hrest
      · exact ⟨o, List.mem_cons_self, rfl⟩
      · obtain ⟨o', ho', hid⟩ := ih hrest
        exact ⟨o', List.mem_cons_of_mem first ho', hid⟩

/-- What is left of objects was there before. -/
theorem mem_of_mem_distinct {os : List (Object E)} {o : Object E} (h : o ∈ distinct os) : o ∈ os := by
  induction os with
  | nil => cases h
  | cons first os ih =>
    unfold distinct at h
    split at h
    · exact List.mem_cons_of_mem first (ih h)
    · rcases List.mem_cons.mp h with rfl | hrest
      · exact List.mem_cons_self
      · exact List.mem_cons_of_mem first (ih hrest)

namespace Value

variable {v : Value E} {o : Object E} {entries : List (String × Value E)}
  {entry : String × Value E}

/-- An object is among the objects in it. -/
theorem mem_objects_self (o : Object E) : o ∈ (Value.object o).objects := by
  obtain ⟨id, text, _ | entries⟩ := o
  · simp [objects]
  · simp [objects]

/-- What is in an entry of a snapshot is in the snapshot. -/
theorem mem_objects_of_entry (hs : v.snapshot? = some entries) (he : entry ∈ entries)
    (ho : o ∈ entry.2.objects) : o ∈ v.objects := by
  cases v with
  | object snapshot =>
    obtain ⟨id, text, content⟩ := snapshot
    cases hs
    rw [objects]
    exact List.mem_cons_of_mem _ (List.mem_flatMap.mpr ⟨entry, he, ho⟩)
  | _ => cases hs

/-- A plain value has no objects in it. -/
theorem objects_of_isPlain (h : v.isPlain = true) : v.objects = [] := by
  cases v with
  | object o => cases h
  | _ => simp [objects]

/-- A plain value captures no scope. -/
theorem captured?_of_isPlain (h : v.isPlain = true) : v.captured? = none := by
  cases v with
  | object o => cases h
  | function f => exact Option.isNone_iff_eq_none.mp h
  | _ => rfl

/-- A function has no objects in it. -/
theorem objects_function (f : Function E) : (Value.function f).objects = [] := by
  simp [objects]

end Value

/-! ## Slots and references -/

/-- A slot holds a scope if it is there and occupied. -/
theorem Arena.record?_eq_some_iff {a : Arena E} {id : Nat} {record : Record E} :
    a.record? id = some record ↔ a.slots[id]? = some (some record) := by
  unfold Arena.record?
  exact Option.join_eq_some_iff

namespace Memory

variable {m : Memory E} {id p : Nat} {record : Record E}

/-- Occupied slots are slots. -/
theorem lt_of_record? (h : m.record? id = some record) : id < m.slots.length :=
  (List.getElem?_eq_some_iff.mp (Arena.record?_eq_some_iff.mp h)).1

/-- Bound values are bound in occupied slots. -/
theorem mem_bound_iff {v : Value E} :
    v ∈ m.bound ↔ ∃ id record, m.record? id = some record ∧ ∃ entry ∈ record.table, entry.2 = v := by
  constructor
  · intro hv
    obtain ⟨slot, hslot, hmem⟩ := List.mem_flatMap.mp hv
    obtain ⟨id, hid⟩ := List.mem_iff_getElem?.mp hslot
    cases slot with
    | none => cases hmem
    | some record =>
      exact ⟨id, record, Arena.record?_eq_some_iff.mpr hid, List.mem_map.mp hmem⟩
  · intro hv
    obtain ⟨id, record, hrecord, hentry⟩ := hv
    have hslot := List.mem_of_getElem? (Arena.record?_eq_some_iff.mp hrecord)
    exact List.mem_flatMap.mpr ⟨some record, hslot, List.mem_map.mpr hentry⟩

/-- What is bound in a slot is there. -/
theorem mem_alive_of_entry (hrecord : m.record? id = some record) {entry : String × Value E}
    (h : entry ∈ record.table) : entry.2 ∈ m.alive :=
  List.mem_append_left _ (mem_bound_iff.mpr ⟨id, record, hrecord, entry, h, rfl⟩)

/-- Whether something refers to a pin: a handle, a closure, or a closure in a snapshot. -/
inductive Refers (m : Memory E) (p : Nat) : Prop
  | handle (h : p ∈ m.handles)
  | closure {v : Value E} (hv : v ∈ m.alive) (h : v.captured? = some p)
  | snapshot {o : Object E} (ho : o ∈ m.objects) (h : p ∈ Object.captures o)

/-- The free slots are the vacant ones, parents are occupied, and the pins of this session that
something refers to are those of occupied slots. -/
structure IsSound (m : Memory E) : Prop where
  free_nodup : m.free.Nodup
  mem_free {id : Nat} : id ∈ m.free ↔ m.slots[id]? = some none
  live : m.live = m.slots.countP Option.isSome
  root : ∃ record, m.record? 0 = some record
  /-- The root alone has no parent. -/
  orphan {id : Nat} {record : Record E} (h : m.record? id = some record) :
    record.parent = none ↔ id = 0
  parent {id parent : Nat} {record : Record E} (h : m.record? id = some record)
    (hparent : record.parent = some parent) : ∃ above, m.record? parent = some above
  own {id : Nat} {record : Record E} (h : m.record? id = some record) :
    m.slotOf? record.pin = some id
  refers {p id : Nat} (h : m.Refers p) (hid : m.slotOf? p = some id) :
    ∃ record, m.record? id = some record ∧ record.pin = p
  refers_lt {p : Nat} (h : m.Refers p) : p < m.pins.length
  /-- Handles are of this session. -/
  handles {p : Nat} (h : p ∈ m.handles) : (m.slotOf? p).isSome = true
  objects_unique {o o' : Object E} (h : o ∈ m.objects) (h' : o' ∈ m.objects) (hid : o.id = o'.id) :
    o = o'
  objects_lt {o : Object E} (h : o ∈ m.objects) : o.id < m.nextId

/-! ## Counting references -/

/-- What a snapshot captures is counted. -/
theorem IsSound.count_captures_pos (h : m.IsSound) {o : Object E} (ho : o ∈ m.objects)
    (hp : p ∈ Object.captures o) : 0 < ((distinct m.objects).flatMap Object.captures).count p := by
  obtain ⟨o', ho', hid⟩ := exists_mem_distinct ho
  have heq := h.objects_unique (mem_of_mem_distinct ho') ho hid
  subst heq
  exact List.count_pos_iff.mpr (List.mem_flatMap.mpr ⟨o', ho', hp⟩)

/-- What refers to a pin is counted. -/
theorem IsSound.strong_pos (h : m.IsSound) (hp : m.Refers p) : 0 < m.strong p := by
  unfold strong
  cases hp with
  | handle hp =>
    have hcount := List.count_pos_iff.mpr hp
    omega
  | closure hv hcaptured =>
    have hcount := List.count_pos_iff.mpr (List.mem_filterMap.mpr ⟨_, hv, hcaptured⟩)
    omega
  | snapshot ho hcaptured =>
    have hcount := h.count_captures_pos ho hcaptured
    omega

/-- Bound closures that were defined in a slot are those that refer to its pin. -/
theorem IsSound.internal_eq (h : m.IsSound) (hrecord : m.record? id = some record) :
    m.internal id = (m.bound.filterMap Value.captured?).count record.pin := by
  unfold internal
  rw [List.count, List.countP_filterMap]
  refine List.countP_congr fun v hv => ?_
  rw [beq_iff_eq]
  cases hcaptured : v.captured? with
  | none => simp [target?, hcaptured]
  | some p =>
    simp only [target?, hcaptured, Option.bind_some, Option.map_some, Option.getD_some, beq_iff_eq]
    constructor
    · intro hid
      obtain ⟨record', hrecord', hpin⟩ :=
        h.refers (.closure (List.mem_append_left m.values hv) hcaptured) hid
      rw [hrecord] at hrecord'
      cases hrecord'
      exact hpin.symm
    · intro heq
      rw [heq]
      exact h.own hrecord

/-- A slot that is held from outside is among the roots of a sweep. -/
theorem IsSound.mem_roots (h : m.IsSound) (hrecord : m.record? id = some record)
    (houtside : record.pin ∈ m.handles ∨ (∃ v ∈ m.values, v.captured? = some record.pin) ∨
      ∃ o ∈ m.objects, record.pin ∈ Object.captures o) : id ∈ m.roots := by
  have hmore : m.internal id < m.strong record.pin := by
    rw [h.internal_eq hrecord]
    unfold strong alive
    rw [List.filterMap_append, List.count_append]
    rcases houtside with hhandle | ⟨v, hv, hcaptured⟩ | ⟨o, ho, hcaptured⟩
    · have hcount := List.count_pos_iff.mpr hhandle
      omega
    · have hcount := List.count_pos_iff.mpr (List.mem_filterMap.mpr ⟨v, hv, hcaptured⟩)
      omega
    · have hcount := h.count_captures_pos ho hcaptured
      omega
  refine List.mem_filter.mpr ⟨List.mem_range.mpr (lt_of_record? hrecord), ?_⟩
  simp [hrecord, hmore]

/-! ## Marking -/

/-- What was marked stays marked, what is pending gets marked, and what is marked leads to marked
slots, if all that is marked at first leads to marked or pending ones. -/
theorem mark_spec (pending marked : List Nat)
    (h : ∀ id ∈ marked, ∀ next ∈ m.successors id, next < m.slots.length →
      next ∈ marked ∨ next ∈ pending) :
    (∀ id ∈ marked, id ∈ m.mark pending marked) ∧
    (∀ id ∈ pending, id < m.slots.length → id ∈ m.mark pending marked) ∧
    ∀ id ∈ m.mark pending marked, ∀ next ∈ m.successors id, next < m.slots.length →
      next ∈ m.mark pending marked := by
  fun_induction mark m pending marked with
  | case1 marked =>
    refine ⟨fun _ hid => hid, nofun, fun id hid next hnext hlt => ?_⟩
    exact (h id hid next hnext hlt).resolve_right List.not_mem_nil
  | case2 id pending marked hskip ih =>
    have hrest : ∀ a ∈ marked, ∀ next ∈ m.successors a, next < m.slots.length →
        next ∈ marked ∨ next ∈ pending := by
      intro a ha next hnext hlt
      rcases h a ha next hnext hlt with hmarked | hpending
      · exact .inl hmarked
      · rcases List.mem_cons.mp hpending with rfl | hpending
        · exact .inl (hskip.resolve_left (Nat.not_le.mpr hlt))
        · exact .inr hpending
    obtain ⟨hkept, hpending, hclosed⟩ := ih hrest
    refine ⟨hkept, fun a ha hlt => ?_, hclosed⟩
    rcases List.mem_cons.mp ha with rfl | ha
    · exact hkept a (hskip.resolve_left (Nat.not_le.mpr hlt))
    · exact hpending a ha hlt
  | case3 id pending marked hnew ih =>
    have hrest : ∀ a ∈ id :: marked, ∀ next ∈ m.successors a, next < m.slots.length →
        next ∈ id :: marked ∨ next ∈ m.successors id ++ pending := by
      intro a ha next hnext hlt
      rcases List.mem_cons.mp ha with rfl | ha
      · exact .inr (List.mem_append_left pending hnext)
      · rcases h a ha next hnext hlt with hmarked | hpending
        · exact .inl (List.mem_cons_of_mem id hmarked)
        · rcases List.mem_cons.mp hpending with rfl | hpending
          · exact .inl List.mem_cons_self
          · exact .inr (List.mem_append_right _ hpending)
    obtain ⟨hkept, hpending, hclosed⟩ := ih hrest
    refine ⟨fun a ha => hkept a (List.mem_cons_of_mem id ha), fun a ha hlt => ?_, hclosed⟩
    rcases List.mem_cons.mp ha with rfl | ha
    · exact hkept a List.mem_cons_self
    · exact hpending a (List.mem_append_right _ ha) hlt

/-- The roots of a sweep are marked. -/
theorem mem_marked_of_mem_roots (h : id ∈ m.roots) : id ∈ m.marked := by
  have hlt : id < m.slots.length := List.mem_range.mp (List.mem_filter.mp h).1
  exact (mark_spec m.roots [] nofun).2.1 id h hlt

/-- What is marked leads to marked slots. -/
theorem mem_marked_of_successor {next : Nat} (h : id ∈ m.marked) (hnext : next ∈ m.successors id)
    (hlt : next < m.slots.length) : next ∈ m.marked :=
  (mark_spec m.roots [] nofun).2.2 id h next hnext hlt

/-! ## Changes that bring in no reference -/

/-- Where there are no new values there are no new objects. -/
theorem mem_objects_of_alive {m' : Memory E} (h : ∀ v ∈ m'.alive, v ∈ m.alive) {o : Object E}
    (ho : o ∈ m'.objects) : o ∈ m.objects := by
  obtain ⟨v, hv, hmem⟩ := List.mem_flatMap.mp ho
  exact List.mem_flatMap.mpr ⟨v, h v hv, hmem⟩

/-- Where there are no new handles and values there are no new references. -/
theorem Refers.of_alive {m' : Memory E} (hp : m'.Refers p)
    (hhandles : p ∈ m'.handles → m.Refers p) (h : ∀ v ∈ m'.alive, v ∈ m.alive) : m.Refers p := by
  cases hp with
  | handle hp => exact hhandles hp
  | closure hv hcaptured => exact .closure (h _ hv) hcaptured
  | snapshot ho hcaptured => exact .snapshot (mem_objects_of_alive h ho) hcaptured

/-- The number of occupied slots, slot by slot. -/
theorem countP_slots (a : Arena E) :
    a.slots.countP Option.isSome =
      (List.range a.slots.length).countP fun id => (a.record? id).isSome := by
  have hslots : a.slots = (List.range a.slots.length).map a.record? := by
    apply List.ext_getElem?
    intro id
    by_cases hid : id < a.slots.length
    · simp [Arena.record?, hid]
    · simp [hid]
  conv_lhs => rw [hslots, List.countP_map]
  rfl

/-- As many slots are occupied if the same ones are. -/
theorem countP_slots_congr {a b : Arena E} (hlength : b.slots.length = a.slots.length)
    (h : ∀ id, (b.record? id).isSome = (a.record? id).isSome) :
    b.slots.countP Option.isSome = a.slots.countP Option.isSome := by
  rw [countP_slots, countP_slots, hlength]
  simp only [h]

/-! ## Sweeping -/

/-- What becomes of a slot. -/
theorem record?_sweep (m : Memory E) (id : Nat) :
    m.sweep.record? id = if id ∈ m.marked then m.record? id else none := by
  unfold Arena.record? sweep
  rw [List.getElem?_mapIdx]
  split
  · cases m.slots[id]? <;> rfl
  · cases m.slots[id]? <;> rfl

/-- What is in a slot after a sweep was there before. -/
theorem record?_of_sweep (h : m.sweep.record? id = some record) : m.record? id = some record := by
  rw [record?_sweep] at h
  split at h
  · exact h
  · cases h

/-- A sweep brings no value into being. -/
theorem mem_alive_of_sweep {v : Value E} (h : v ∈ m.sweep.alive) : v ∈ m.alive := by
  rcases List.mem_append.mp h with hbound | hheld
  · obtain ⟨id, record, hrecord, entry, hentry, rfl⟩ := mem_bound_iff.mp hbound
    exact mem_alive_of_entry (record?_of_sweep hrecord) hentry
  · exact List.mem_append_right _ hheld

/-- A sweep brings no reference into being. -/
theorem Refers.of_sweep (hp : m.sweep.Refers p) : m.Refers p :=
  hp.of_alive (fun hhandle : p ∈ m.handles => .handle hhandle) fun _ => mem_alive_of_sweep

/-- What still refers to a pin after a sweep refers to the pin of a marked slot. -/
theorem IsSound.mem_marked (h : m.IsSound) (hrecord : m.record? id = some record)
    (hp : m.sweep.Refers record.pin) : id ∈ m.marked := by
  cases hp with
  | handle hp => exact mem_marked_of_mem_roots (h.mem_roots hrecord (.inl hp))
  | snapshot ho hcaptured =>
    have hobject := mem_objects_of_alive (fun _ => mem_alive_of_sweep) ho
    exact mem_marked_of_mem_roots (h.mem_roots hrecord (.inr (.inr ⟨_, hobject, hcaptured⟩)))
  | @closure v hv hcaptured =>
    rcases List.mem_append.mp hv with hbound | hheld
    · -- The closure is bound in a slot that was marked, and leads from there to its own.
      obtain ⟨holder, above, habove, entry, hentry, rfl⟩ := mem_bound_iff.mp hbound
      rw [record?_sweep] at habove
      split at habove
      · next hmarked =>
        have htarget : m.target? entry.2 = some id := by
          rw [target?, hcaptured, Option.bind_some, h.own hrecord]
        have hnext : id ∈ m.successors holder := by
          simp only [successors, habove, Option.elim_some, List.mem_append]
          exact .inr (List.mem_filterMap.mpr ⟨entry, hentry, htarget⟩)
        exact mem_marked_of_successor hmarked hnext (lt_of_record? hrecord)
      · cases habove
    · exact mem_marked_of_mem_roots (h.mem_roots hrecord (.inr (.inl ⟨v, hheld, hcaptured⟩)))

/-- A scope that is held stays in its slot. -/
theorem IsSound.record?_sweep_of_held (h : m.IsSound) (hrecord : m.record? id = some record)
    (hheld : record.pin ∈ m.handles) : m.sweep.record? id = some record := by
  rw [record?_sweep, if_pos (h.mem_marked hrecord (.handle hheld)), hrecord]

/-- The root is marked. -/
theorem IsSound.zero_mem_marked (h : m.IsSound) : 0 ∈ m.marked := by
  obtain ⟨record, hrecord⟩ := h.root
  apply mem_marked_of_mem_roots
  refine List.mem_filter.mpr ⟨List.mem_range.mpr (lt_of_record? hrecord), ?_⟩
  simp [hrecord]

/-- Garbage is occupied and not marked. -/
theorem mem_garbage_iff : id ∈ m.garbage ↔ (m.record? id).isSome = true ∧ id ∉ m.marked := by
  unfold garbage
  rw [List.mem_filter, List.mem_range]
  constructor
  · intro hid
    simpa using hid.2
  · intro hid
    obtain ⟨record, hrecord⟩ := Option.isSome_iff_exists.mp hid.1
    exact ⟨lt_of_record? hrecord, by simpa using hid⟩

/-- Free slots after a sweep are the vacant ones. -/
theorem IsSound.mem_free_sweep (h : m.IsSound) :
    id ∈ m.sweep.free ↔ m.sweep.slots[id]? = some none := by
  have hslot : m.sweep.slots[id]? =
      (m.slots[id]?).map fun slot => if id ∈ m.marked then slot else none := by
    unfold sweep
    rw [List.getElem?_mapIdx]
  have hfree : id ∈ m.sweep.free ↔ id ∈ m.garbage ∨ m.slots[id]? = some none := by
    unfold sweep
    simp only [List.mem_append, List.mem_reverse, h.mem_free]
  rw [hfree, hslot, mem_garbage_iff]
  unfold Arena.record?
  cases hfound : m.slots[id]? with
  | none => simp
  | some slot =>
    cases slot with
    | none => simp
    | some record => simp

/-- As many slots become vacant as are freed. -/
theorem IsSound.live_sweep (h : m.IsSound) :
    m.sweep.live = m.sweep.slots.countP Option.isSome := by
  have hlength : m.sweep.slots.length = m.slots.length := by simp [sweep]
  have hkept : m.sweep.slots.countP Option.isSome =
      (List.range m.slots.length).countP fun id => (m.record? id).isSome && decide (id ∈ m.marked) := by
    rw [countP_slots, hlength]
    refine List.countP_congr fun id _ => ?_
    rw [record?_sweep]
    split <;> simp [*]
  have hfreed : m.garbage.length =
      (List.range m.slots.length).countP fun id => (m.record? id).isSome && decide (id ∉ m.marked) := by
    rw [garbage, List.countP_eq_length_filter]
  have hall : m.live = (List.range m.slots.length).countP (fun id => (m.record? id).isSome) := by
    rw [h.live, countP_slots]
  have hsplit := List.countP_eq_countP_filter_add (List.range m.slots.length)
    (fun id => (m.record? id).isSome) fun id => decide (id ∈ m.marked)
  simp only [List.countP_filter, ← decide_not] at hsplit
  change m.live - m.garbage.length = _
  rw [hkept, hfreed, hall]
  omega

/-- A sweep keeps memories sound. -/
theorem IsSound.sweep (h : m.IsSound) : m.sweep.IsSound where
  free_nodup := by
    refine List.nodup_append.mpr ⟨List.nodup_reverse.mpr (List.nodup_range.filter _), h.free_nodup, ?_⟩
    intro a ha b hb heq
    subst heq
    have hoccupied := (mem_garbage_iff.mp (List.mem_reverse.mp ha)).1
    have hvacant := h.mem_free.mp hb
    simp [Arena.record?, hvacant] at hoccupied
  mem_free := h.mem_free_sweep
  live := h.live_sweep
  root := by
    obtain ⟨record, hrecord⟩ := h.root
    exact ⟨record, by rw [record?_sweep, if_pos h.zero_mem_marked, hrecord]⟩
  orphan hrecord := h.orphan (record?_of_sweep hrecord)
  parent := by
    intro id parent record hrecord hparent
    rw [record?_sweep] at hrecord
    split at hrecord
    · next hmarked =>
      obtain ⟨above, habove⟩ := h.parent hrecord hparent
      have hnext : parent ∈ m.successors id := by simp [successors, hrecord, hparent]
      have hkept := mem_marked_of_successor hmarked hnext (lt_of_record? habove)
      exact ⟨above, by rw [record?_sweep, if_pos hkept, habove]⟩
    · cases hrecord
  own hrecord := h.own (record?_of_sweep hrecord)
  refers := by
    intro p id hp hid
    obtain ⟨record, hrecord, rfl⟩ := h.refers hp.of_sweep hid
    exact ⟨record, by rw [record?_sweep, if_pos (h.mem_marked hrecord hp), hrecord], rfl⟩
  refers_lt hp := h.refers_lt hp.of_sweep
  handles := h.handles
  objects_unique ho ho' hid :=
    h.objects_unique (mem_objects_of_alive (fun _ => mem_alive_of_sweep) ho)
      (mem_objects_of_alive (fun _ => mem_alive_of_sweep) ho') hid
  objects_lt ho := h.objects_lt (mem_objects_of_alive (fun _ => mem_alive_of_sweep) ho)

end Memory

end FlatLisp
