import FlatLisp.Proofs.Arena.Mirror

/-!
# Sweeps that nobody sees

Whatever a client does with a session, it gets the same answers from a memory as from a world, where
scopes are never taken away. The memory mirrors the world at all times: each operation keeps it so,
and so do sweeps, which leave the world as it is.
-/

namespace FlatLisp

variable {E : Type}

namespace Mirrors

variable {place place' : Nat → ScopeId} {m m' : Memory E} {c c' : Unswept E} {id p : Nat}
  {record : Record E} {s : ScopeId}

/-! ## New pins -/

/-- Pins that are yet to be made do not matter for values. -/
theorem rename_eq (hs : m.IsSound) (heq : ∀ p < m.pins.length, place' p = place p) {v : Value E}
    (hv : v ∈ m.alive) : v.rename place' = v.rename place := by
  refine Value.rename_congr (fun p hp => ?_) fun o ho p hp => ?_
  · exact heq p (hs.refers_lt (.closure hv hp))
  · exact heq p (hs.refers_lt (.snapshot (List.mem_flatMap.mpr ⟨v, hv, ho⟩) hp))

/-- Pins that are yet to be made do not matter for tables. -/
theorem table_rename_eq (hs : m.IsSound) (heq : ∀ p < m.pins.length, place' p = place p)
    {t : Table (Value E)} (ht : ∀ entry ∈ t, entry.2 ∈ m.alive) :
    t.rename place' = t.rename place := by
  refine List.map_congr_left fun entry hentry => ?_
  rw [rename_eq hs heq (ht entry hentry)]

/-- Pins that are yet to be made do not matter for held values. -/
theorem values_rename_eq (hs : m.IsSound) (heq : ∀ p < m.pins.length, place' p = place p) :
    m.values.map (Value.rename place') = m.values.map (Value.rename place) :=
  List.map_congr_left fun _ hv => rename_eq hs heq (List.mem_append_right _ hv)

/-- Pins that are yet to be made do not matter for handles. -/
theorem handles_map_eq (hs : m.IsSound) (heq : ∀ p < m.pins.length, place' p = place p) :
    m.handles.map place' = m.handles.map place :=
  List.map_congr_left fun p hp => heq p (hs.refers_lt (.handle hp))

/-- Pins that are yet to be made do not matter for slots. -/
theorem holds_iff (hs : m.IsSound) (heq : ∀ p < m.pins.length, place' p = place p) :
    m.Holds place' id s ↔ m.Holds place id s := by
  refine exists_congr fun record => and_congr_right fun hrecord => ?_
  rw [heq record.pin (Memory.lt_of_slotOf? (hs.own hrecord))]

/-- Parents stay the same if they stay in their slots. -/
theorem rel_parent {scope : Scope E} (h : Represents place m record scope)
    (hparent : ∀ parent s, record.parent = some parent → m.Holds place parent s →
      m'.Holds place' parent s) : Option.Rel (m'.Holds place') record.parent scope.parent := by
  obtain ⟨hnone, hnone'⟩ | ⟨parent, above, hsome, habove, hsome'⟩ := h.parent_cases
  · rw [hnone, hnone']
    exact .none
  · rw [hsome, hsome']
    exact .some (hparent parent _ hsome ⟨above, habove, rfl⟩)

/-- A slot that is given a scope or a pin has a scope of the world as before. -/
theorem renew (h : Mirrors place m c) (hs : m.IsSound) {new : Record E} {scope : Scope E}
    (hr : m.Renews m' id new)
    (hworld : ∀ {t : ScopeId} {found : Scope E}, c.world.scopes[t]? = some found →
      c'.world.scopes[t]? = some found)
    (hscope : c'.world.scopes[s]? = some scope) (hnew : Represents place m new scope)
    (hslot : ∀ j, m.Holds place j s → j = id) (hold : ∀ t, m.Holds place id t → t = s)
    (hhandles : c'.handles = c.handles ++ [s]) (hvalues : c'.values = c.values)
    (hnextId : c'.world.nextId = c.world.nextId) (hordered : c'.world.IsOrdered) :
    Mirrors (Function.update place m.pins.length s) m' c' := by
  have heq : ∀ p < m.pins.length, Function.update place m.pins.length s p = place p :=
    fun p hp => Function.update_of_ne (Nat.ne_of_lt hp) s place
  have hat : Function.update place m.pins.length s new.pin = s := by
    rw [hr.pin, Function.update_self]
  -- Other slots hold what they held, and the slot itself holds the scope that it had, if any.
  have hholds : ∀ {j t}, m'.Holds (Function.update place m.pins.length s) j t ↔
      j = id ∧ t = s ∨ j ≠ id ∧ m.Holds place j t := by
    intro j t
    rw [← holds_iff hs heq]
    unfold Memory.Holds
    rw [hr.record?]
    by_cases hj : j = id
    · simp [hj, hat, eq_comm]
    · simp [hj]
  have hlift : ∀ {j t}, m.Holds place j t →
      m'.Holds (Function.update place m.pins.length s) j t := by
    intro j t ht
    rw [hholds]
    by_cases hj : j = id
    · exact .inl ⟨hj, hold t (hj ▸ ht)⟩
    · exact .inr ⟨hj, ht⟩
  refine ⟨?_, ?_, ?_, ?_, ?_, ?_, hordered⟩
  · intro j record hrecord
    have htable := table_rename_eq hs heq fun entry hentry =>
      hr.mem_alive (Memory.mem_alive_of_entry hrecord hentry)
    rw [hr.record?] at hrecord
    split at hrecord
    · cases hrecord
      exact ⟨scope, by rw [hat, hscope], hnew.table.trans htable.symm,
        rel_parent hnew fun _ _ _ => hlift, hnew.session⟩
    · obtain ⟨found, hfound, hrepresents⟩ := h.scopes hrecord
      have hlt := Memory.lt_of_slotOf? (hs.own hrecord)
      refine ⟨found, ?_, hrepresents.table.trans htable.symm,
        rel_parent hrepresents fun _ _ _ => hlift, hrepresents.session⟩
      rw [heq record.pin hlt]
      exact hworld hfound
  · intro j j' t hj hj'
    rw [hholds] at hj hj'
    rcases hj with ⟨rfl, rfl⟩ | ⟨hne, hj⟩
    · rcases hj' with ⟨rfl, -⟩ | ⟨hne', hj'⟩
      · rfl
      · exact absurd (hslot j' hj') hne'
    · rcases hj' with ⟨rfl, rfl⟩ | ⟨-, hj'⟩
      · exact absurd (hslot j hj) hne
      · exact h.unique hj hj'
  · intro p hp hnone
    have hne : p ≠ m.pins.length := by
      intro heq
      rw [heq, Memory.slotOf?_length hr.pins] at hnone
      cases hnone
    have hlt : p < m.pins.length := by
      rw [hr.pins, List.length_append, List.length_singleton] at hp
      omega
    rw [Memory.slotOf?_of_lt hr.pins hlt] at hnone
    obtain ⟨found, hfound, hsession⟩ := h.elsewhere hlt hnone
    exact ⟨found, by rw [heq p hlt]; exact hworld hfound, hsession⟩
  · rw [hhandles, h.handles, hr.handles, List.map_append, handles_map_eq hs heq]
    simp
  · rw [hvalues, h.values, hr.values, values_rename_eq hs heq]
  · rw [hnextId, h.nextId, hr.nextId]

/-- A pin of another session has a scope of another session. -/
theorem foreignPin (h : Mirrors place m c) (hs : m.IsSound) (slot : Nat) :
    Mirrors (Function.update place m.pins.length c.world.scopes.size)
      { m with pins := m.pins ++ [⟨slot, false⟩] }
      { c with world := (c.world.pushScope ⟨[], none, 1⟩).1 } := by
  have heq : ∀ p < m.pins.length,
      Function.update place m.pins.length c.world.scopes.size p = place p :=
    fun p hp => Function.update_of_ne (Nat.ne_of_lt hp) _ place
  refine ⟨?_, ?_, ?_, ?_, ?_, h.nextId, h.ordered.pushScope nofun⟩
  · intro id record hrecord
    obtain ⟨scope, hscope, hrepresents⟩ := h.scopes hrecord
    have htable := table_rename_eq hs heq fun entry hentry =>
      Memory.mem_alive_of_entry hrecord hentry
    refine ⟨scope, ?_, hrepresents.table.trans htable.symm,
      rel_parent hrepresents fun _ _ _ => (holds_iff hs heq).mpr, hrepresents.session⟩
    rw [heq record.pin (Memory.lt_of_slotOf? (hs.own hrecord))]
    exact c.world.getElem?_pushScope_of_some _ hscope
  · intro id id' s hid hid'
    exact h.unique ((holds_iff hs heq).mp hid) ((holds_iff hs heq).mp hid')
  · intro p hp hnone
    simp only [List.length_append, List.length_singleton] at hp
    by_cases hnew : p = m.pins.length
    · refine ⟨⟨[], none, 1⟩, ?_, Nat.one_ne_zero⟩
      rw [hnew, Function.update_self, World.getElem?_pushScope, if_pos rfl]
    · have hlt : p < m.pins.length := by omega
      rw [Memory.slotOf?_of_lt (m := m) rfl hlt] at hnone
      obtain ⟨found, hfound, hsession⟩ := h.elsewhere hlt hnone
      refine ⟨found, ?_, hsession⟩
      rw [heq p hlt]
      exact c.world.getElem?_pushScope_of_some _ hfound
  · exact h.handles.trans (handles_map_eq hs heq).symm
  · exact h.values.trans (values_rename_eq hs heq).symm

/-! ## Sweeping, binding and holding -/

/-- A sweep leaves the scopes of the world in their slots. -/
theorem sweep (h : Mirrors place m c) (hs : m.IsSound) : Mirrors place m.sweep c := by
  refine ⟨?_, ?_, h.elsewhere, h.handles, h.values, h.nextId, h.ordered⟩
  · intro id record hrecord
    obtain ⟨scope, hscope, hrepresents⟩ := h.scopes (Memory.record?_of_sweep hrecord)
    refine ⟨scope, hscope, hrepresents.table,
      rel_parent hrepresents fun parent s hparent hholds => ?_, hrepresents.session⟩
    obtain ⟨above, habove, rfl⟩ := hholds
    obtain ⟨kept, hkept⟩ := hs.sweep.parent hrecord hparent
    have hsame := Memory.record?_of_sweep hkept
    rw [habove] at hsame
    cases hsame
    exact ⟨above, hkept, rfl⟩
  · intro id id' s hid hid'
    obtain ⟨record, hrecord, hplace⟩ := hid
    obtain ⟨record', hrecord', hplace'⟩ := hid'
    exact h.unique ⟨record, Memory.record?_of_sweep hrecord, hplace⟩
      ⟨record', Memory.record?_of_sweep hrecord', hplace'⟩

/-- A name is bound in a slot as in its scope. -/
theorem write (h : Mirrors place m c) (hrecord : m.record? id = some record) (name : String)
    (v : Value E) :
    Mirrors place (m.write id name v)
      { c with world := c.world.bind (place record.pin) name (v.rename place) } := by
  have hmp : ∀ {j s}, (m.write id name v).Holds place j s → m.Holds place j s := by
    intro j s hholds
    obtain ⟨after, hafter, hplace⟩ := hholds
    obtain ⟨before, hbefore, -, hpin, -⟩ := Memory.record?_of_write hafter
    exact ⟨before, hbefore, hpin ▸ hplace⟩
  have hmpr : ∀ {j s}, m.Holds place j s → (m.write id name v).Holds place j s := by
    intro j s hholds
    obtain ⟨before, hbefore, hplace⟩ := hholds
    obtain ⟨after, hafter, hpin⟩ := Memory.exists_record?_write name v hbefore
    exact ⟨after, hafter, hpin ▸ hplace⟩
  refine ⟨?_, fun hj hj' => h.unique (hmp hj) (hmp hj'), ?_, h.handles, h.values, h.nextId,
    h.ordered.bind _ _ _⟩
  · intro j after hafter
    obtain ⟨before, hbefore, hparent, hpin, htable⟩ := Memory.record?_of_write hafter
    obtain ⟨scope, hscope, hrepresents⟩ := h.scopes hbefore
    have hrel : Option.Rel ((m.write id name v).Holds place) after.parent scope.parent := by
      rw [hparent]
      exact rel_parent hrepresents fun _ _ _ => hmpr
    have hsame : place record.pin = place before.pin ↔ id = j := by
      constructor
      · exact fun heq => h.unique ⟨record, hrecord, heq⟩ ⟨before, hbefore, rfl⟩
      · intro heq
        rw [heq, hbefore] at hrecord
        cases hrecord
        rfl
    rw [hpin, World.getElem?_bind, hscope]
    by_cases hj : id = j
    · rw [if_pos (hsame.mpr hj)]
      refine ⟨_, rfl, ?_, hrel, hrepresents.session⟩
      rw [htable, if_pos hj, Table.rename_insert, ← hrepresents.table]
    · rw [if_neg fun heq => hj (hsame.mp heq)]
      refine ⟨scope, rfl, ?_, hrel, hrepresents.session⟩
      rw [htable, if_neg hj, hrepresents.table]
  · intro p hp hnone
    obtain ⟨scope, hscope, hsession⟩ := h.elsewhere hp hnone
    rw [World.getElem?_bind, hscope]
    split
    · exact ⟨_, rfl, hsession⟩
    · exact ⟨scope, rfl, hsession⟩

/-- What is held may change in the same way. -/
theorem of_holdings (h : Mirrors place m c) (harena : m'.toArena = m.toArena)
    (hpins : m'.pins = m.pins) (hscopes : c'.world.scopes = c.world.scopes)
    (hhandles : c'.handles = m'.handles.map place)
    (hvalues : c'.values = m'.values.map (Value.rename place))
    (hnextId : c'.world.nextId = m'.nextId) : Mirrors place m' c' := by
  have hholds : m'.Holds place = m.Holds place := by
    unfold Memory.Holds
    rw [harena]
  refine ⟨?_, ?_, ?_, hhandles, hvalues, hnextId, ?_⟩
  · intro id record hrecord
    rw [harena] at hrecord
    obtain ⟨scope, hscope, hrepresents⟩ := h.scopes hrecord
    refine ⟨scope, by rw [hscopes, hscope], hrepresents.table, ?_, hrepresents.session⟩
    rw [hholds]
    exact hrepresents.parent
  · rw [hholds]
    exact h.unique
  · intro p hp hnone
    rw [hpins] at hp
    rw [Memory.slotOf?, hpins] at hnone
    rw [hscopes]
    exact h.elsewhere hp hnone
  · unfold World.IsOrdered
    rw [hscopes]
    exact h.ordered

/-- A scope that is held in both may be held once more. -/
theorem hold (h : Mirrors place m c) (p : Nat) : Mirrors place (m.hold p) (c.hold (place p)) := by
  refine h.of_holdings rfl rfl rfl ?_ h.values h.nextId
  simp [Unswept.hold, Memory.hold, h.handles]

/-- A value may be held. -/
theorem keep (h : Mirrors place m c) (v : Value E) :
    Mirrors place (m.keep v) (c.keep (v.rename place)) := by
  refine h.of_holdings rfl rfl rfl h.handles ?_ h.nextId
  simp [Unswept.keep, Memory.keep, h.values]

/-- A number may be given out. -/
theorem number (h : Mirrors place m c) :
    Mirrors place { m with nextId := m.nextId + 1 } c.number := by
  refine h.of_holdings rfl rfl rfl h.handles h.values ?_
  simp [Unswept.number, h.nextId]

/-! ## Scopes -/

/-- A new scope is below the same one. -/
theorem insert (h : Mirrors place m c) (hs : m.IsSound) (hrecord : m.record? id = some record) :
    Mirrors (Function.update place m.pins.length c.world.scopes.size) (m.insert (some id))
      (Unswept.hold { c with world := (c.world.pushScope ⟨[], some (place record.pin), 0⟩).1 }
        c.world.scopes.size) := by
  obtain ⟨above, habove, -⟩ := h.scopes hrecord
  have hlt := (Array.getElem?_eq_some_iff.mp habove).1
  have hnew : Represents place m ⟨[], some id, m.pins.length⟩ ⟨[], some (place record.pin), 0⟩ :=
    ⟨rfl, .some ⟨record, hrecord, rfl⟩, rfl⟩
  refine h.renew hs (hs.renews_insert (some id)) (fun hfound => ?_) ?_ hnew ?_ ?_ rfl rfl rfl ?_
  · exact c.world.getElem?_pushScope_of_some _ hfound
  · exact (c.world.getElem?_pushScope _ _).trans (if_pos rfl)
  · intro j hj
    obtain ⟨found, hfound, hplace⟩ := hj
    obtain ⟨scope, hscope, -⟩ := h.scopes hfound
    rw [hplace] at hscope
    exact absurd (Array.getElem?_eq_some_iff.mp hscope).1 (Nat.lt_irrefl _)
  · intro t ht
    obtain ⟨found, hfound, -⟩ := ht
    rw [hs.record?_nextSlot] at hfound
    cases hfound
  · refine h.ordered.pushScope fun parent hparent => ?_
    cases hparent
    exact hlt

/-- A new pin has the scope of the one before. -/
theorem repin (h : Mirrors place m c) (hs : m.IsSound) (hrecord : m.record? id = some record) :
    Mirrors (Function.update place m.pins.length (place record.pin)) (m.repin id record)
      (c.hold (place record.pin)) := by
  obtain ⟨scope, hscope, hrepresents⟩ := h.scopes hrecord
  refine h.renew hs (Memory.renews_repin hrecord) (fun hfound => hfound) hscope
    ⟨hrepresents.table, hrepresents.parent, hrepresents.session⟩ ?_ ?_ rfl rfl rfl h.ordered
  · exact fun j hj => h.unique hj ⟨record, hrecord, rfl⟩
  · intro t ht
    obtain ⟨found, hfound, hplace⟩ := ht
    rw [hrecord] at hfound
    cases hfound
    exact hplace.symm

/-- A new scope is below the same one, also after a sweep. -/
theorem child (h : Mirrors place m c) (hs : m.IsSound) (hrecord : m.record? id = some record)
    (hheld : record.pin ∈ m.handles) :
    ∃ place', Mirrors place' (m.child id)
      (Unswept.hold { c with world := (c.world.pushScope ⟨[], some (place record.pin), 0⟩).1 }
        c.world.scopes.size) := by
  unfold Memory.child
  split
  · exact ⟨_, (h.sweep hs).insert hs.sweep (hs.record?_sweep_of_held hrecord hheld)⟩
  · exact ⟨_, h.insert hs hrecord⟩

/-- A scope may be held by the slot that it is in. -/
theorem exists_pinned (h : Mirrors place m c) (hs : m.IsSound) (hrecord : m.record? id = some record) :
    ∃ m' place', m.pinned id = some m' ∧ Mirrors place' m' (c.hold (place record.pin)) := by
  rw [Memory.pinned, hrecord, Option.map_some]
  split
  · exact ⟨_, place, rfl, h.hold record.pin⟩
  · exact ⟨_, _, rfl, h.repin hs hrecord⟩

end Mirrors

/-! ## Operations -/

/-- What was found is related, and so is what comes of it. -/
theorem rel_bind {α β γ δ : Type} {R : α → β → Prop} {S : γ → δ → Prop} {x : Option α} {y : Option β}
    {f : α → Option γ} {g : β → Option δ} (hx : Option.Rel R x y)
    (hf : ∀ a b, R a b → Option.Rel S (f a) (g b)) : Option.Rel S (x.bind f) (y.bind g) := by
  cases hx with
  | none => exact .none
  | some h => exact hf _ _ h

/-- What is found twice is related to what is made of it. -/
theorem rel_map {α β : Type} (f : α → β) (x : Option α) :
    Option.Rel (fun a b => b = f a) x (x.map f) := by
  cases x with
  | none => exact .none
  | some a => exact .some rfl

/-- Answers with the same outline, and states that mirror each other. -/
def Agree (r : Value E × Memory E) (r' : Value E × Unswept E) : Prop :=
  r.1.outline = r'.1.outline ∧ ∃ place, Mirrors place r.2 r'.2

namespace Mirrors

variable {place : Nat → ScopeId} {m : Memory E} {c : Unswept E}

/-- Handles are of slots and of the scopes in them. -/
theorem rel_slot? (h : Mirrors place m c) (hs : m.IsSound) (i : Nat) :
    Option.Rel (fun id s => ∃ record, m.record? id = some record ∧ record.pin ∈ m.handles ∧
      s = place record.pin) (m.slot? i) (c.handles[i]?) := by
  rw [h.handles, List.getElem?_map, Memory.slot?]
  cases hp : m.handles[i]? with
  | none => exact .none
  | some p =>
    have hmem := List.mem_of_getElem? hp
    obtain ⟨id, hid⟩ := Option.isSome_iff_exists.mp (hs.handles hmem)
    obtain ⟨record, hrecord, rfl⟩ := hs.refers (.handle hmem) hid
    rw [Option.bind_some, hid]
    exact .some ⟨record, hrecord, hmem, rfl⟩

/-- Handles are of pins and of the scopes that these have. -/
theorem rel_handle (h : Mirrors place m c) (i : Nat) :
    Option.Rel (fun p s => s = place p) (m.handles[i]?) (c.handles[i]?) := by
  rw [h.handles, List.getElem?_map]
  exact rel_map place _

/-- The same values are held. -/
theorem rel_value (h : Mirrors place m c) (j : Nat) :
    Option.Rel (fun v v' => v ∈ m.values ∧ v' = v.rename place) (m.values[j]?) (c.values[j]?) := by
  rw [h.values, List.getElem?_map]
  cases hv : m.values[j]? with
  | none => exact .none
  | some v => exact .some ⟨List.mem_of_getElem? hv, rfl⟩

/-- A slot and its scope are both there. -/
theorem rel_record? (h : Mirrors place m c) {id : Nat} {record : Record E}
    (hrecord : m.record? id = some record) :
    Option.Rel (Represents place m) (m.record? id) (c.world.scopes[place record.pin]?) := by
  obtain ⟨scope, hscope, hrepresents⟩ := h.scopes hrecord
  rw [hrecord, hscope]
  exact .some hrepresents

/-- A new scope can be added below the scope in a slot. -/
theorem child_eq (h : Mirrors place m c) {id : Nat} {record : Record E}
    (hrecord : m.record? id = some record) :
    EvalM.child (place record.pin) c.world =
      (.ok c.world.scopes.size, (c.world.pushScope ⟨[], some (place record.pin), 0⟩).1) := by
  obtain ⟨scope, hscope, hrepresents⟩ := h.scopes hrecord
  unfold EvalM.child
  rw [hscope]
  simp only [hrepresents.session]
  rfl

/-- An answer that is held is the same in both. -/
theorem agree_keep (h : Mirrors place m c) {v v' : Value E} (hv : v' = v.rename place) :
    Agree (v, m.keep v) (v', c.keep v') := by
  subst hv
  exact ⟨(v.outline_rename place).symm, place, h.keep v⟩

/-- An operation has the same outcome in a memory as in the world that it mirrors. -/
theorem rel_perform (h : Mirrors place m c) (hs : m.IsSound) (op : Operation E) :
    Option.Rel Agree (m.perform op) (c.perform op) := by
  cases op with
  | child i =>
    refine rel_bind (h.rel_slot? hs i) fun id s hid => ?_
    obtain ⟨record, hrecord, hheld, rfl⟩ := hid
    simp only [h.child_eq hrecord]
    exact .some ⟨rfl, h.child hs hrecord hheld⟩
  | parent i =>
    refine rel_bind (h.rel_slot? hs i) fun id s hid => ?_
    obtain ⟨record, hrecord, -, rfl⟩ := hid
    refine rel_bind (h.rel_record? hrecord) fun found scope hrepresents => ?_
    refine rel_bind hrepresents.parent fun parent t hholds => ?_
    obtain ⟨above, habove, rfl⟩ := hholds
    obtain ⟨m', place', hm', hmirrors⟩ := h.exists_pinned hs habove
    rw [hm']
    exact .some ⟨rfl, place', hmirrors⟩
  | clone i =>
    refine rel_bind (h.rel_handle i) fun p s hp => ?_
    subst hp
    exact .some ⟨rfl, place, h.hold p⟩
  | release i =>
    refine rel_bind (h.rel_handle i) fun p s hp => .some ⟨rfl, place, ?_⟩
    refine h.of_holdings rfl rfl rfl ?_ h.values h.nextId
    simp [h.handles, List.eraseIdx_map]
  | sameScope i i' =>
    refine rel_bind (h.rel_slot? hs i) fun id s hid => ?_
    refine rel_bind (h.rel_slot? hs i') fun id' s' hid' => ?_
    obtain ⟨record, hrecord, -, rfl⟩ := hid
    obtain ⟨record', hrecord', -, rfl⟩ := hid'
    have hsame : (id == id') = (place record.pin == place record'.pin) := by
      rw [Bool.eq_iff_iff, beq_iff_eq, beq_iff_eq]
      constructor
      · intro heq
        rw [heq, hrecord'] at hrecord
        cases hrecord
        rfl
      · exact fun heq => h.unique ⟨record, hrecord, heq⟩ ⟨record', hrecord', rfl⟩
    exact .some ⟨by rw [hsame], place, h⟩
  | bind i name j =>
    refine rel_bind (h.rel_slot? hs i) fun id s hid => ?_
    refine rel_bind (h.rel_value j) fun v v' hv => ?_
    obtain ⟨record, hrecord, -, rfl⟩ := hid
    obtain ⟨-, rfl⟩ := hv
    exact .some ⟨rfl, place, h.write hrecord name v⟩
  | lookup i name =>
    refine rel_bind (h.rel_slot? hs i) fun id s hid => ?_
    obtain ⟨record, hrecord, -, rfl⟩ := hid
    rw [h.find?_eq hrecord]
    exact rel_bind (rel_map _ _) fun v v' hv => .some (h.agree_keep hv)
  | hasLocal i name =>
    refine rel_bind (h.rel_slot? hs i) fun id s hid => ?_
    obtain ⟨record, hrecord, -, rfl⟩ := hid
    rw [hrecord, h.hasLocal_eq hrecord]
    exact .some ⟨rfl, place, h⟩
  | symbols i =>
    refine rel_bind (h.rel_slot? hs i) fun id s hid => ?_
    obtain ⟨record, hrecord, -, rfl⟩ := hid
    obtain ⟨entries, hentries, heq⟩ := h.exists_bindings hrecord
    rw [hentries]
    exact .some (h.number.agree_keep (by rw [Value.rename_ofBindings, heq, h.nextId]))
  | capture i label formals program =>
    refine rel_bind (h.rel_handle i) fun p s hp => ?_
    exact .some (h.number.agree_keep (by rw [Value.rename_closure, hp, h.nextId]))
  | adopt slot label formals program =>
    refine .some ((h.foreignPin hs slot).number.agree_keep ?_)
    rw [Value.rename_closure, Function.update_self, h.nextId]
  | enter j =>
    refine rel_bind (h.rel_value j) fun v v' hv => ?_
    obtain ⟨hmem, rfl⟩ := hv
    rw [Value.captured?_rename]
    cases hp : v.captured? with
    | none => exact .none
    | some p =>
      have hrefers : m.Refers p := .closure (List.mem_append_right _ hmem) hp
      have hended : c.handles = [] ↔ m.handles = [] := by rw [h.handles, List.map_eq_nil_iff]
      -- A closure of another session leads out of this one in both cases.
      cases hid : m.slotOf? p with
      | none =>
        obtain ⟨scope, hscope, hsession⟩ := h.elsewhere (hs.refers_lt hrefers) hid
        simp only [Option.map_some, Option.bind_eq_bind, Option.bind_some, hid, hscope, guard,
          hsession]
        exact .none
      | some id =>
        obtain ⟨record, hrecord, rfl⟩ := hs.refers hrefers hid
        obtain ⟨scope, hscope, hrepresents⟩ := h.scopes hrecord
        simp only [Option.map_some, Option.bind_eq_bind, Option.bind_some, hid, hscope, guard,
          hrepresents.session, ne_eq, hended, ↓reduceIte]
        by_cases hnone : m.handles = []
        · simp only [hnone]
          exact .none
        · simp only [hnone]
          exact .some ⟨rfl, place, h.hold record.pin⟩
  | take v =>
    by_cases hplain : v.isPlain = true
    · simp only [Memory.perform, Unswept.perform, guard, hplain]
      exact .some (h.agree_keep (Value.rename_of_isPlain hplain).symm)
    · simp only [Memory.perform, Unswept.perform, guard, hplain]
      exact .none
  | make text =>
    refine .some (h.number.agree_keep ?_)
    rw [Value.rename_hostObject, h.nextId]
  | copy j =>
    exact rel_bind (h.rel_value j) fun v v' hv => .some (h.agree_keep hv.2)
  | extract j name =>
    refine rel_bind (h.rel_value j) fun v v' hv => ?_
    obtain ⟨-, rfl⟩ := hv
    rw [Value.snapshot?_rename]
    refine rel_bind (rel_map _ _) fun entries entries' hentries => ?_
    subst hentries
    rw [Table.find?_rename]
    exact rel_bind (rel_map _ _) fun u u' hu => .some (h.agree_keep hu)
  | discard j =>
    refine rel_bind (h.rel_value j) fun v v' _ => .some ⟨rfl, place, ?_⟩
    refine h.of_holdings rfl rfl rfl h.handles ?_ h.nextId
    simp [h.values, List.eraseIdx_map]
  | sweep => exact .some ⟨rfl, place, h.sweep hs⟩

end Mirrors

/-! ## Runs -/

/-- A session that has just been set up has its root in the first slot. -/
theorem mirrors_start (host : Host E) (loader : Loader) (comments : Bool) (maxDepth : Nat) :
    Mirrors (fun _ => 0) Memory.start (Unswept.start host loader comments maxDepth) := by
  have hrecord : ∀ {id record}, (Memory.start : Memory E).record? id = some record →
      id = 0 ∧ record = ⟨[], none, 0⟩ := Memory.record?_start
  refine ⟨?_, ?_, ?_, rfl, rfl, rfl, ?_⟩
  · intro id record h
    obtain ⟨-, rfl⟩ := hrecord h
    exact ⟨⟨[], none, 0⟩, rfl, rfl, .none, rfl⟩
  · intro id id' s h h'
    obtain ⟨record, h, -⟩ := h
    obtain ⟨record', h', -⟩ := h'
    rw [(hrecord h).1, (hrecord h').1]
  · intro p hp hnone
    have hp : p = 0 := Nat.lt_one_iff.mp hp
    rw [hp] at hnone
    cases hnone
  · intro s parent scope hscope hparent
    cases s with
    | zero =>
      cases hscope
      cases hparent
    | succ s => simp [Unswept.start, openBare, World.pushScope, World.empty] at hscope

/-- A client has been told the same in both cases, and its memory is sound and mirrors its world. -/
structure Matched (r : List (Option (Value E)) × Memory E) (r' : List (Option (Value E)) × Unswept E) :
    Prop where
  answers : r.1 = r'.1
  sound : r.2.IsSound
  mirrors : ∃ place, Mirrors place r.2 r'.2

/-- An operation has the same outcome for a client in both cases. -/
theorem Matched.step {r : List (Option (Value E)) × Memory E}
    {r' : List (Option (Value E)) × Unswept E} (h : Matched r r') (client : Client E) :
    Matched (client.step Memory.perform r) (client.step Unswept.perform r') := by
  obtain ⟨answers, m⟩ := r
  obtain ⟨_, c⟩ := r'
  obtain ⟨rfl, hs, place, hmirrors⟩ := h
  have hrel := hmirrors.rel_perform hs (client answers)
  unfold Client.step
  dsimp only
  generalize hm : m.perform (client answers) = result, c.perform (client answers) = result' at hrel
  cases hrel with
  | none => exact ⟨rfl, hs, place, hmirrors⟩
  | @some result result' hagree =>
    obtain ⟨v, m'⟩ := result
    obtain ⟨v', c'⟩ := result'
    obtain ⟨houtline, hmirrors'⟩ := hagree
    exact ⟨congrArg (fun answer => some answer :: answers) houtline, hs.perform hm, hmirrors'⟩

/-- Whatever a client does, its memory and its world stay matched. -/
theorem matched_run (host : Host E) (loader : Loader) (comments : Bool) (maxDepth : Nat)
    (client : Client E) (n : Nat) :
    Matched (client.run Memory.perform Memory.start n)
      (client.run Unswept.perform (Unswept.start host loader comments maxDepth) n) := by
  induction n with
  | zero => exact ⟨rfl, Memory.isSound_start, _, mirrors_start host loader comments maxDepth⟩
  | succ n ih => exact ih.step client

/-- **Sweeps are never seen.** Whatever a client does with a session, at all times the free slots are
the vacant ones, each once, and as many slots are counted as are occupied. What a handle, a closure
or a parent refers to is in its slot, chains of parents end at the root, and the memory mirrors a
world from which nothing is taken away. So the client is told what it would be told there. -/
theorem sweeps_unobservable (host : Host E) (loader : Loader) (comments : Bool) (maxDepth : Nat)
    (client : Client E) (n : Nat) :
    let after := client.run Memory.perform Memory.start n
    let unswept := client.run Unswept.perform (Unswept.start host loader comments maxDepth) n
    let m := after.2
    (m.free.Nodup ∧ (∀ id, id ∈ m.free ↔ m.slots[id]? = some none) ∧
      m.live = m.slots.countP Option.isSome) ∧
    (∀ p id, m.Refers p → m.slotOf? p = some id →
      ∃ record, m.record? id = some record ∧ record.pin = p) ∧
    (∀ id parent, m.IsParent id parent → ∃ above, m.record? parent = some above) ∧
    (∃ root, m.record? 0 = some root ∧ root.parent = none) ∧
    (∀ id record, m.record? id = some record → Relation.ReflTransGen m.IsParent id 0) ∧
    (∃ place, Mirrors place m unswept.2) ∧
    after.1 = unswept.1 := by
  intro after unswept m
  obtain ⟨hanswers, hs, place, h⟩ := matched_run host loader comments maxDepth client n
  obtain ⟨root, hroot⟩ := hs.root
  refine ⟨⟨hs.free_nodup, fun id => hs.mem_free, hs.live⟩, fun p id hp hid => hs.refers hp hid, ?_,
    ⟨root, hroot, (hs.orphan hroot).mpr rfl⟩, ?_, ⟨place, h⟩, hanswers⟩
  · intro id parent hparent
    obtain ⟨record, hrecord, hsome⟩ := hparent
    exact hs.parent hrecord hsome
  · exact fun id record hrecord => h.reaches_root hs hrecord

-- The slot of a scope that nothing refers to any more is used again.
example :
    let operations : List (Operation Empty) := [.child 0, .release 1, .sweep, .child 0]
    let client : Client Empty := fun answers => operations.getD answers.length .sweep
    (client.run Memory.perform Memory.start 4).2.slots.length = 2 := by
  cbv

end FlatLisp
