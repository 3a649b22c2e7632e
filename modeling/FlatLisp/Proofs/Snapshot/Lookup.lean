import FlatLisp.Proofs.Keywords
import FlatLisp.Proofs.Snapshot.ByteOrder
import FlatLisp.Session
import FlatLisp.Value.Snapshot
import Mathlib.Data.Set.Card
import Mathlib.Logic.Relation

/-!
# Snapshots of symbols and lookup

A name is looked up outwards, up to the first scope that binds it. The bindings in sight are the same
ones whether tables are gathered outwards, where the first binding of a name stays, or merged from the
root inwards, where a later binding takes the place of an earlier one. Both lists are sorted by name
without repetition, so that halving finds in a snapshot what a walk along the scopes would find.

How long a walk can be does not matter. Were it to come back to a scope, it would see nothing new from
there on; so as many steps as there are scopes see every table.
-/

namespace FlatLisp

/-! ## Sorted entries -/

namespace Table

variable {V : Type} {entries : Table V} {name : String}

/-- The names of entries are strictly increasing. -/
def IsSorted (entries : Table V) : Prop :=
  entries.Pairwise fun a b => a.1 < b.1

/-- The names of sorted entries in their order. -/
theorem IsSorted.map_fst (h : entries.IsSorted) : (entries.map Prod.fst).Pairwise (· < ·) :=
  List.pairwise_map.mpr h

/-- What the first of two lists of entries binds hides what the second binds. -/
theorem find?_append (entries others : Table V) (name : String) :
    Table.find? (entries ++ others) name = (entries.find? name).or (others.find? name) :=
  List.lookup_append

/-- Entries behind each other bind a name as the first of them that does. -/
theorem find?_flatten (tables : List (Table V)) (name : String) :
    Table.find? tables.flatten name = tables.findSome? fun table => table.find? name := by
  induction tables with
  | nil => rfl
  | cons table tables ih =>
    rw [List.flatten_cons, find?_append, ih, List.findSome?_cons]
    cases table.find? name with
    | none => rfl
    | some v => rfl

/-- One entry in front of others. -/
theorem find?_cons (entry : String × V) (entries : Table V) (name : String) :
    Table.find? (entry :: entries) name =
      if name = entry.1 then some entry.2 else entries.find? name := by
  unfold find?
  rw [List.lookup_cons]
  by_cases h : name = entry.1
  · rw [if_pos h, h, beq_self_eq_true]
  · rw [if_neg h, beq_false_of_ne h]

/-- A name is bound if there is an entry for it. -/
theorem isSome_find?_iff : (entries.find? name).isSome = true ↔ name ∈ entries.map Prod.fst := by
  induction entries with
  | nil => simp [find?]
  | cons entry entries ih =>
    rw [find?_cons, List.map_cons, List.mem_cons, ← ih]
    by_cases h : name = entry.1
    · simp [h]
    · simp [h]

/-- A name below all others is not bound. -/
theorem find?_eq_none_of_lt (h : ∀ entry ∈ entries, name < entry.1) :
    entries.find? name = none := by
  by_contra hbound
  obtain ⟨entry, hentry, rfl⟩ :=
    List.mem_map.mp (isSome_find?_iff.mp (Option.isSome_iff_ne_none.mpr hbound))
  exact lt_irrefl _ (h entry hentry)

/-- Sorted entries bind what they list. -/
theorem IsSorted.mem_iff (h : entries.IsSorted) {v : V} :
    (name, v) ∈ entries ↔ entries.find? name = some v := by
  refine ⟨fun hmem => ?_, mem_of_find?⟩
  induction entries with
  | nil => cases hmem
  | cons entry entries ih =>
    obtain ⟨hbelow, hsorted⟩ := List.pairwise_cons.mp h
    rw [find?_cons]
    rcases List.mem_cons.mp hmem with rfl | hmem
    · rw [if_pos rfl]
    · rw [if_neg (ne_of_gt (hbelow _ hmem)), ih hsorted hmem]

/-- Sorted entries are different from each other. -/
theorem IsSorted.nodup (h : entries.IsSorted) : entries.Nodup := by
  refine List.Pairwise.imp (fun {a b} hlt => ?_) h
  rintro rfl
  exact lt_irrefl _ hlt

/-- Sorted entries that bind the same values to names are the same. -/
theorem IsSorted.ext {others : Table V} (h : entries.IsSorted) (h' : others.IsSorted)
    (heq : ∀ name, entries.find? name = others.find? name) : entries = others := by
  have hperm : entries.Perm others := by
    rw [List.perm_ext_iff_of_nodup]
    · rintro ⟨name, v⟩
      rw [h.mem_iff, h'.mem_iff, heq]
    · exact h.nodup
    · exact h'.nodup
  exact hperm.eq_of_pairwise (fun a b _ _ hab hba => absurd hba (lt_asymm hab)) h h'

end Table

/-! ## Search by halving -/

namespace Snapshot

variable {V : Type} {entries : Array (String × V)} {name : String}

/-- The search ends at the entry of a name, as long as the half that is kept holds it. -/
theorem search_eq (hsorted : Table.IsSorted entries.toList) {i : Nat} {v : V}
    (hi : entries[i]? = some (name, v)) (base size : Nat) (hlow : base ≤ i) (hhigh : i < base + size)
    (hbound : base + size ≤ entries.size) : search entries name base size = i := by
  have hlt {j k : Nat} {a b : String × V} (ha : entries[j]? = some a) (hb : entries[k]? = some b)
      (hjk : j < k) : a.1 < b.1 := by
    obtain ⟨hj, rfl⟩ := Array.getElem?_eq_some_iff.mp ha
    obtain ⟨hk, rfl⟩ := Array.getElem?_eq_some_iff.mp hb
    exact List.pairwise_iff_getElem.mp hsorted j k hj hk hjk
  induction size using Nat.strong_induction_on generalizing base with
  | _ size ih =>
    rw [search]
    split
    · omega
    · next hsize =>
      obtain ⟨middle, hmiddle⟩ : ∃ entry, entries[base + size / 2]? = some entry :=
        ⟨_, Array.getElem?_eq_getElem (by omega)⟩
      by_cases hafter : name < middle.1
      · have hbefore : i < base + size / 2 := by
          by_contra hge
          rcases Nat.lt_or_eq_of_le (Nat.le_of_not_lt hge) with hgt | heq
          · exact lt_asymm hafter (hlt hmiddle hi hgt)
          · rw [← heq, hmiddle] at hi
            cases hi
            exact lt_irrefl _ hafter
        simp only [hmiddle, Option.any_some, decide_eq_true hafter, if_true]
        exact ih (size - size / 2) (by omega) base hlow (by omega) (by omega)
      · have hbehind : base + size / 2 ≤ i := by
          by_contra hlt'
          exact hafter (hlt hi hmiddle (Nat.lt_of_not_le hlt'))
        simp only [hmiddle, Option.any_some, decide_eq_false hafter, Bool.false_eq_true, if_false]
        exact ih (size - size / 2) (by omega) (base + size / 2) hbehind (by omega) (by omega)

/-- Halving finds in sorted entries what they bind. -/
theorem get?_eq_find? {entries : Table V} (hsorted : entries.IsSorted) (name : String) :
    get? entries name = entries.find? name := by
  unfold get?
  cases hfound : entries.find? name with
  | none =>
    rw [Option.bind_eq_none_iff]
    intro entry hentry
    rw [if_neg]
    rintro rfl
    have hmem : entry ∈ entries := List.mem_of_getElem? (by simpa using hentry)
    rw [hsorted.mem_iff.mp hmem] at hfound
    cases hfound
  | some v =>
    obtain ⟨i, hi⟩ := List.getElem?_of_mem (hsorted.mem_iff.mpr hfound)
    have hentry : entries.toArray[i]? = some (name, v) := by
      rw [List.getElem?_toArray, hi]
    have hlt := (Array.getElem?_eq_some_iff.mp hentry).1
    have hplace : search entries.toArray name 0 entries.toArray.size = i := by
      apply search_eq hsorted hentry 0 _ (Nat.zero_le i)
      · rwa [Nat.zero_add]
      · rw [Nat.zero_add]
    simp only [hplace, hentry, Option.bind_some, if_true]

end Snapshot

namespace World

variable {E : Type} {w : World E} {s t : ScopeId} {name : String}

/-! ## Gathering outwards and merging inwards -/

/-- An entry that is sorted in stays behind those below it. -/
theorem isSorted_insertNew {sorted : Table (Value E)} (h : sorted.IsSorted)
    (entry : String × Value E) : Table.IsSorted (insertNew entry sorted) := by
  induction sorted with
  | nil => exact List.pairwise_singleton _ entry
  | cons head rest ih =>
    obtain ⟨hbelow, hrest⟩ := List.pairwise_cons.mp h
    unfold insertNew
    split
    · next hlt =>
      refine List.pairwise_cons.mpr ⟨fun other hother => ?_, h⟩
      rcases List.mem_cons.mp hother with rfl | hother
      · exact hlt
      · exact hlt.trans (hbelow other hother)
    · split
      · exact h
      · next hge hne =>
        refine List.pairwise_cons.mpr ⟨fun other hother => ?_, ih hrest⟩
        rcases mem_insertNew hother with rfl | hother
        · exact lt_of_le_of_ne (not_lt.mp hge) (Ne.symm hne)
        · exact hbelow other hother

/-- An entry that is sorted in binds its name unless the name is bound already. -/
theorem find?_insertNew {sorted : Table (Value E)} (h : sorted.IsSorted)
    (entry : String × Value E) (name : String) :
    Table.find? (insertNew entry sorted) name =
      (sorted.find? name).or (if name = entry.1 then some entry.2 else none) := by
  induction sorted with
  | nil =>
    rw [insertNew, Table.find?_cons]
    rfl
  | cons head rest ih =>
    obtain ⟨hbelow, hrest⟩ := List.pairwise_cons.mp h
    unfold insertNew
    split
    · next hlt =>
      have hnew : Table.find? (head :: rest) entry.1 = none := by
        refine Table.find?_eq_none_of_lt fun other hother => ?_
        rcases List.mem_cons.mp hother with rfl | hother
        · exact hlt
        · exact hlt.trans (hbelow other hother)
      rw [Table.find?_cons entry]
      split
      · next heq => rw [heq, hnew, Option.none_or]
      · rw [Option.or_none]
    · split
      · next hsame =>
        rw [Table.find?_cons, hsame]
        split
        · rw [Option.some_or]
        · rw [Option.or_none]
      · rw [Table.find?_cons, Table.find?_cons, ih hrest]
        split
        · rw [Option.some_or]
        · rfl

/-- What sorting entries in one after the other comes to. -/
theorem foldl_insertNew (entries : Table (Value E)) {sorted : Table (Value E)}
    (h : sorted.IsSorted) :
    Table.IsSorted (entries.foldl (fun sorted entry => insertNew entry sorted) sorted) ∧
      ∀ name, Table.find? (entries.foldl (fun sorted entry => insertNew entry sorted) sorted) name =
        (sorted.find? name).or (entries.find? name) := by
  induction entries generalizing sorted with
  | nil => exact ⟨h, fun _ => Option.or_none.symm⟩
  | cons entry entries ih =>
    obtain ⟨hsorted, hfind⟩ := ih (isSorted_insertNew h entry)
    refine ⟨hsorted, fun name => (hfind name).trans ?_⟩
    rw [find?_insertNew h, Option.or_assoc, Table.find?_cons]
    split
    · rw [Option.some_or]
    · rw [Option.none_or]

/-- The bindings in sight are sorted by name. -/
theorem isSorted_bindings (w : World E) (s : ScopeId) : Table.IsSorted (w.bindings s) :=
  (foldl_insertNew _ List.Pairwise.nil).1

/-- The bindings in sight bind what lookup finds. -/
theorem find?_bindings (w : World E) (s : ScopeId) (name : String) :
    Table.find? (w.bindings s) name = w.find? s name := by
  unfold bindings find?
  rw [(foldl_insertNew _ List.Pairwise.nil).2, ← Table.find?_flatten]
  rfl

/-- Put an entry among sorted ones, in place of any of the same name. -/
def overwrite (entry : String × Value E) : List (String × Value E) → List (String × Value E)
  | [] => [entry]
  | head :: rest =>
    if entry.1 < head.1 then entry :: head :: rest
    else if entry.1 = head.1 then entry :: rest
    else head :: overwrite entry rest

/-- The tables in sight merged from the root inwards, each over those merged before. -/
def merged (w : World E) (s : ScopeId) : List (String × Value E) :=
  (w.visible s).foldr (fun table sorted => table.foldr overwrite sorted) []

/-- Overwriting brings in no entry but the new one. -/
theorem mem_overwrite {entry other : String × Value E} {sorted : List (String × Value E)}
    (h : other ∈ overwrite entry sorted) : other = entry ∨ other ∈ sorted := by
  induction sorted with
  | nil => exact .inl (List.mem_singleton.mp h)
  | cons head rest ih =>
    unfold overwrite at h
    split at h
    · exact List.mem_cons.mp h
    · split at h
      · exact (List.mem_cons.mp h).imp_right (List.mem_cons_of_mem head)
      · rcases List.mem_cons.mp h with rfl | h
        · exact .inr List.mem_cons_self
        · exact (ih h).imp_right (List.mem_cons_of_mem head)

/-- Sorted entries stay sorted when one is overwritten. -/
theorem isSorted_overwrite {sorted : Table (Value E)} (h : sorted.IsSorted)
    (entry : String × Value E) : Table.IsSorted (overwrite entry sorted) := by
  induction sorted with
  | nil => exact List.pairwise_singleton _ entry
  | cons head rest ih =>
    obtain ⟨hbelow, hrest⟩ := List.pairwise_cons.mp h
    unfold overwrite
    split
    · next hlt =>
      refine List.pairwise_cons.mpr ⟨fun other hother => ?_, h⟩
      rcases List.mem_cons.mp hother with rfl | hother
      · exact hlt
      · exact hlt.trans (hbelow other hother)
    · split
      · next hsame =>
        refine List.pairwise_cons.mpr ⟨fun other hother => ?_, hrest⟩
        rw [hsame]
        exact hbelow other hother
      · next hge hne =>
        refine List.pairwise_cons.mpr ⟨fun other hother => ?_, ih hrest⟩
        rcases mem_overwrite hother with rfl | hother
        · exact lt_of_le_of_ne (not_lt.mp hge) (Ne.symm hne)
        · exact hbelow other hother

/-- An overwritten name has its new value and other names have theirs. -/
theorem find?_overwrite (entry : String × Value E) (sorted : Table (Value E)) (name : String) :
    Table.find? (overwrite entry sorted) name =
      if name = entry.1 then some entry.2 else sorted.find? name := by
  induction sorted with
  | nil => exact Table.find?_cons entry [] name
  | cons head rest ih =>
    unfold overwrite
    split
    · exact Table.find?_cons entry (head :: rest) name
    · split
      · next hsame =>
        rw [Table.find?_cons, Table.find?_cons, ← hsame]
        split <;> rfl
      · next hne =>
        rw [Table.find?_cons, ih, Table.find?_cons]
        by_cases hname : name = head.1
        · rw [if_pos hname, if_neg (fun h => hne (h.symm.trans hname)), if_pos hname]
        · rw [if_neg hname, if_neg hname]

/-- What overwriting with one entry after the other comes to. -/
theorem foldr_overwrite (entries : Table (Value E)) {sorted : Table (Value E)}
    (h : sorted.IsSorted) :
    Table.IsSorted (entries.foldr overwrite sorted) ∧
      ∀ name, Table.find? (entries.foldr overwrite sorted) name =
        (entries.find? name).or (sorted.find? name) := by
  induction entries with
  | nil => exact ⟨h, fun _ => Option.none_or.symm⟩
  | cons entry entries ih =>
    refine ⟨isSorted_overwrite ih.1 entry, fun name => ?_⟩
    rw [List.foldr_cons, find?_overwrite, ih.2, Table.find?_cons]
    split
    · rw [Option.some_or]
    · rfl

/-- First binding outwards and last binding inwards are the same. -/
theorem merged_eq_bindings (w : World E) (s : ScopeId) : w.merged s = w.bindings s := by
  have hmerged : ∀ tables : List (Table (Value E)),
      Table.IsSorted (tables.foldr (fun table sorted => table.foldr overwrite sorted) []) ∧
        ∀ name, Table.find?
            (tables.foldr (fun table sorted => table.foldr overwrite sorted) []) name =
          tables.findSome? fun table => table.find? name := by
    intro tables
    induction tables with
    | nil => exact ⟨List.Pairwise.nil, fun _ => rfl⟩
    | cons table tables ih =>
      obtain ⟨hsorted, hfind⟩ := foldr_overwrite table ih.1
      refine ⟨hsorted, fun name => (hfind name).trans ?_⟩
      rw [ih.2, List.findSome?_cons]
      cases table.find? name with
      | none => rfl
      | some v => rfl
  obtain ⟨hsorted, hfind⟩ := hmerged (w.visible s)
  refine hsorted.ext (isSorted_bindings w s) fun name => ?_
  rw [find?_bindings]
  exact hfind name

/-! ## Walks along parents -/

/-- A scope is met on the way from `s` through the parents. -/
def OnChain (w : World E) (s t : ScopeId) : Prop :=
  Relation.ReflTransGen (fun t parent => w.parent? t = some parent) s t

/-- On the way from a scope through the parents, the first scope that binds `name` binds it to
`v`. -/
inductive FirstBinds (w : World E) (name : String) (v : Value E) : ScopeId → Prop where
  | here {s : ScopeId} {scope : Scope E} (hscope : w.scopes[s]? = some scope)
      (hfound : scope.table.find? name = some v) : FirstBinds w name v s
  | outward {s parent : ScopeId} (hlocal : w.hasLocal s name = false)
      (hparent : w.parent? s = some parent) (hfirst : FirstBinds w name v parent) :
      FirstBinds w name v s

/-- A name that a scope binds itself. -/
theorem hasLocal_iff : w.hasLocal s name = true ↔
    ∃ scope v, w.scopes[s]? = some scope ∧ scope.table.find? name = some v := by
  unfold hasLocal
  cases hscope : w.scopes[s]? with
  | none => simp
  | some scope => simp [Option.isSome_iff_exists]

/-- There is one value at most that a name is bound to first. -/
theorem FirstBinds.unique {v v' : Value E} (h : w.FirstBinds name v s)
    (h' : w.FirstBinds name v' s) : v = v' := by
  induction h with
  | here hscope hfound =>
    cases h' with
    | here hscope' hfound' =>
      rw [hscope] at hscope'
      cases hscope'
      exact Option.some.inj (hfound.symm.trans hfound')
    | outward hlocal _ _ =>
      rw [hasLocal_iff.mpr ⟨_, _, hscope, hfound⟩] at hlocal
      cases hlocal
  | outward hlocal hparent _ ih =>
    cases h' with
    | here hscope' hfound' =>
      rw [hasLocal_iff.mpr ⟨_, _, hscope', hfound'⟩] at hlocal
      cases hlocal
    | outward _ hparent' hfirst' =>
      rw [hparent] at hparent'
      cases hparent'
      exact ih hfirst'

/-- A scope that binds a name first is on the way. -/
theorem FirstBinds.exists_onChain {v : Value E} (h : w.FirstBinds name v s) :
    ∃ t, w.OnChain s t ∧ w.hasLocal t name = true := by
  induction h with
  | here hscope hfound => exact ⟨_, .refl, hasLocal_iff.mpr ⟨_, _, hscope, hfound⟩⟩
  | outward _ hparent _ ih =>
    obtain ⟨t, hchain, hbinds⟩ := ih
    exact ⟨t, .head hparent hchain, hbinds⟩

/-- What is found within some steps is what the walk finds first. -/
theorem firstBinds_of_chain {fuel : Nat} {v : Value E}
    (h : (w.chain fuel s).findSome? (fun table => table.find? name) = some v) :
    w.FirstBinds name v s := by
  induction fuel generalizing s with
  | zero => cases h
  | succ fuel ih =>
    unfold chain at h
    cases hscope : w.scopes[s]? with
    | none => simp [hscope] at h
    | some scope =>
      cases hfound : scope.table.find? name with
      | some found =>
        cases hparent : scope.parent <;>
          simp only [hscope, hparent, List.findSome?_cons, hfound, Option.some.injEq] at h <;>
          exact .here hscope (h ▸ hfound)
      | none =>
        cases hparent : scope.parent with
        | none => simp [hscope, hparent, hfound] at h
        | some parent =>
          simp only [hscope, hparent, List.findSome?_cons, hfound] at h
          refine .outward ?_ ?_ (ih h)
          · simp [hasLocal, hscope, hfound]
          · simp [parent?, hscope, hparent]

/-- Tables within some steps are tables of scopes on the way. -/
theorem exists_onChain_of_mem_chain {fuel : Nat} {table : Table (Value E)}
    (h : table ∈ w.chain fuel s) :
    ∃ t scope, w.OnChain s t ∧ w.scopes[t]? = some scope ∧ scope.table = table := by
  induction fuel generalizing s with
  | zero => cases h
  | succ fuel ih =>
    unfold chain at h
    cases hscope : w.scopes[s]? with
    | none => simp [hscope] at h
    | some scope =>
      cases hparent : scope.parent with
      | none =>
        simp only [hscope, hparent, List.mem_singleton] at h
        exact ⟨s, scope, .refl, hscope, h.symm⟩
      | some parent =>
        simp only [hscope, hparent, List.mem_cons] at h
        rcases h with rfl | h
        · exact ⟨s, scope, .refl, hscope, rfl⟩
        · obtain ⟨t, found, hchain, hfound⟩ := ih h
          refine ⟨t, found, .head ?_ hchain, hfound⟩
          simp [parent?, hscope, hparent]

/-- The scope that is reached from another in `k` steps outwards. -/
def ancestor? (w : World E) : (k : Nat) → ScopeId → Option ScopeId
  | 0, s => some s
  | k + 1, s => (w.parent? s).bind (w.ancestor? k)

/-- Steps outwards can be taken in two parts. -/
theorem ancestor?_add (w : World E) (j k : Nat) (s : ScopeId) :
    w.ancestor? (j + k) s = (w.ancestor? j s).bind (w.ancestor? k) := by
  induction j generalizing s with
  | zero => simp [ancestor?]
  | succ j ih =>
    rw [Nat.add_right_comm, ancestor?, ancestor?, Option.bind_assoc]
    exact congrArg (w.parent? s).bind (funext ih)

/-- What is on the way is met after some steps. -/
theorem OnChain.exists_ancestor? (h : w.OnChain s t) : ∃ k, w.ancestor? k s = some t := by
  induction h using Relation.ReflTransGen.head_induction_on with
  | refl => exact ⟨0, rfl⟩
  | head hparent _ ih =>
    obtain ⟨k, hk⟩ := ih
    exact ⟨k + 1, by rw [ancestor?, hparent, Option.bind_some, hk]⟩

/-- A scope that has a parent exists. -/
theorem lt_size_of_parent? {parent : ScopeId} (h : w.parent? s = some parent) :
    s < w.scopes.size := by
  obtain ⟨scope, hscope, -⟩ := Option.bind_eq_some_iff.mp h
  exact (Array.getElem?_eq_some_iff.mp hscope).1

/-- Scopes on the way to one that exists exist. -/
theorem exists_ancestor?_of_le {j k : Nat} (h : w.ancestor? k s = some t)
    (ht : t < w.scopes.size) (hj : j ≤ k) :
    ∃ u, w.ancestor? j s = some u ∧ u < w.scopes.size := by
  obtain ⟨m, rfl⟩ := Nat.exists_eq_add_of_le hj
  rw [ancestor?_add] at h
  obtain ⟨u, hu, hrest⟩ := Option.bind_eq_some_iff.mp h
  refine ⟨u, hu, ?_⟩
  cases m with
  | zero =>
    cases hrest
    exact ht
  | succ m =>
    obtain ⟨parent, hparent, -⟩ := Option.bind_eq_some_iff.mp hrest
    exact lt_size_of_parent? hparent

/-- A way that is longer than there are scopes meets one of them twice and can be cut short. -/
theorem exists_shorter {k : Nat} (h : w.ancestor? k s = some t) (ht : t < w.scopes.size)
    (hk : w.scopes.size ≤ k) : ∃ j < k, w.ancestor? j s = some t := by
  obtain ⟨i, hi, j, hj, hne, hsame⟩ := Finset.exists_ne_map_eq_of_card_lt_of_maps_to
    (s := Finset.range (k + 1)) (t := (Finset.range w.scopes.size).image some)
    (f := fun i => w.ancestor? i s) (by
      rw [Finset.card_image_of_injective _ (Option.some_injective _), Finset.card_range,
        Finset.card_range]
      omega) (by
      intro i hi
      obtain ⟨u, hu, hlt⟩ :=
        exists_ancestor?_of_le h ht (Nat.le_of_lt_succ (Finset.mem_range.mp hi))
      exact Finset.mem_coe.mpr (Finset.mem_image.mpr ⟨u, Finset.mem_range.mpr hlt, hu.symm⟩))
  rw [Finset.mem_range] at hi hj
  have hcut : ∀ {i j : Nat}, i < j → j ≤ k → w.ancestor? i s = w.ancestor? j s →
      ∃ m < k, w.ancestor? m s = some t := by
    intro i j hij hjk hsame
    refine ⟨i + (k - j), by omega, ?_⟩
    rw [ancestor?_add, hsame, ← ancestor?_add, Nat.add_sub_of_le hjk, h]
  rcases Nat.lt_or_gt_of_ne hne with hlt | hgt
  · exact hcut hlt (Nat.le_of_lt_succ hj) hsame
  · exact hcut hgt (Nat.le_of_lt_succ hi) hsame.symm

/-- What is on the way is met in fewer steps than there are scopes. -/
theorem exists_ancestor?_lt {k : Nat} (h : w.ancestor? k s = some t) (ht : t < w.scopes.size) :
    ∃ j < w.scopes.size, w.ancestor? j s = some t := by
  induction k using Nat.strong_induction_on with
  | _ k ih =>
    by_cases hk : k < w.scopes.size
    · exact ⟨k, hk, h⟩
    · obtain ⟨j, hj, hshorter⟩ := exists_shorter h ht (Nat.le_of_not_lt hk)
      exact ih j hj hshorter

/-- The table of a scope that is met in few enough steps is in sight. -/
theorem mem_chain_of_ancestor? {fuel k : Nat} {scope : Scope E} (h : w.ancestor? k s = some t)
    (hscope : w.scopes[t]? = some scope) (hk : k < fuel) : scope.table ∈ w.chain fuel s := by
  induction k generalizing s fuel with
  | zero =>
    cases h
    obtain ⟨fuel, rfl⟩ := Nat.exists_eq_add_one_of_ne_zero (Nat.ne_of_gt hk)
    unfold chain
    cases hparent : scope.parent <;> simp [hscope, hparent]
  | succ k ih =>
    obtain ⟨parent, hparent, hrest⟩ := Option.bind_eq_some_iff.mp h
    obtain ⟨found, hfound, hup⟩ := Option.bind_eq_some_iff.mp hparent
    obtain ⟨fuel, rfl⟩ := Nat.exists_eq_add_one_of_ne_zero (Nat.ne_of_gt (Nat.zero_lt_of_lt hk))
    unfold chain
    simp only [hfound, hup]
    exact List.mem_cons_of_mem _ (ih hrest (Nat.lt_of_succ_lt_succ hk))

/-- Lookup finds nothing if no scope on the way binds the name. -/
theorem find?_eq_none_iff :
    w.find? s name = none ↔ ∀ t, w.OnChain s t → w.hasLocal t name = false := by
  unfold find?
  rw [List.findSome?_eq_none_iff]
  constructor
  · intro h t hchain
    by_contra hbinds
    obtain ⟨scope, v, hscope, hfound⟩ := hasLocal_iff.mp (Bool.eq_true_of_not_eq_false hbinds)
    obtain ⟨k, hk⟩ := hchain.exists_ancestor?
    obtain ⟨j, hj, hmet⟩ := exists_ancestor?_lt hk (Array.getElem?_eq_some_iff.mp hscope).1
    rw [h scope.table (mem_chain_of_ancestor? hmet hscope hj)] at hfound
    cases hfound
  · intro h table htable
    obtain ⟨t, scope, hchain, hscope, rfl⟩ := exists_onChain_of_mem_chain htable
    have hlocal := h t hchain
    simpa [hasLocal, hscope] using hlocal

/-- Lookup finds the value that the walk finds first. -/
theorem find?_eq_some_iff {v : Value E} : w.find? s name = some v ↔ w.FirstBinds name v s := by
  refine ⟨firstBinds_of_chain, fun h => ?_⟩
  cases hfound : w.find? s name with
  | none =>
    obtain ⟨t, hchain, hbinds⟩ := h.exists_onChain
    rw [find?_eq_none_iff.mp hfound t hchain] at hbinds
    cases hbinds
  | some found => rw [(firstBinds_of_chain hfound).unique h]

/-- There are as many bindings in sight as names are bound on the way. -/
theorem length_bindings (w : World E) (s : ScopeId) :
    (w.bindings s).length = {name | ∃ t, w.OnChain s t ∧ w.hasLocal t name = true}.ncard := by
  have hnodup : ((w.bindings s).map Prod.fst).Nodup :=
    (isSorted_bindings w s).map_fst.imp ne_of_lt
  have hnames : {name | ∃ t, w.OnChain s t ∧ w.hasLocal t name = true} =
      (((w.bindings s).map Prod.fst).toFinset : Set String) := by
    ext name
    have hnone : w.find? s name ≠ none ↔ ∃ t, w.OnChain s t ∧ w.hasLocal t name = true := by
      rw [Ne, find?_eq_none_iff]
      push Not
      simp only [ne_eq, Bool.not_eq_false]
    rw [Set.mem_ofPred_eq, ← hnone, ← find?_bindings, ← Option.isSome_iff_ne_none,
      Table.isSome_find?_iff, Finset.mem_coe, List.mem_toFinset]
  rw [hnames, Set.ncard_coe_finset, List.toFinset_card_of_nodup hnodup, List.length_map]

end World

variable {E : Type} [Embedding E]

/-! ## The table of symbols -/

/-- What `symbols` gives when it is called. -/
theorem call_symbols (id : Nat) (label : Option String) (s : ScopeId) (w : World E) :
    Function.call ⟨id, label, .form .symbols⟩ s [] w =
      (.ok (.object (Object.ofBindings w.nextId (w.bindings s))), { w with nextId := w.nextId + 1 }) :=
  rfl

/-- What a list gives that consists of a word for `symbols`. -/
theorem evaluate_symbols {w : World E} {s : ScopeId} {keyword : String} {session : Session E}
    (hmeans : w.Means s keyword .symbols) (hsession : w.sessionOf? s = some session)
    (hdeep : session.depth + 1 < session.maxDepth) :
    evaluate s [.left, .word keyword, .right] w =
      (.ok (.object (Object.ofBindings w.nextId (w.bindings s))),
        { w with nextId := w.nextId + 1 }) := by
  obtain ⟨i, hroom⟩ := World.HasRoom.of_sessionOf? hsession (Nat.lt_of_succ_lt hdeep)
  have hscopes : (w.setDepth i (session.depth + 1)).scopes = w.scopes := rfl
  have hbindings : (w.setDepth i (session.depth + 1)).bindings s = w.bindings s := by
    unfold World.bindings
    rw [World.visible_of_scopes_eq hscopes]
  have hcall := call_symbols 0 none s (w.setDepth i (session.depth + 1))
  rw [hbindings] at hcall
  refine (hroom.evaluate_keyword hdeep hmeans (.inr rfl) hcall).trans ?_
  have hback := congrArg (fun u : World E => { u with nextId := w.nextId + 1 }) hroom.setDepth_back
  exact Prod.ext rfl hback

/-- The table that `symbols` makes in a scope agrees with lookup from there. A name has in it the value
that the nearest scope on the way through the parents binds it to, and is missing if none does. Names
are strictly increasing by their bytes, and there are as many as are bound on the way. The table is also
the one that comes of merging tables from the root inwards. So a name stands for its value in the table,
if there is one, and otherwise for a host function or nothing. -/
theorem symbols_agree_with_lookup (w : World E) (s : ScopeId) :
    ∃ table : List (String × Value E),
      (∀ id label, ∃ object : Object E, object.snapshot = some table ∧
        Function.call ⟨id, label, .form .symbols⟩ s [] w =
          (.ok (.object object), { w with nextId := w.nextId + 1 })) ∧
      (∀ keyword session, w.Means s keyword .symbols → w.sessionOf? s = some session →
        session.depth + 1 < session.maxDepth → ∃ object : Object E, object.snapshot = some table ∧
          evaluate s [.left, .word keyword, .right] w =
            (.ok (.object object), { w with nextId := w.nextId + 1 })) ∧
      (∀ name v, Snapshot.get? table name = some v ↔ w.FirstBinds name v s) ∧
      (∀ name, Snapshot.get? table name = none ↔
        ∀ t, w.OnChain s t → w.hasLocal t name = false) ∧
      (table.map Prod.fst).Pairwise (fun a b => utf8 a < utf8 b) ∧ (table.map Prod.fst).Nodup ∧
      table.length = {name | ∃ t, w.OnChain s t ∧ w.hasLocal t name = true}.ncard ∧
      table = w.merged s ∧
      ∀ name, EvalM.lookup s name w =
        match Snapshot.get? table name with
        | some v => (.ok v, w)
        | none =>
          match (w.sessionOf? s).bind fun session => session.host.resolve? name with
          | some f => (.ok (.function f), w)
          | none => (.error (.undefinedSymbol name), w) := by
  have hsorted := World.isSorted_bindings w s
  have hget (name : String) : Snapshot.get? (w.bindings s) name = w.find? s name := by
    rw [Snapshot.get?_eq_find? hsorted, World.find?_bindings]
  refine ⟨w.bindings s, fun id label => ⟨_, rfl, call_symbols id label s w⟩,
    fun keyword session hmeans hsession hdeep =>
      ⟨_, rfl, evaluate_symbols hmeans hsession hdeep⟩, ?_, ?_, ?_, ?_, World.length_bindings w s,
    (World.merged_eq_bindings w s).symm, ?_⟩
  · intro name v
    rw [hget, World.find?_eq_some_iff]
  · intro name
    rw [hget, World.find?_eq_none_iff]
  · exact hsorted.map_fst.imp utf8_lt_iff.mpr
  · exact hsorted.map_fst.imp ne_of_lt
  · intro name
    rw [hget]
    rfl

end FlatLisp
