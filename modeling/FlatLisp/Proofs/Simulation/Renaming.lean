import FlatLisp.Proofs.Scopes
import FlatLisp.Proofs.Simulation.Evaluation

/-!
# Runs that differ in names

Two runs may number their scopes, functions and objects differently and still do the same. A
`Renaming` says which numbers of the one stand for which numbers of the other. Worlds are alike along
it if corresponding scopes hold corresponding bindings, if the next scopes and numbers correspond
too, and if both runs have printed and loaded the same since they started. Evaluations and calls keep
worlds alike and end in the same way.
-/

namespace FlatLisp

open Correspondence

variable {E : Type}

namespace Correspondence

variable {c d : Correspondence E}

/-- Data that correspond by way of `c` correspond by way of `d`. -/
structure Refines (c d : Correspondence E) : Prop where
  ids {a b : Nat} (h : c.Ids a b) : d.Ids a b
  captures {s t : ScopeId} (h : c.Captures s t) : d.Captures s t
  admits {p : Program} (h : c.Admits p) : d.Admits p
  objects {o o' : Object E} (h : c.Objects o o') : d.Objects o o'

/-- Functions correspond more coarsely. -/
theorem Refines.functions (h : c.Refines d) {f f' : Function E} (hf : c.Functions f f') :
    d.Functions f f' := by
  obtain ⟨id, label, body⟩ := f
  obtain ⟨id', label', body'⟩ := f'
  obtain ⟨hids, hlabel, hbody⟩ := hf
  refine ⟨h.ids hids, hlabel, ?_⟩
  cases hbody with
  | form f => exact .form f
  | builtin b => exact .builtin b
  | host f => exact .host f
  | closure formals hp hs => exact .closure formals (h.admits hp) (h.captures hs)
  | template formals hp => exact .template formals (h.admits hp)
  | embedded e => exact .embedded e

/-- Values correspond more coarsely. -/
theorem Refines.values (h : c.Refines d) {v v' : Value E} (hv : c.Values v v') : d.Values v v' := by
  cases hv with
  | bool b => exact .bool b
  | int n => exact .int n
  | float x => exact .float x
  | complex z => exact .complex z
  | symbol text => exact .symbol text
  | empty => exact .empty
  | function hf => exact .function (h.functions hf)
  | object ho => exact .object (h.objects ho)

/-- Bindings correspond more coarsely. -/
theorem Refines.bindings (h : c.Refines d) {entries entries' : List (String × Value E)}
    (he : List.Forall₂ c.Bindings entries entries') : List.Forall₂ d.Bindings entries entries' :=
  he.imp fun _ _ hentry => ⟨hentry.1, h.values hentry.2⟩

/-- Payloads correspond more coarsely. -/
theorem Refines.payloads (h : c.Refines d) {a a' : Foreign E} (ha : c.Payloads a a') :
    d.Payloads a a' := by
  cases ha with
  | bool b => exact .bool b
  | int64 n => exact .int64 n
  | int32 n => exact .int32 n
  | word32 n => exact .word32 n
  | float x => exact .float x
  | single x => exact .single x
  | complex z => exact .complex z
  | text s => exact .text s
  | fixedText s => exact .fixedText s
  | unit => exact .unit
  | function hf => exact .function (h.functions hf)
  | object ho => exact .object (h.objects ho)
  | boxed hv => exact .boxed (h.values hv)
  | unclaimed => exact .unclaimed

/-- Operands correspond more coarsely. -/
theorem Refines.operands (h : c.Refines d) {os os' : List (Operand E)}
    (ho : List.Forall₂ c.Operands os os') : List.Forall₂ d.Operands os os' := by
  refine ho.imp fun o o' hoperand => ?_
  cases hoperand with
  | value hv => exact .value (h.values hv)
  | program hp => exact .program (h.admits hp)
  | raw hr => exact .raw (h.payloads hr)

/-- Content of parameters corresponds more coarsely. -/
theorem Refines.carriers (h : c.Refines d) {type : ParamType} {a a' : type.Carrier E}
    (ha : c.Carriers type a a') : d.Carriers type a a' := by
  cases type with
  | value => exact h.values ha
  | program => exact ⟨ha.1, h.admits ha.2⟩
  | function => exact h.functions ha
  | object => exact h.objects ha
  | _ => exact ha

/-! ## Tables -/

variable {t t' : Table (Value E)} {name : String}

/-- A name is bound to corresponding values, if at all. -/
theorem rel_find? (h : List.Forall₂ c.Bindings t t') (name : String) :
    Option.Rel c.Values (t.find? name) (t'.find? name) := by
  induction h with
  | nil => exact .none
  | @cons entry entry' _ _ hentry _ ih =>
    obtain ⟨key, v⟩ := entry
    obtain ⟨_, v'⟩ := entry'
    obtain ⟨rfl, hv⟩ := hentry
    unfold Table.find?
    rw [List.lookup_cons, List.lookup_cons]
    cases name == key with
    | true => exact .some hv
    | false => exact ih

/-- Corresponding values may be bound to a name. -/
theorem forall₂_insert (h : List.Forall₂ c.Bindings t t') (name : String) {v v' : Value E}
    (hv : c.Values v v') : List.Forall₂ c.Bindings (t.insert name v) (t'.insert name v') := by
  refine .cons ⟨rfl, hv⟩ (List.rel_filter (R := c.Bindings) ?_ h)
  intro entry entry' hentry
  dsimp only
  rw [hentry.1]

/-- Corresponding bindings are sorted in at the same place. -/
theorem forall₂_insertNew (h : List.Forall₂ c.Bindings t t') {entry entry' : String × Value E}
    (hentry : c.Bindings entry entry') :
    List.Forall₂ c.Bindings (World.insertNew entry t) (World.insertNew entry' t') := by
  induction h with
  | nil => exact .cons hentry .nil
  | cons hhead hrest ih =>
    unfold World.insertNew
    rw [hentry.1, hhead.1]
    split
    · exact .cons hentry (.cons hhead hrest)
    · split
      · exact .cons hhead hrest
      · exact .cons hhead ih

/-- The nearest of corresponding tables binds a name to corresponding values, if any does. -/
theorem rel_findSome? {tables tables' : List (Table (Value E))}
    (h : List.Forall₂ (List.Forall₂ c.Bindings) tables tables') (name : String) :
    Option.Rel c.Values (tables.findSome? fun table => table.find? name)
      (tables'.findSome? fun table => table.find? name) := by
  induction h with
  | nil => exact .none
  | @cons t t' _ _ ht _ ih =>
    have hfound := rel_find? ht name
    rw [List.findSome?_cons, List.findSome?_cons]
    generalize t.find? name = v, t'.find? name = v' at hfound
    cases hfound with
    | none => exact ih
    | some hv => exact .some hv

/-- Corresponding tables together sort into corresponding bindings. -/
theorem forall₂_foldl_insertNew {entries entries' : List (String × Value E)}
    (h : List.Forall₂ c.Bindings entries entries') (hsorted : List.Forall₂ c.Bindings t t') :
    List.Forall₂ c.Bindings (entries.foldl (fun sorted entry => World.insertNew entry sorted) t)
      (entries'.foldl (fun sorted entry => World.insertNew entry sorted) t') := by
  induction h generalizing t t' with
  | nil => exact hsorted
  | cons hentry _ ih => exact ih (forall₂_insertNew hsorted hentry)

end Correspondence

/-! ## Order of scopes -/

/-- Parents stand in front of their children. -/
def World.IsOrdered (w : World E) : Prop :=
  ∀ (s parent : ScopeId) (scope : Scope E), w.scopes[s]? = some scope →
    scope.parent = some parent → parent < s

namespace World

variable {w : World E}

/-- No table is in sight from where no scope is. -/
theorem chain_of_lost {s : ScopeId} (h : w.scopes[s]? = none) (fuel : Nat) : w.chain fuel s = [] := by
  cases fuel with
  | zero => rfl
  | succ fuel => simp only [chain, h]

/-- With parents in front, as many steps as the place of a scope says see all there is to see. -/
theorem IsOrdered.chain_eq (h : w.IsOrdered) {s : ScopeId} {fuel fuel' : Nat} (hs : s < fuel)
    (hs' : s < fuel') : w.chain fuel s = w.chain fuel' s := by
  induction fuel generalizing s fuel' with
  | zero => exact absurd hs (Nat.not_lt_zero s)
  | succ fuel ih =>
    cases fuel' with
    | zero => exact absurd hs' (Nat.not_lt_zero s)
    | succ fuel' =>
      unfold chain
      cases hscope : w.scopes[s]? with
      | none => rfl
      | some scope =>
        cases hparent : scope.parent with
        | none => simp only [hparent]
        | some parent =>
          have hlt := h s parent scope hscope hparent
          have hrest : w.chain fuel parent = w.chain fuel' parent :=
            ih (Nat.lt_of_lt_of_le hlt (Nat.le_of_lt_succ hs))
              (Nat.lt_of_lt_of_le hlt (Nat.le_of_lt_succ hs'))
          simp only [hparent, hrest]

/-- With parents in front, any number of steps that covers the scopes sees all there is to see. -/
theorem IsOrdered.visible_eq (h : w.IsOrdered) (s : ScopeId) {fuel : Nat}
    (hfuel : w.scopes.size ≤ fuel) : w.visible s = w.chain fuel s := by
  unfold visible
  by_cases hs : s < w.scopes.size
  · exact h.chain_eq hs (Nat.lt_of_lt_of_le hs hfuel)
  · have hlost : w.scopes[s]? = none := Array.getElem?_eq_none (Nat.not_lt.mp hs)
    rw [chain_of_lost hlost, chain_of_lost hlost]

/-- With parents in front, a scope sees its own table and what its parent sees. -/
theorem IsOrdered.visible_of_scope (h : w.IsOrdered) {s : ScopeId} {scope : Scope E}
    (hscope : w.scopes[s]? = some scope) :
    w.visible s = scope.table :: scope.parent.elim [] w.visible := by
  rw [h.visible_eq s (Nat.le_succ _), chain, hscope]
  cases hparent : scope.parent with
  | none => simp only [hparent, Option.elim_none]
  | some parent => simp only [hparent, Option.elim_some, visible]

/-- Binding names moves no scope. -/
theorem IsOrdered.bind (h : w.IsOrdered) (s : ScopeId) (name : String) (v : Value E) :
    (w.bind s name v).IsOrdered := by
  intro t parent scope hscope hparent
  rw [getElem?_bind] at hscope
  split at hscope
  · obtain ⟨before, hbefore, rfl⟩ := Option.map_eq_some_iff.mp hscope
    exact h t parent before hbefore hparent
  · exact h t parent scope hscope hparent

/-- A new scope below one that exists is behind it. -/
theorem IsOrdered.pushScope (h : w.IsOrdered) {scope : Scope E}
    (hnew : ∀ parent, scope.parent = some parent → parent < w.scopes.size) :
    (w.pushScope scope).1.IsOrdered := by
  intro t parent found hfound hparent
  rw [getElem?_pushScope] at hfound
  split at hfound
  · next heq =>
    cases hfound
    rw [heq]
    exact hnew parent hparent
  · exact h t parent found hfound hparent

end World

/-! ## Worlds that are alike -/

/-- Which numbers and objects of one run stand for which ones of another. -/
structure Renaming (E : Type) where
  /-- Numbers of functions and objects. -/
  Ids : Nat → Nat → Prop
  Captures : ScopeId → ScopeId → Prop
  Objects : Object E → Object E → Prop

namespace Renaming

variable (r : Renaming E)

/-- The data that correspond along a renaming. Any program may be evaluated. -/
def data : Correspondence E where
  Ids := r.Ids
  Captures := r.Captures
  Admits _ := True
  Objects := r.Objects
  Scopes := r.Captures
  Worlds _ _ := True
  Failures _ _ _ _ := True
  Cut _ _ := False

/-- What a renaming has to respect. -/
structure IsLawful : Prop where
  ids_unique {a a' b b' : Nat} (ha : r.Ids a a') (hb : r.Ids b b') : a = b ↔ a' = b'
  captures_unique {s s' t t' : ScopeId} (hs : r.Captures s s') (ht : r.Captures t t') :
    s = t ↔ s' = t'
  objects_ids {o o' : Object E} (h : r.Objects o o') : r.Ids o.id o'.id
  objects_text {o o' : Object E} (h : r.Objects o o') : o.text = o'.text
  objects_plain {a a' : Nat} (h : r.Ids a a') (text : String) :
    r.Objects ⟨a, text, none⟩ ⟨a', text, none⟩
  objects_snapshot {a a' : Nat} {entries entries' : List (String × Value E)} (h : r.Ids a a')
    (he : List.Forall₂ r.data.Bindings entries entries') :
    r.Objects (.ofBindings a entries) (.ofBindings a' entries')

/-- Scopes of one session with corresponding bindings and parents. -/
structure Scopes (scope scope' : Scope E) : Prop where
  tables : List.Forall₂ r.data.Bindings scope.table scope'.table
  parents : Option.Rel r.Captures scope.parent scope'.parent
  session : scope.session = scope'.session

/-- Worlds that two runs come to which start in `start` and `start'`: what is in them corresponds,
and what will be new in them will. -/
structure Alike (start start' w w' : World E) : Prop where
  scopes {t t' : ScopeId} (h : r.Captures t t') :
    Option.Rel r.Scopes (w.scopes[t]?) (w'.scopes[t']?)
  nextScopes (k : Nat) : r.Captures (w.scopes.size + k) (w'.scopes.size + k)
  nextIds (k : Nat) : r.Ids (w.nextId + k) (w'.nextId + k)
  sessions : w.sessions = w'.sessions
  hosts {session : Session E} (h : session ∈ w.sessions) {f : Function E}
    (hf : session.host.Offers f) : r.data.Functions f f
  printed : ∃ text, w.printed = start.printed ++ text ∧ w'.printed = start'.printed ++ text
  requested : ∃ paths, w.requested = paths ++ start.requested ∧
    w'.requested = paths ++ start'.requested
  /-- As many steps lead to the end of a chain of parents in both worlds. -/
  sight : w.scopes.size = w'.scopes.size ∨ w.IsOrdered ∧ w'.IsOrdered

/-- Runs from `start` and `start'` that keep the worlds alike. -/
def along (start start' : World E) : Correspondence E :=
  { r.data with
    Worlds := r.Alike start start'
    Failures := fun e w e' w' => e = e' ∧ r.Alike start start' w w' }

variable {r} {start start' w w' : World E} {s s' : ScopeId}

/-- The worlds do not matter for which data correspond. -/
theorem refines_data : (r.along start start').Refines r.data :=
  ⟨id, id, id, id⟩

/-- The worlds do not matter for which data correspond. -/
theorem data_refines : r.data.Refines (r.along start start') :=
  ⟨id, id, id, id⟩

namespace Alike

/-- Corresponding scopes have corresponding tables in sight. -/
theorem forall₂_chain (h : r.Alike start start' w w') (fuel : Nat) (hs : r.Captures s s') :
    List.Forall₂ (List.Forall₂ r.data.Bindings) (w.chain fuel s) (w'.chain fuel s') := by
  induction fuel generalizing s s' with
  | zero => exact .nil
  | succ fuel ih =>
    have hscopes := h.scopes hs
    unfold World.chain
    generalize w.scopes[s]? = found, w'.scopes[s']? = found' at hscopes
    cases hscopes with
    | none => exact .nil
    | @some scope scope' hscope =>
      have hparents := hscope.parents
      dsimp only
      generalize scope.parent = parent, scope'.parent = parent' at hparents
      cases hparents with
      | none => exact .cons hscope.tables .nil
      | some hparent => exact .cons hscope.tables (ih hparent)

/-- Corresponding scopes have corresponding tables in sight, down to their roots. -/
theorem forall₂_visible (h : r.Alike start start' w w') (hs : r.Captures s s') :
    List.Forall₂ (List.Forall₂ r.data.Bindings) (w.visible s) (w'.visible s') := by
  rcases h.sight with hsize | ⟨hw, hw'⟩
  · unfold World.visible
    rw [hsize]
    exact h.forall₂_chain _ hs
  · rw [hw.visible_eq s (Nat.le_max_left _ w'.scopes.size),
      hw'.visible_eq s' (Nat.le_max_right w.scopes.size _)]
    exact h.forall₂_chain _ hs

/-- Corresponding scopes belong to the same session. -/
theorem sessionOf?_eq (h : r.Alike start start' w w') (hs : r.Captures s s') :
    w.sessionOf? s = w'.sessionOf? s' := by
  have hscopes := h.scopes hs
  unfold World.sessionOf?
  rw [h.sessions]
  generalize w.scopes[s]? = found, w'.scopes[s']? = found' at hscopes
  cases hscopes with
  | none => rfl
  | some hscope => simp only [Option.bind_some, hscope.session]

/-- Both runs may take a number. -/
theorem newId (h : r.Alike start start' w w') :
    r.Alike start start' { w with nextId := w.nextId + 1 } { w' with nextId := w'.nextId + 1 } where
  scopes := h.scopes
  nextScopes := h.nextScopes
  nextIds k := by
    have hnext := h.nextIds (1 + k)
    rw [← Nat.add_assoc, ← Nat.add_assoc] at hnext
    exact hnext
  sessions := h.sessions
  hosts := h.hosts
  printed := h.printed
  requested := h.requested
  sight := h.sight

/-- Both runs may print a text. -/
theorem print (h : r.Alike start start' w w') (text : String) :
    r.Alike start start' { w with printed := w.printed ++ text }
      { w' with printed := w'.printed ++ text } := by
  obtain ⟨before, hw, hw'⟩ := h.printed
  exact { h with printed := ⟨before ++ text, by simp [hw, String.append_assoc],
    by simp [hw', String.append_assoc]⟩ }

/-- Both runs may ask for a source. -/
theorem request (h : r.Alike start start' w w') (path : String) :
    r.Alike start start' { w with requested := path :: w.requested }
      { w' with requested := path :: w'.requested } := by
  obtain ⟨paths, hw, hw'⟩ := h.requested
  exact { h with requested := ⟨path :: paths, by simp [hw], by simp [hw']⟩ }

/-- Both runs may nest a session. -/
theorem setDepth (h : r.Alike start start' w w') (session depth : Nat) :
    r.Alike start start' (w.setDepth session depth) (w'.setDepth session depth) where
  scopes := h.scopes
  nextScopes := h.nextScopes
  nextIds := h.nextIds
  sessions := by
    unfold World.setDepth
    rw [h.sessions]
  hosts := by
    intro session hsession f hf
    obtain ⟨before, hbefore, heq⟩ := World.exists_of_mem_setDepth hsession
    rw [heq] at hf
    exact h.hosts hbefore hf
  printed := h.printed
  requested := h.requested
  sight := h.sight

/-- Both runs may bind a name to corresponding values. -/
theorem bind (h : r.Alike start start' w w') (hr : r.IsLawful) (hs : r.Captures s s')
    (name : String) {v v' : Value E} (hv : r.data.Values v v') :
    r.Alike start start' (w.bind s name v) (w'.bind s' name v') where
  scopes := by
    intro t t' ht
    have hscopes := h.scopes ht
    rw [World.getElem?_bind, World.getElem?_bind]
    by_cases heq : s = t
    · rw [if_pos heq, if_pos ((hr.captures_unique hs ht).mp heq)]
      generalize w.scopes[t]? = found, w'.scopes[t']? = found' at hscopes
      cases hscopes with
      | none => exact .none
      | some hscope =>
        exact .some ⟨forall₂_insert hscope.tables name hv, hscope.parents, hscope.session⟩
    · rw [if_neg heq, if_neg (mt (hr.captures_unique hs ht).mpr heq)]
      exact hscopes
  nextScopes := by
    rw [World.size_bind, World.size_bind]
    exact h.nextScopes
  nextIds := h.nextIds
  sessions := h.sessions
  hosts := h.hosts
  printed := h.printed
  requested := h.requested
  sight := by
    rw [World.size_bind, World.size_bind]
    exact h.sight.imp_right fun ho => ⟨ho.1.bind s name v, ho.2.bind s' name v'⟩

/-- Both runs may add a scope below corresponding ones. -/
theorem pushScope (h : r.Alike start start' w w') (hr : r.IsLawful) (hs : r.Captures s s')
    (hsize : s < w.scopes.size) (hsize' : s' < w'.scopes.size) (session : Nat) :
    r.Alike start start' (w.pushScope ⟨[], some s, session⟩).1
      (w'.pushScope ⟨[], some s', session⟩).1 where
  scopes := by
    intro t t' ht
    have hunique : t = w.scopes.size ↔ t' = w'.scopes.size :=
      hr.captures_unique ht (h.nextScopes 0)
    rw [World.getElem?_pushScope, World.getElem?_pushScope]
    by_cases heq : t = w.scopes.size
    · rw [if_pos heq, if_pos (hunique.mp heq)]
      exact .some ⟨.nil, .some hs, rfl⟩
    · rw [if_neg heq, if_neg (mt hunique.mpr heq)]
      exact h.scopes ht
  nextScopes k := by
    have hnext := h.nextScopes (1 + k)
    rw [← Nat.add_assoc, ← Nat.add_assoc] at hnext
    simpa only [World.pushScope, Array.size_push] using hnext
  nextIds := h.nextIds
  sessions := h.sessions
  hosts := h.hosts
  printed := h.printed
  requested := h.requested
  sight := by
    simp only [World.pushScope, Array.size_push, Nat.add_right_cancel_iff]
    refine h.sight.imp_right fun ho => ⟨ho.1.pushScope ?_, ho.2.pushScope ?_⟩
    · intro parent hparent
      cases hparent
      exact hsize
    · intro parent hparent
      cases hparent
      exact hsize'

end Alike

/-! ## Primitives -/

/-- Names are looked up alike. -/
theorem runs_lookup (hs : r.Captures s s') (name : String) :
    (r.along start start').Runs (r.along start start').Values (EvalM.lookup s name)
      (EvalM.lookup s' name) := by
  intro w w' hw
  have hfound : Option.Rel r.data.Values (w.find? s name) (w'.find? s' name) :=
    rel_findSome? (hw.forall₂_visible hs) name
  unfold EvalM.lookup
  rw [← hw.sessionOf?_eq hs]
  generalize w.find? s name = found, w'.find? s' name = found' at hfound
  cases hfound with
  | some hv => exact .ok (data_refines.values hv) hw
  | none =>
    cases hhost : (w.sessionOf? s).bind fun session => session.host.resolve? name with
    | none => exact .failed ⟨rfl, hw⟩
    | some f =>
      obtain ⟨session, hsession, hf⟩ := World.exists_host_of_resolve? hhost
      exact .ok (.function (data_refines.functions (hw.hosts hsession hf))) hw

/-- The bindings in sight are listed alike. -/
theorem runs_bindings (hs : r.Captures s s') :
    (r.along start start').Runs (List.Forall₂ (r.along start start').Bindings) (EvalM.bindings s)
      (EvalM.bindings s') := by
  intro w w' hw
  have hentries := List.rel_flatten (hw.forall₂_visible hs)
  exact .ok (data_refines.bindings (forall₂_foldl_insertNew hentries .nil)) hw

/-- Corresponding scopes are in one session. -/
theorem runs_session (hs : r.Captures s s') :
    (r.along start start').Runs Eq (EvalM.session s) (EvalM.session s') := by
  intro w w' hw
  unfold EvalM.session
  rw [← hw.sessionOf?_eq hs]
  cases w.sessionOf? s with
  | none => exact .failed ⟨rfl, hw⟩
  | some session =>
    dsimp only
    split
    · exact .failed ⟨rfl, hw⟩
    · exact .ok rfl hw

/-- Sources are loaded alike. -/
theorem runs_loadSource (hs : r.Captures s s') (path : String) :
    (r.along start start').Runs Eq (Form.loadSource s path) (Form.loadSource s' path) := by
  refine runs_bind (runs_session hs) ?_
  intro session session' heq w w' hw
  subst heq
  cases htext : session.loader.load path with
  | error e =>
    rw [run_bind_error _ (EvalM.load_eq htext w), run_bind_error _ (EvalM.load_eq htext w')]
    exact .failed ⟨rfl, hw.request path⟩
  | ok text =>
    rw [run_bind_ok _ (EvalM.load_eq htext w), run_bind_ok _ (EvalM.load_eq htext w')]
    dsimp only [EvalM.ofExcept]
    cases (Program.parse session.comments text).mapError Error.malformedProgram with
    | error e => exact .failed ⟨rfl, hw.request path⟩
    | ok p => exact .ok rfl (hw.request path)

/-- New scopes are made alike. -/
theorem runs_child (hr : r.IsLawful) (hs : r.Captures s s') :
    (r.along start start').Runs r.Captures (EvalM.child s) (EvalM.child s') := by
  intro w w' hw
  have hscopes := hw.scopes hs
  unfold EvalM.child
  cases hfound : w.scopes[s]? with
  | none =>
    rw [hfound] at hscopes
    cases hfound' : w'.scopes[s']? with
    | none => exact .failed ⟨rfl, hw⟩
    | some scope' =>
      rw [hfound'] at hscopes
      cases hscopes
  | some scope =>
    rw [hfound] at hscopes
    cases hfound' : w'.scopes[s']? with
    | none =>
      rw [hfound'] at hscopes
      cases hscopes
    | some scope' =>
      rw [hfound'] at hscopes
      cases hscopes with
      | some hscope =>
        dsimp only
        rw [← hscope.session]
        exact .ok (hw.nextScopes 0) (hw.pushScope hr hs
          (Array.getElem?_eq_some_iff.mp hfound).1 (Array.getElem?_eq_some_iff.mp hfound').1 _)

/-- The primitives of evaluation do not look at numbers. -/
def simulation (hr : r.IsLawful) (start start' : World E) : Simulation E where
  toCorrespondence := r.along start start'
  ids_unique := hr.ids_unique
  objects_ids := hr.objects_ids
  objects_text := hr.objects_text
  objects_plain := hr.objects_plain
  objects_snapshot ha he := hr.objects_snapshot ha (refines_data.bindings he)
  admits_split _ _ := trivial
  admits_substitute _ _ := trivial
  captures_of_scopes hs := hs
  fail _ hw := ⟨rfl, hw⟩
  malformed _ _ _ hw := ⟨rfl, hw⟩
  newId _ _ hw := .ok (hw.nextIds 0) hw.newId
  print text _ _ hw := .ok rfl (hw.print text)
  bind name hs hv _ _ hw := .ok rfl (hw.bind hr hs name (refines_data.values hv))
  child := runs_child hr
  session hs := (runs_session hs).mono fun _ _ _ => trivial
  source path hs := (runs_loadSource hs path).mono fun _ _ hp => ⟨hp, trivial⟩
  lookup name hs := runs_lookup hs name
  bindings := runs_bindings
  hasLocal := by
    intro s s' w w' name hs hw
    have hscopes := Renaming.Alike.scopes hw hs
    unfold World.hasLocal
    generalize w.scopes[s]? = found, w'.scopes[s']? = found' at hscopes
    cases hscopes with
    | none => rfl
    | @some scope scope' hscope =>
      have hfound := rel_find? hscope.tables name
      dsimp only
      generalize scope.table.find? name = v, scope'.table.find? name = v' at hfound
      cases hfound <;> rfl
  isRoot := by
    intro s s' w w' hs hw
    have hscopes := Renaming.Alike.scopes hw hs
    unfold World.isRoot
    generalize w.scopes[s]? = found, w'.scopes[s']? = found' at hscopes
    cases hscopes with
    | none => rfl
    | @some scope scope' hscope =>
      have hparents := hscope.parents
      dsimp only
      generalize scope.parent = parent, scope'.parent = parent' at hparents
      cases hparents <;> rfl

/-! ## Evaluation -/

/-- One more level of nesting keeps worlds alike. -/
theorem runs_nested {α β : Type} {A : α → β → Prop} (hs : r.Captures s s') {m : EvalM E α}
    {m' : EvalM E β} (hm : (r.along start start').Runs A m m') :
    (r.along start start').Runs A (EvalM.nested s m) (EvalM.nested s' m') := by
  intro w w' hw
  have hscopes := hw.scopes hs
  unfold EvalM.nested
  generalize w.scopes[s]? = found, w'.scopes[s']? = found' at hscopes
  cases hscopes with
  | none => exact .failed ⟨rfl, hw⟩
  | @some scope scope' hscope =>
    dsimp only
    rw [← hscope.session, ← hw.sessions]
    cases w.sessions[scope.session]? with
    | none => exact .failed ⟨rfl, hw⟩
    | some session =>
      dsimp only
      split
      · have hinner := hm _ _ (hw.setDepth scope.session (session.depth + 1))
        generalize m (w.setDepth scope.session (session.depth + 1)) = o,
          m' (w'.setDepth scope.session (session.depth + 1)) = o' at hinner
        cases hinner with
        | ok ha hw => exact .ok ha (Alike.setDepth hw _ _)
        | failed he => exact .failed ⟨he.1, he.2.setDepth _ _⟩
        | cut _ hcut => exact hcut.elim
      · exact .failed ⟨rfl, hw⟩

variable [Embedding E]

/-- Evaluations in corresponding scopes keep worlds alike. -/
theorem evaluators (hr : r.IsLawful) (hE : (simulation hr start start').RespectedByEmbedding)
    (fuel : Nat) :
    (simulation hr start start').Evaluators (evaluateWithin fuel) (evaluateWithin fuel) :=
  Simulation.evaluators_evaluateWithin hE (fun hs hm => runs_nested hs hm) fuel

/-- Evaluation in corresponding scopes of worlds that are alike. -/
theorem outcomes_evaluate (hr : r.IsLawful)
    (hE : (simulation hr start start').RespectedByEmbedding) (hw : r.Alike start start' w w')
    (hs : r.Captures s s') (p : Program) :
    (r.along start start').Outcomes (r.along start start').Values (evaluate s p w)
      (evaluate s' p w') := by
  have hbudget : w'.budget = w.budget := by rw [World.budget, World.budget, hw.sessions]
  unfold evaluate
  rw [hbudget]
  exact evaluators hr hE w.budget hs trivial w w' hw

/-- Calls of closures over corresponding scopes, from wherever they are called. -/
theorem outcomes_call_closure (hr : r.IsLawful)
    (hE : (simulation hr start start').RespectedByEmbedding) (hw : r.Alike start start' w w')
    (id id' : Nat) (label label' : Option String) (formals : List String) (p : Program)
    {t t' : ScopeId} (ht : r.Captures t t') (s s' : ScopeId) {operands operands' : List (Operand E)}
    (h : List.Forall₂ r.data.Operands operands operands') :
    (r.along start start').Outcomes (r.along start start').Values
      (Function.call ⟨id, label, .closure formals p t⟩ s operands w)
      (Function.call ⟨id', label', .closure formals p t'⟩ s' operands' w') := by
  have hbudget : w'.budget = w.budget := by rw [World.budget, World.budget, hw.sessions]
  have hadapt := (simulation hr start start').runs_ofExcept
    ((simulation hr start start').answers_adapt (Signature.untyped formals.length)
      (data_refines.operands h))
  unfold Function.call
  rw [hbudget]
  refine runs_bind hadapt (fun _ _ hadapted => ?_) w w' hw
  exact Simulation.runs_closure formals ht (fun hs => evaluators hr hE w.budget hs trivial) hadapted

end Renaming

end FlatLisp
