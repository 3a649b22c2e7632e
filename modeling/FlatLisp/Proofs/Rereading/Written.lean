import FlatLisp.Proofs.Rereading.Text
import FlatLisp.Proofs.Snapshot.Lookup

/-!
# Worlds that keep what was written

Every function that a session keeps came from a program that the session could read, so its text is
its source, as the session reads it. Scopes and closures of a session stay among themselves, which is
why sessions that read texts in different ways do not get in the way of each other.

`Upholds` says this of a computation, for all worlds that a given one can be extended to. It compares
the computation with a second one, which has to do the same in all of these worlds.
-/

namespace FlatLisp

open Correspondence

variable {E : Type}

/-! ## The functions in a value -/

/-- Every function in a value, also in the bindings of a snapshot, is as `P` says. -/
inductive Value.All (P : Function E → Prop) : Value E → Prop
  | bool (b : Bool) : All P (.bool b)
  | int (n : Int64) : All P (.int n)
  | float (x : Float) : All P (.float x)
  | complex (z : Complex) : All P (.complex z)
  | symbol (text : String) : All P (.symbol text)
  | empty : All P .empty
  | function {f : Function E} (h : P f) : All P (.function f)
  | object {o : Object E} (h : ∀ entries, o.snapshot = some entries →
      ∀ entry ∈ entries, All P entry.2) : All P (.object o)

/-- A weaker condition on functions is weaker on values. -/
theorem Value.All.mono {P P' : Function E → Prop} {v : Value E} (h : v.All P)
    (hP : ∀ f, P f → P' f) : v.All P' := by
  induction h with
  | bool b => exact .bool b
  | int n => exact .int n
  | float x => exact .float x
  | complex z => exact .complex z
  | symbol text => exact .symbol text
  | empty => exact .empty
  | function h => exact .function (hP _ h)
  | object _ ih => exact .object ih

/-- An object without a snapshot has no functions in it. -/
theorem Value.all_plain (P : Function E → Prop) (id : Nat) (text : String) :
    (Value.object ⟨id, text, none⟩).All P :=
  .object nofun

/-- Numbers have no functions in them. -/
theorem Value.all_ofNumber (P : Function E → Prop) (n : Number) : (Value.ofNumber n).All P := by
  cases n with
  | int n => exact .int n
  | float x => exact .float x
  | complex z => exact .complex z

/-- Literals have no functions in them. -/
theorem Value.all_literal? (P : Function E → Prop) {word : String} {v : Value E}
    (h : Value.literal? word = some v) : v.All P := by
  have hnumeric : ∀ {cs : List Char}, Value.numeric? cs = some v → v.All P := by
    intro cs hcs
    unfold Value.numeric? at hcs
    split at hcs
    · cases hcs
      exact .int _
    · split at hcs
      · cases hcs
        exact .float _
      · obtain ⟨z, -, rfl⟩ := Option.map_eq_some_iff.mp hcs
        exact .complex z
  unfold Value.literal? at h
  split at h
  · cases h
    exact .bool true
  · split at h
    · cases h
      exact .bool false
    · split at h
      · exact hnumeric h
      · cases h

/-- Every function in a payload is as `P` says. -/
def Foreign.All (P : Function E → Prop) : Foreign E → Prop
  | .function f => P f
  | .object o => (Value.object o).All P
  | .boxed v => v.All P
  | _ => True

/-- The payload of a value has the functions of the value in it. -/
theorem Value.All.toForeign {P : Function E → Prop} {v : Value E} (h : v.All P) :
    v.toForeign.All P := by
  cases h with
  | function h => exact h
  | object h => exact .object h
  | _ => trivial

/-- A payload that is made a value keeps its functions. -/
theorem Foreign.All.ensure {P : Function E → Prop} {r : Foreign E} (h : r.All P) (id : Nat) :
    (r.ensure id).All P := by
  cases r with
  | bool b => exact .bool b
  | int64 n => exact .int n
  | int32 n => exact .int _
  | word32 n => exact .int _
  | float x => exact .float x
  | single x => exact .float _
  | complex z => exact .complex z
  | text s => exact .symbol s
  | fixedText s => exact .symbol s
  | unit => exact .empty
  | function f => exact .function h
  | object o => exact h
  | boxed v => exact h
  | unclaimed => exact Value.all_plain P id _

/-! ## What a session keeps -/

/-- Whether session `i` can read a program. -/
def World.CanRead (w : World E) (i : Nat) (p : Program) : Prop :=
  ∀ session, w.sessions[i]? = some session → p.IsReadable session.comments

/-- Whether session `i` can read a program as a single form. -/
def World.CanReadPart (w : World E) (i : Nat) (p : Program) : Prop :=
  ∀ session, w.sessions[i]? = some session → p.IsPart session.comments

/-- What can be read as a single form can be read. -/
theorem World.CanReadPart.canRead {w : World E} {i : Nat} {p : Program} (h : w.CanReadPart i p) :
    w.CanRead i p :=
  fun session hsession => (h session hsession).isReadable

/-- A function as session `i` can have made it: it shows its source, and if it is a closure, its scope
is one of the session. Making it took two levels of nesting. -/
structure Function.IsWritten (w : World E) (i : Nat) (f : Function E) : Prop where
  source : ∀ session, w.sessions[i]? = some session → f.ShowsSource session.comments
  nested : ∀ session, w.sessions[i]? = some session → f.body.IsDefined → 2 ≤ session.maxDepth
  houses : ∀ t, f.scope? = some t → w.Houses t i

/-- The functions in a value are as session `i` can have made them. -/
def Value.IsWritten (w : World E) (i : Nat) (v : Value E) : Prop :=
  v.All (Function.IsWritten w i)

/-- Operands with functions as session `i` can have made them and forms that it can read. -/
def Operand.IsWritten (w : World E) (i : Nat) : Operand E → Prop
  | .value v => v.IsWritten w i
  | .program p => w.CanReadPart i p
  | .raw r => r.All (Function.IsWritten w i)

/-- A function that was not made in the language is not in question. -/
theorem Function.isWritten_of_not_isDefined {f : Function E} (h : ¬f.body.IsDefined) (w : World E)
    (i : Nat) : f.IsWritten w i := by
  obtain ⟨id, label, body⟩ := f
  cases body with
  | closure | template => exact absurd trivial h
  | form | builtin | host | embedded => exact ⟨fun _ _ => trivial, fun _ _ => False.elim, nofun⟩

/-- Values are bound where they belong, every scope has a session, which is that of its parent, and no
function of a host was made in the language. -/
structure World.IsAuthored (w : World E) : Prop where
  tables {s : ScopeId} {scope : Scope E} {entry : String × Value E} (hs : w.scopes[s]? = some scope)
    (he : entry ∈ scope.table) : entry.2.IsWritten w scope.session
  parents {s parent : ScopeId} {scope : Scope E} (hs : w.scopes[s]? = some scope)
    (hparent : scope.parent = some parent) : w.Houses parent scope.session
  sessions {s : ScopeId} {scope : Scope E} (hs : w.scopes[s]? = some scope) :
    scope.session < w.sessions.size
  hosts {session : Session E} {f : Function E} (hs : session ∈ w.sessions)
    (hf : session.host.Offers f) : ¬f.body.IsDefined

/-! ## Worlds that go on -/

/-- Worlds in which every scope of `w` is still of its session and sessions read and nest as they did. -/
structure World.Continues (w v : World E) : Prop where
  houses {s : ScopeId} {i : Nat} (h : w.Houses s i) : v.Houses s i
  rules {i : Nat} {session : Session E} (h : v.sessions[i]? = some session) :
    ∃ before, w.sessions[i]? = some before ∧ session.comments = before.comments ∧
      session.maxDepth = before.maxDepth

namespace World.Continues

variable {w v : World E} {i : Nat}

/-- What could be read can still be read. -/
theorem canRead (h : w.Continues v) {p : Program} (hp : w.CanRead i p) : v.CanRead i p := by
  intro session hsession
  obtain ⟨before, hbefore, hcomments, -⟩ := h.rules hsession
  rw [hcomments]
  exact hp before hbefore

/-- What could be read as a form can still be read so. -/
theorem canReadPart (h : w.Continues v) {p : Program} (hp : w.CanReadPart i p) :
    v.CanReadPart i p := by
  intro session hsession
  obtain ⟨before, hbefore, hcomments, -⟩ := h.rules hsession
  rw [hcomments]
  exact hp before hbefore

/-- Functions stay as they were made. -/
theorem function (h : w.Continues v) {f : Function E} (hf : f.IsWritten w i) : f.IsWritten v i := by
  refine ⟨fun session hsession => ?_, fun session hsession => ?_, fun t ht => h.houses (hf.houses t ht)⟩
  · obtain ⟨before, hbefore, hcomments, -⟩ := h.rules hsession
    rw [hcomments]
    exact hf.source before hbefore
  · obtain ⟨before, hbefore, -, hmaxDepth⟩ := h.rules hsession
    rw [hmaxDepth]
    exact hf.nested before hbefore

/-- Values stay as they were made. -/
theorem value (h : w.Continues v) {a : Value E} (ha : a.IsWritten w i) : a.IsWritten v i :=
  ha.mono fun _ hf => h.function hf

/-- Payloads stay as they were made. -/
theorem payload (h : w.Continues v) {r : Foreign E} (hr : r.All (Function.IsWritten w i)) :
    r.All (Function.IsWritten v i) := by
  cases r with
  | function f => exact h.function hr
  | object o => exact h.value hr
  | boxed a => exact h.value hr
  | _ => trivial

/-- Operands stay as they were made. -/
theorem operand (h : w.Continues v) {o : Operand E} (ho : o.IsWritten w i) : o.IsWritten v i := by
  cases o with
  | value a => exact h.value ho
  | program p => exact h.canReadPart ho
  | raw r => exact h.payload ho

end World.Continues

/-- Worlds that go on with the very same sessions. -/
structure World.Extends (w v : World E) : Prop extends World.Continues w v where
  sessions : v.sessions = w.sessions

namespace World.Extends

variable {w v u : World E}

/-- Scopes have to stay in their sessions. -/
theorem of_houses (houses : ∀ {s i}, w.Houses s i → v.Houses s i) (hsessions : v.sessions = w.sessions) :
    w.Extends v :=
  ⟨⟨houses, fun hi => ⟨_, hsessions ▸ hi, rfl, rfl⟩⟩, hsessions⟩

/-- A world extends itself. -/
theorem refl (w : World E) : w.Extends w :=
  .of_houses id rfl

/-- Extensions can be extended. -/
theorem trans (h : w.Extends v) (h' : v.Extends u) : w.Extends u :=
  .of_houses (fun hs => h'.houses (h.houses hs)) (h'.sessions.trans h.sessions)

/-- Scopes and sessions are all that counts. -/
theorem of_eq (hscopes : v.scopes = w.scopes) (hsessions : v.sessions = w.sessions) :
    w.Extends v := by
  refine .of_houses (fun {s i} h => ?_) hsessions
  unfold World.Houses
  rw [hscopes]
  exact h

end World.Extends

namespace World

variable {w v : World E} {s t : ScopeId} {i : Nat}

/-- A scope is of one session. -/
theorem Houses.unique {j : Nat} {scope : Scope E} (h : w.Houses s i) (hs : w.scopes[s]? = some scope)
    (hj : scope.session = j) : i = j := by
  obtain ⟨found, hfound, rfl⟩ := h
  cases hfound.symm.trans hs
  exact hj

/-- The session of a scope is the one that the scope is of. -/
theorem Houses.sessionOf? (h : w.Houses s i) : w.sessionOf? s = w.sessions[i]? := by
  obtain ⟨scope, hscope, rfl⟩ := h
  rw [World.sessionOf?, hscope, Option.bind_some]

/-! ## Sessions at other depths -/

/-- The same scopes in the same sessions, but for how deep these are nested and whether they have
ended. -/
structure SameRules (w v : World E) : Prop where
  scopes : v.scopes = w.scopes
  size : v.sessions.size = w.sessions.size
  rules {i : Nat} {session : Session E} (h : v.sessions[i]? = some session) :
    ∃ before, w.sessions[i]? = some before ∧
      session = { before with depth := session.depth, ended := session.ended }

namespace SameRules

/-- A session at another depth. -/
theorem setDepth (w : World E) (j depth : Nat) : w.SameRules (w.setDepth j depth) := by
  refine ⟨rfl, by simp [World.setDepth], fun {i session} h => ?_⟩
  rw [getElem?_setDepth] at h
  split at h
  · obtain ⟨before, hbefore, rfl⟩ := Option.map_eq_some_iff.mp h
    exact ⟨before, hbefore, rfl⟩
  · exact ⟨session, h, rfl⟩

/-- Some sessions have ended. -/
theorem mapEnded (w : World E) (ended : Nat → Bool) :
    w.SameRules { w with sessions := w.sessions.mapIdx fun i session =>
      { session with ended := ended i } } := by
  refine ⟨rfl, Array.size_mapIdx, fun {i session} h => ?_⟩
  rw [Array.getElem?_mapIdx] at h
  obtain ⟨before, hbefore, rfl⟩ := Option.map_eq_some_iff.mp h
  exact ⟨before, hbefore, rfl⟩

/-- Nothing that is kept depends on the depth of sessions or on their end. -/
theorem continues (h : w.SameRules v) : w.Continues v := by
  refine ⟨fun {s i} hs => ?_, fun hi => ?_⟩
  · unfold Houses
    rw [h.scopes]
    exact hs
  · obtain ⟨before, hbefore, heq⟩ := h.rules hi
    exact ⟨before, hbefore, by rw [heq], by rw [heq]⟩

end SameRules

/-- Extensions do not depend on the depth. -/
theorem Extends.setDepth (h : w.Extends v) (j depth : Nat) :
    (w.setDepth j depth).Extends (v.setDepth j depth) := by
  refine .of_houses (fun hs => h.houses hs) ?_
  simp only [World.setDepth, h.sessions]

/-! ## Authored worlds -/

namespace IsAuthored

/-- How deep sessions are nested and whether they have ended does not count. -/
theorem of_sameRules (h : w.IsAuthored) (hv : w.SameRules v) : v.IsAuthored := by
  refine ⟨fun hs he => ?_, fun hs hparent => ?_, fun hs => ?_, fun hs hf => ?_⟩
  · rw [hv.scopes] at hs
    exact hv.continues.value (h.tables hs he)
  · rw [hv.scopes] at hs
    exact hv.continues.houses (h.parents hs hparent)
  · rw [hv.scopes] at hs
    rw [hv.size]
    exact h.sessions hs
  · obtain ⟨i, hi⟩ := Array.mem_iff_getElem?.mp hs
    obtain ⟨before, hbefore, heq⟩ := hv.rules hi
    rw [heq] at hf
    exact h.hosts (Array.mem_of_getElem? hbefore) hf

/-- Scopes and sessions are all that counts. -/
theorem of_eq (h : w.IsAuthored) (hscopes : v.scopes = w.scopes) (hsessions : v.sessions = w.sessions) :
    v.IsAuthored :=
  h.of_sameRules ⟨hscopes, by rw [hsessions], fun hi => ⟨_, hsessions ▸ hi, rfl⟩⟩

/-- A value may be bound in a scope of the session that can have made it. -/
theorem bind (h : w.IsAuthored) (hs : w.Houses s i) (name : String) {a : Value E}
    (ha : a.IsWritten w i) : w.Extends (w.bind s name a) ∧ (w.bind s name a).IsAuthored := by
  -- Binding changes the table of one scope and neither its parent nor its session.
  have hscope : ∀ {t : ScopeId} {scope : Scope E}, (w.bind s name a).scopes[t]? = some scope →
      ∃ before, w.scopes[t]? = some before ∧ before.parent = scope.parent ∧
        before.session = scope.session ∧
        ∀ entry ∈ scope.table, t = s ∧ entry = (name, a) ∨ entry ∈ before.table := by
    intro t scope ht
    rw [getElem?_bind] at ht
    split at ht
    · next heq =>
      obtain ⟨before, hbefore, rfl⟩ := Option.map_eq_some_iff.mp ht
      exact ⟨before, hbefore, rfl, rfl, fun entry he => (Table.mem_insert he).imp_left (⟨heq.symm, ·⟩)⟩
    · exact ⟨scope, ht, rfl, rfl, fun _ => .inr⟩
  have hextends : w.Extends (w.bind s name a) := by
    refine .of_houses (fun {t j} ht => ?_) rfl
    obtain ⟨scope, hfound, hsession⟩ := ht
    unfold Houses
    rw [getElem?_bind, hfound]
    split
    · exact ⟨_, rfl, hsession⟩
    · exact ⟨_, rfl, hsession⟩
  refine ⟨hextends, fun {t scope entry} ht he => ?_, fun ht hparent => ?_, fun ht => ?_, h.hosts⟩
  · obtain ⟨before, hbefore, -, hsession, hentries⟩ := hscope ht
    rcases hentries entry he with ⟨rfl, rfl⟩ | hold
    · cases hs.unique hbefore hsession
      exact hextends.value ha
    · rw [← hsession]
      exact hextends.value (h.tables hbefore hold)
  · obtain ⟨before, hbefore, hsame, hsession, -⟩ := hscope ht
    rw [← hsession]
    exact hextends.houses (h.parents hbefore (hsame.trans hparent))
  · obtain ⟨before, hbefore, -, hsession, -⟩ := hscope ht
    rw [← hsession]
    exact h.sessions hbefore

/-- A scope without bindings may be added to the session of its parent. -/
theorem pushScope (h : w.IsAuthored) (hi : i < w.sessions.size) {parent : Option ScopeId}
    (hparent : ∀ t, parent = some t → w.Houses t i) :
    w.Extends (w.pushScope ⟨[], parent, i⟩).1 ∧ (w.pushScope ⟨[], parent, i⟩).1.IsAuthored := by
  have hextends : w.Extends (w.pushScope ⟨[], parent, i⟩).1 := by
    refine .of_houses (fun {t j} ht => ?_) rfl
    obtain ⟨scope, hfound, hsession⟩ := ht
    exact ⟨scope, getElem?_pushScope_of_some w _ hfound, hsession⟩
  refine ⟨hextends, fun {t scope entry} ht he => ?_, fun {t outer scope} ht houter => ?_,
    fun {t scope} ht => ?_, h.hosts⟩
  · rw [getElem?_pushScope] at ht
    split at ht
    · cases ht
      cases he
    · exact hextends.value (h.tables ht he)
  · rw [getElem?_pushScope] at ht
    split at ht
    · cases ht
      exact hextends.houses (hparent outer houter)
    · exact hextends.houses (h.parents ht houter)
  · rw [getElem?_pushScope] at ht
    split at ht
    · cases ht
      exact hi
    · exact h.sessions ht

/-- The scopes on the way outwards are all of the session. -/
theorem houses_of_onChain (h : w.IsAuthored) (hs : w.Houses s i) (hchain : w.OnChain s t) :
    w.Houses t i := by
  induction hchain with
  | refl => exact hs
  | tail _ hparent ih =>
    obtain ⟨scope, hscope, rfl⟩ := ih
    rw [parent?, hscope, Option.bind_some] at hparent
    exact h.parents hscope hparent

/-- What a scope has in sight is as its session can have made it. -/
theorem isWritten_of_visible (h : w.IsAuthored) (hs : w.Houses s i) {table : Table (Value E)}
    (htable : table ∈ w.visible s) {entry : String × Value E} (he : entry ∈ table) :
    entry.2.IsWritten w i := by
  obtain ⟨t, scope, hchain, hscope, rfl⟩ := exists_onChain_of_mem_chain htable
  obtain ⟨found, hfound, rfl⟩ := h.houses_of_onChain hs hchain
  cases hfound.symm.trans hscope
  exact h.tables hscope he

end IsAuthored

end World

/-! ## Computations that keep what was written -/

section

variable {α β : Type} {w : World E} {Q : World E → α → Prop} {R : World E → β → Prop}

/-- What a computation leaves that started in `w`: an authored world that extends `w`, and a result as
`Q` says, if any. -/
structure Upheld (w : World E) (Q : World E → α → Prop) (o : Except Error α × World E) : Prop where
  grows : w.Extends o.2
  authored : o.2.IsAuthored
  result {a : α} (h : o.1 = .ok a) : Q o.2 a

/-- Two computations do the same in authored worlds that extend `w`, and they keep them authored. -/
def Upholds (w : World E) (Q : World E → α → Prop) (m m' : EvalM E α) : Prop :=
  ∀ v, w.Extends v → v.IsAuthored → m' v = m v ∧ Upheld v Q (m v)

/-- A computation that does not touch scopes and sessions. -/
theorem Upheld.of_eq {r : Except Error α} {v : World E} (hw : w.IsAuthored)
    (hscopes : v.scopes = w.scopes) (hsessions : v.sessions = w.sessions)
    (h : ∀ a, r = .ok a → Q v a) : Upheld w Q (r, v) :=
  ⟨.of_eq hscopes hsessions, hw.of_eq hscopes hsessions, fun {a} ha => h a ha⟩

/-- A computation that leaves an authored world alone. -/
theorem Upheld.of_same {r : Except Error α} (hw : w.IsAuthored) (h : ∀ a, r = .ok a → Q w a) :
    Upheld w Q (r, w) :=
  .of_eq hw rfl rfl h

/-- What computations yield may be described more coarsely. -/
theorem Upholds.mono {Q' : World E → α → Prop} {m m' : EvalM E α} (h : Upholds w Q m m')
    (hQ : ∀ v a, w.Extends v → Q v a → Q' v a) : Upholds w Q' m m' := by
  intro v hgrows hauthored
  obtain ⟨heq, hkept⟩ := h v hgrows hauthored
  exact ⟨heq, hkept.grows, hkept.authored, fun hok =>
    hQ _ _ (hgrows.trans hkept.grows) (hkept.result hok)⟩

/-- A result that is right in every world to come. -/
theorem upholds_pure {a : α} (h : ∀ v, w.Extends v → Q v a) : Upholds w Q (pure a) (pure a) := by
  intro v hgrows hauthored
  refine ⟨rfl, .of_same hauthored fun b hb => ?_⟩
  cases hb
  exact h v hgrows

/-- A failure changes nothing. -/
theorem upholds_throw (e : Error) : Upholds w Q (throw e : EvalM E α) (throw e) :=
  fun _ _ hauthored => ⟨rfl, .of_same hauthored nofun⟩

/-- A result that does not depend on the world. -/
theorem upholds_ofExcept {r : Except Error α} (h : ∀ a v, r = .ok a → w.Extends v → Q v a) :
    Upholds w Q (EvalM.ofExcept r) (EvalM.ofExcept r) :=
  fun v hgrows hauthored => ⟨rfl, .of_same hauthored fun a ha => h a v ha hgrows⟩

/-- Computations one after the other. -/
theorem upholds_bind {m m' : EvalM E α} {f f' : α → EvalM E β} (hm : Upholds w Q m m')
    (hf : ∀ v a, w.Extends v → Q v a → Upholds v R (f a) (f' a)) :
    Upholds w R (m >>= f) (m' >>= f') := by
  intro v hgrows hauthored
  obtain ⟨heq, hfirst⟩ := hm v hgrows hauthored
  cases hrun : m v with
  | mk result v₁ =>
    rw [hrun] at heq hfirst
    cases result with
    | error e =>
      rw [run_bind_error f hrun, run_bind_error f' heq]
      exact ⟨rfl, hfirst.grows, hfirst.authored, nofun⟩
    | ok a =>
      rw [run_bind_ok f hrun, run_bind_ok f' heq]
      obtain ⟨hsame, hnext⟩ := hf v₁ a (hgrows.trans hfirst.grows) (hfirst.result rfl) v₁ (.refl v₁)
        hfirst.authored
      exact ⟨hsame, hfirst.grows.trans hnext.grows, hnext.authored, hnext.result⟩

/-- Results that a second look would let pass may be looked at. -/
theorem Upholds.watched {m m' : EvalM E α} (h : Upholds w Q m m') {watch : α → EvalM E α}
    (hwatch : ∀ v a, w.Extends v → Q v a → watch a v = (.ok a, v)) :
    Upholds w Q m (m' >>= watch) := by
  intro v hgrows hauthored
  obtain ⟨heq, hkept⟩ := h v hgrows hauthored
  refine ⟨?_, hkept⟩
  cases hrun : m v with
  | mk result v₁ =>
    rw [hrun] at heq hkept
    cases result with
    | error e => exact run_bind_error watch heq
    | ok a =>
      rw [run_bind_ok watch heq]
      exact hwatch v₁ a (hgrows.trans hkept.grows) (hkept.result rfl)

/-! ## Primitives -/

variable {s : ScopeId} {i : Nat}

/-- A number is given. -/
theorem upholds_newId : Upholds w (fun _ _ => True) EvalM.newId EvalM.newId :=
  fun _ _ hauthored => ⟨rfl, .of_eq hauthored rfl rfl fun _ _ => trivial⟩

/-- Text is printed. -/
theorem upholds_print (text : String) :
    Upholds w (fun _ _ => True) (EvalM.print text) (EvalM.print text) :=
  fun _ _ hauthored => ⟨rfl, .of_eq hauthored rfl rfl fun _ _ => trivial⟩

/-- A source is asked for. -/
theorem upholds_load (loader : Loader) (path : String) :
    Upholds w (fun _ _ => True) (EvalM.load loader path) (EvalM.load loader path) :=
  fun _ _ hauthored => ⟨rfl, .of_eq hauthored rfl rfl fun _ _ => trivial⟩

/-- A value is bound in a scope of the session that can have made it. -/
theorem upholds_bindName (hs : w.Houses s i) (name : String) {a : Value E} (ha : a.IsWritten w i) :
    Upholds w (fun _ _ => True) (EvalM.bind s name a) (EvalM.bind s name a) := by
  intro v hgrows hauthored
  obtain ⟨hextends, hbound⟩ := hauthored.bind (hgrows.houses hs) name (hgrows.value ha)
  exact ⟨rfl, hextends, hbound, fun _ => trivial⟩

/-- A new scope is of the session of its parent. -/
theorem upholds_child (hs : w.Houses s i) :
    Upholds w (fun v t => v.Houses t i) (EvalM.child s) (EvalM.child s) := by
  intro v hgrows hauthored
  refine ⟨rfl, ?_⟩
  obtain ⟨scope, hscope, rfl⟩ := hgrows.houses hs
  unfold EvalM.child
  rw [hscope]
  have hparent : ∀ t, some s = some t → v.Houses t scope.session := by
    intro t ht
    cases ht
    exact ⟨scope, hscope, rfl⟩
  obtain ⟨hextends, hpushed⟩ := hauthored.pushScope (hauthored.sessions hscope) hparent
  refine ⟨hextends, hpushed, fun hok => ?_⟩
  cases hok
  exact ⟨⟨[], some s, scope.session⟩, by rw [World.getElem?_pushScope, if_pos rfl], rfl⟩

/-- The session of a scope is found. -/
theorem upholds_session (hs : w.Houses s i) :
    Upholds w (fun v session => v.sessions[i]? = some session) (EvalM.session s)
      (EvalM.session s) := by
  intro v hgrows hauthored
  refine ⟨rfl, ?_⟩
  rcases EvalM.session_cases s v with ⟨session, hfound, hrun⟩ | hlost
  · rw [hrun]
    refine .of_same hauthored fun found hok => ?_
    cases hok
    rw [← (hgrows.houses hs).sessionOf?, hfound]
  · rw [hlost]
    exact .of_same hauthored nofun

/-- The bindings in sight are as the session can have made them. -/
theorem upholds_bindings (hs : w.Houses s i) :
    Upholds w (fun v entries => ∀ entry ∈ entries, entry.2.IsWritten v i) (EvalM.bindings s)
      (EvalM.bindings s) := by
  intro v hgrows hauthored
  refine ⟨rfl, .of_same hauthored fun entries hok entry hentry => ?_⟩
  cases hok
  rcases World.mem_foldl_insertNew hentry with hnone | hsome
  · cases hnone
  · obtain ⟨table, htable, he⟩ := List.mem_flatten.mp hsome
    exact hauthored.isWritten_of_visible (hgrows.houses hs) htable he

/-- What is found is as the session can have made it. -/
theorem upholds_lookup (hs : w.Houses s i) (name : String) :
    Upholds w (fun v a => a.IsWritten v i) (EvalM.lookup s name) (EvalM.lookup s name) := by
  intro v hgrows hauthored
  refine ⟨rfl, ?_⟩
  unfold EvalM.lookup
  cases hfound : v.find? s name with
  | some a =>
    obtain ⟨table, htable, hentry⟩ := List.exists_of_findSome?_eq_some hfound
    refine .of_same hauthored fun b hok => ?_
    cases hok
    exact hauthored.isWritten_of_visible (hgrows.houses hs) htable (Table.mem_of_find? hentry)
  | none =>
    cases hhost : (v.sessionOf? s).bind fun session => session.host.resolve? name with
    | none => exact .of_same hauthored nofun
    | some f =>
      obtain ⟨session, hsession, hf⟩ := World.exists_host_of_resolve? hhost
      refine .of_same hauthored fun b hok => ?_
      cases hok
      exact .function (Function.isWritten_of_not_isDefined (hauthored.hosts hsession hf) v i)

/-- Whether session `i` allows one more evaluation. -/
def World.IsFree (w : World E) (i : Nat) : Prop :=
  ∃ session, w.sessions[i]? = some session ∧ session.depth < session.maxDepth

/-- Whether an evaluation of session `i` is under way. -/
def World.IsDeep (w : World E) (i : Nat) : Prop :=
  ∃ session, w.sessions[i]? = some session ∧ 1 ≤ session.depth

/-- One more level of nesting. What runs there runs with an evaluation under way, and if it has a
result, then there was room for it. -/
theorem upholds_nested (hs : w.Houses s i) {m m' : EvalM E (Value E)}
    (hm : ∀ depth, (w.setDepth i depth).IsDeep i →
      Upholds (w.setDepth i depth) (fun v a => a.IsWritten v i) m m') :
    Upholds w (fun v a => a.IsWritten v i ∧ w.IsFree i) (EvalM.nested s m) (EvalM.nested s m') := by
  intro v hgrows hauthored
  have hhoused := hgrows.houses hs
  cases hsession : v.sessions[i]? with
  | none =>
    have hlost : v.sessionOf? s = none := hhoused.sessionOf?.trans hsession
    rw [EvalM.nested_of_lost m hlost, EvalM.nested_of_lost m' hlost]
    exact ⟨rfl, .of_same hauthored nofun⟩
  | some session =>
    by_cases hdepth : session.depth < session.maxDepth
    · obtain ⟨scope, hscope, rfl⟩ := hhoused
      have hdeep : (w.setDepth scope.session (session.depth + 1)).IsDeep scope.session := by
        refine ⟨{ session with depth := session.depth + 1 }, ?_, Nat.le_add_left 1 session.depth⟩
        rw [World.getElem?_setDepth, if_pos rfl, ← hgrows.sessions, hsession, Option.map_some]
      obtain ⟨heq, hinner⟩ := hm (session.depth + 1) hdeep _ (hgrows.setDepth _ _)
        (hauthored.of_sameRules (.setDepth v _ _))
      rw [EvalM.nested_of_free m hscope hsession hdepth, EvalM.nested_of_free m' hscope hsession hdepth,
        heq]
      refine ⟨rfl, .of_houses (fun h => hinner.grows.houses h) ?_, hinner.authored.of_sameRules (.setDepth _ _ _),
        fun hok => ?_⟩
      · exact World.sessions_setDepth_back hsession hinner.grows.sessions
      · refine ⟨(World.SameRules.setDepth _ _ _).continues.value (hinner.result hok), session, ?_, hdepth⟩
        rw [← hgrows.sessions, hsession]
    · have hfound : v.sessionOf? s = some session := hhoused.sessionOf?.trans hsession
      rw [EvalM.nested_of_full m hfound hdepth, EvalM.nested_of_full m' hfound hdepth]
      exact ⟨rfl, .of_same hauthored nofun⟩

end

end FlatLisp
