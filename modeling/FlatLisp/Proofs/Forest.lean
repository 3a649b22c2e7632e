import FlatLisp.Proofs.Parentheses

/-!
# Forests

A program whose parentheses match can be read as a forest: words are leaves, and what stands between
a parenthesis and its partner is a list of trees. There is one reading only, and the operations on
flat programs are operations on that forest. Taking a program apart gives the trees of the forest or
the children of its only tree, and substitution puts forests in the place of leaves.

`Forest.induction` follows the tokens: after a leaf the rest of the forest is left, and after a
parenthesis the children and then the rest. Every scan of tokens is followed by this one induction.
-/

namespace FlatLisp

/-- A word, or trees between a parenthesis and its partner. -/
inductive Tree where
  | leaf (word : String)
  | list (children : List Tree)

/-- Trees side by side. -/
abbrev Forest := List Tree

mutual

/-- The tokens of a tree. -/
def Tree.tokens : Tree → List Token
  | .leaf word => [.word word]
  | .list children => .left :: (Forest.tokens children ++ [.right])

/-- The tokens of a forest. -/
def Forest.tokens : Forest → List Token
  | [] => []
  | tree :: forest => tree.tokens ++ Forest.tokens forest

end

mutual

/-- The forest that a tree becomes when leaves are replaced. -/
def Tree.graft (replace : String → Option Forest) : Tree → Forest
  | .leaf word => (replace word).getD [.leaf word]
  | .list children => [.list (Forest.graft replace children)]

/-- Replace every leaf that `replace` names by the forest given for it, all at once: what is put in
is not looked at again. -/
def Forest.graft (replace : String → Option Forest) : Forest → Forest
  | [] => []
  | tree :: forest => tree.graft replace ++ Forest.graft replace forest

end

namespace Forest

/-- Read tokens as a forest. The trees of the list being read are in `done`, and those of the lists
around it, the inner ones first, in `outer`; all of them last tree first. -/
def read : (done : Forest) → (outer : List Forest) → List Token → Forest
  | done, _, [] => done.reverse
  | done, outer, .word word :: ts => read (.leaf word :: done) outer ts
  | done, outer, .left :: ts => read [] (done :: outer) ts
  | done, [], .right :: ts => read done [] ts
  | done, above :: outer, .right :: ts => read (.list done.reverse :: above) outer ts

/-- The tokens that have been read when `done` and `outer` are as in `read`. -/
def readSoFar (done : Forest) : List Forest → List Token
  | [] => tokens done.reverse
  | above :: outer => readSoFar above outer ++ .left :: tokens done.reverse

/-- Follow the tokens of a forest from left to right, and down into its lists. -/
@[elab_as_elim]
theorem induction {motive : Forest → Prop} (nil : motive [])
    (leaf : ∀ word forest, motive forest → motive (.leaf word :: forest))
    (list : ∀ children forest, motive children → motive forest → motive (.list children :: forest)) :
    ∀ forest, motive forest
  | [] => nil
  | .leaf word :: forest => leaf word forest (induction nil leaf list forest)
  | .list children :: forest =>
    list children forest (induction nil leaf list children) (induction nil leaf list forest)

@[simp] theorem tokens_nil : tokens [] = [] := rfl

@[simp] theorem tokens_leaf_cons (word : String) (f : Forest) :
    tokens (.leaf word :: f) = .word word :: tokens f := rfl

@[simp] theorem tokens_list_cons (children f : Forest) :
    tokens (.list children :: f) = .left :: (tokens children ++ .right :: tokens f) := by
  simp [tokens, Tree.tokens]

/-- Forests side by side have their tokens side by side. -/
@[simp] theorem tokens_append (f g : Forest) : tokens (f ++ g) = tokens f ++ tokens g := by
  induction f with
  | nil => rfl
  | cons tree f ih => simp [tokens, ih]

/-- The tokens of a forest are those of its trees, in order. -/
theorem flatten_map_tokens (f : Forest) : (f.map Tree.tokens).flatten = tokens f := by
  induction f with
  | nil => rfl
  | cons tree f ih => simp [tokens, ih]

/-- Only the empty forest has no tokens. -/
theorem tokens_eq_nil_iff (f : Forest) : tokens f = [] ↔ f = [] := by
  cases f with
  | nil => simp
  | cons tree f => cases tree <;> simp

/-- Every tree has a token. -/
theorem length_le_tokens (f : Forest) : f.length ≤ (tokens f).length := by
  induction f with
  | nil => simp
  | cons tree f ih =>
    cases tree with
    | leaf word => simpa using ih
    | list children =>
      simp only [tokens_list_cons, List.length_cons, List.length_append]
      omega

/-! ## One reading -/

/-- The tokens of a forest are read as its trees, wherever they stand. -/
theorem read_tokens (f done : Forest) (outer : List Forest) (ts : List Token) :
    read done outer (tokens f ++ ts) = read (f.reverse ++ done) outer ts := by
  induction f using Forest.induction generalizing done outer ts with
  | nil => rfl
  | leaf word f ih =>
    rw [tokens_leaf_cons, List.cons_append, read, ih]
    simp
  | list children f ihChildren ih =>
    rw [tokens_list_cons, List.cons_append, List.append_assoc, read, ihChildren, List.cons_append,
      read, ih]
    simp

/-- If the tokens to come close all lists, the forest that is read has the tokens read so far and
those to come. -/
theorem tokens_read {done : Forest} {outer : List Forest} {ts : List Token}
    (h : Program.openAfter outer.length ts = some 0) :
    tokens (read done outer ts) = readSoFar done outer ++ ts := by
  fun_induction read done outer ts with
  | case1 outer done =>
    have houter : outer = [] := by simpa [Program.openAfter] using h
    simp [houter, readSoFar]
  | case2 done outer word ts ih =>
    rw [ih h]
    cases outer <;> simp [readSoFar]
  | case3 done outer ts ih =>
    rw [ih h]
    simp [readSoFar]
  | case4 done ts ih => cases h
  | case5 done above outer ts ih =>
    rw [ih h]
    cases outer <;> simp [readSoFar]

end Forest

/-- The forest of a program. -/
def Program.forest (p : Program) : Forest :=
  Forest.read [] [] p

namespace Program

open Forest (tokens graft)

/-- A forest is what its tokens are read as. -/
@[simp] theorem forest_tokens (f : Forest) : forest (tokens f) = f := by
  have hread := Forest.read_tokens f [] [] []
  rw [List.append_nil, List.append_nil] at hread
  rw [forest, hread, Forest.read, List.reverse_reverse]

/-- A program whose parentheses match is made of the tokens of its forest. -/
theorem tokens_forest {p : Program} (hp : p.isValid = true) : tokens p.forest = p :=
  Forest.tokens_read (isValid_iff.mp hp)

/-! ## Scans of the tokens of a forest -/

/-- The parentheses of a forest match. -/
theorem isValid_tokens (f : Forest) : isValid (tokens f) = true := by
  induction f using Forest.induction with
  | nil => rfl
  | leaf word f ih => exact ih
  | list children f ihChildren ih =>
    rw [isValid_iff, Forest.tokens_list_cons, openAfter, openAfter_append,
      openAfter_of_isValid ihChildren]
    exact isValid_iff.mp ih

/-- A forest inside of a list does not close it. -/
theorem closesLast_tokens (f : Forest) (depth : Nat) (ts : List Token) :
    closesLast (depth + 1) (tokens f ++ ts) = closesLast (depth + 1) ts := by
  induction f using Forest.induction generalizing depth ts with
  | nil => rfl
  | leaf word f ih => exact ih depth ts
  | list children f ihChildren ih =>
    rw [Forest.tokens_list_cons, List.cons_append, closesLast, List.append_assoc, ihChildren]
    exact ih depth ts

/-- A forest inside of a combination becomes part of it. -/
theorem forms_tokens_inside (f : Forest) (depth : Nat) (group ts : List Token) :
    forms (depth + 1) group (tokens f ++ ts) = forms (depth + 1) ((tokens f).reverse ++ group) ts := by
  induction f using Forest.induction generalizing depth group ts with
  | nil => rfl
  | leaf word f ih =>
    rw [Forest.tokens_leaf_cons, List.cons_append, forms, ih]
    simp
  | list children f ihChildren ih =>
    rw [Forest.tokens_list_cons, List.cons_append, forms, List.append_assoc, ihChildren,
      List.cons_append, forms, ih]
    simp

/-- The forms of the tokens of a forest are its trees. -/
theorem forms_tokens (f : Forest) (ts : List Token) :
    forms 0 [] (tokens f ++ ts) = f.map Tree.tokens ++ forms 0 [] ts := by
  induction f with
  | nil => rfl
  | cons tree f ih =>
    cases tree with
    | leaf word =>
      rw [Forest.tokens_leaf_cons, List.cons_append, forms, ih]
      rfl
    | list children =>
      rw [Forest.tokens_list_cons, List.cons_append, forms, List.append_assoc, forms_tokens_inside,
        List.cons_append, forms, ih]
      simp [Tree.tokens]

/-- The forms of a whole program are the trees of its forest. -/
theorem forms_tokens_self (f : Forest) : forms 0 [] (tokens f) = f.map Tree.tokens := by
  have hforms := forms_tokens f []
  rw [List.append_nil] at hforms
  rw [hforms, forms, List.append_nil]

/-! ## Operations on forests -/

variable {f : Forest}

/-- A program is one word if its forest is one leaf. -/
theorem isAtomic_tokens_iff : isAtomic (tokens f) = true ↔ ∃ word, f = [.leaf word] := by
  match f with
  | [] => simp [isAtomic]
  | [.leaf word] => simp [isAtomic]
  | .leaf word :: tree :: f => cases tree <;> simp [isAtomic]
  | .list children :: f => simp [isAtomic]

/-- A program is a combination if its forest is one list. -/
theorem isCombination_tokens_iff :
    isCombination (tokens f) = true ↔ ∃ children, f = [.list children] := by
  match f with
  | [] => simp [isCombination]
  | .leaf word :: f => simp [isCombination]
  | .list children :: f =>
    rw [Forest.tokens_list_cons, isCombination, closesLast_tokens, closesLast, List.isEmpty_iff,
      Forest.tokens_eq_nil_iff]
    simp

/-- A combination is taken apart into the children of its list. -/
theorem split_tokens_list (children : Forest) :
    split (tokens [.list children]) = children.map Tree.tokens := by
  have hcombination : isCombination (tokens [.list children]) = true :=
    isCombination_tokens_iff.mpr ⟨children, rfl⟩
  have hinterior : interior (tokens [.list children]) = tokens children := by
    rw [interior, if_pos hcombination]
    simp
  rw [split, hinterior, forms_tokens_self]

/-- Any other program is taken apart into the trees of its forest. -/
theorem split_tokens (h : isCombination (tokens f) = false) :
    split (tokens f) = f.map Tree.tokens := by
  rw [split, interior, if_neg (Bool.eq_false_iff.mp h), forms_tokens_self]

/-- The parts of a program are trees. -/
theorem exists_split_tokens (f : Forest) :
    ∃ trees : Forest, split (tokens f) = trees.map Tree.tokens := by
  cases hcombination : isCombination (tokens f) with
  | false => exact ⟨f, split_tokens hcombination⟩
  | true =>
    obtain ⟨children, rfl⟩ := isCombination_tokens_iff.mp hcombination
    exact ⟨children, split_tokens_list children⟩

/-- A tree is one word or a combination. -/
theorem isAtomic_or_isCombination (tree : Tree) :
    isAtomic tree.tokens = true ∨ isCombination tree.tokens = true := by
  have htree : tokens [tree] = tree.tokens := List.append_nil _
  rw [← htree, isAtomic_tokens_iff, isCombination_tokens_iff]
  cases tree <;> simp

/-- What a token is replaced by is bound to it. -/
theorem mem_of_replacement? {bindings : List (Token × Program)} {t : Token} {q : Program}
    (h : replacement? bindings t = some q) : (t, q) ∈ bindings := by
  obtain ⟨entry, hfound, rfl⟩ := Option.map_eq_some_iff.mp h
  have hkey : entry.1 = t := by simpa using List.find?_some hfound
  rw [← hkey]
  exact List.mem_reverse.mp (List.mem_of_find?_eq_some hfound)

/-- The forests that `bindings` put in the place of leaves. -/
def forestFor (bindings : List (Token × Program)) (word : String) : Option Forest :=
  (replacement? bindings (.word word)).map forest

/-- Substitution in the tokens of a forest replaces its leaves. -/
theorem substitute_tokens {bindings : List (Token × Program)}
    (h : ∀ entry ∈ bindings, (∃ word, entry.1 = .word word) ∧ isValid entry.2 = true) (f : Forest) :
    substitute bindings (tokens f) = tokens (graft (forestFor bindings) f) := by
  have hparenthesis : ∀ t, (∀ word, t ≠ .word word) → replacement? bindings t = none := by
    intro t ht
    cases hreplaced : replacement? bindings t with
    | none => rfl
    | some q =>
      obtain ⟨⟨word, hword⟩, -⟩ := h _ (mem_of_replacement? hreplaced)
      exact absurd hword (ht word)
  have hleft := hparenthesis .left nofun
  have hright := hparenthesis .right nofun
  induction f using Forest.induction with
  | nil => rfl
  | leaf word f ih =>
    have hword : (replacement? bindings (.word word)).getD [.word word] =
        tokens (Tree.graft (forestFor bindings) (.leaf word)) := by
      rw [Tree.graft, forestFor]
      cases hreplaced : replacement? bindings (.word word) with
      | none => rfl
      | some q => exact (tokens_forest (h _ (mem_of_replacement? hreplaced)).2).symm
    rw [Forest.tokens_leaf_cons, substitute, List.flatMap_cons, ← substitute, ih, hword, graft,
      Forest.tokens_append]
  | list children f ihChildren ih =>
    rw [Forest.tokens_list_cons, substitute, List.flatMap_cons, List.flatMap_append,
      List.flatMap_cons, ← substitute, ← substitute, ih, ihChildren, hleft, hright, graft, Tree.graft]
    simp

/-- A program whose parentheses match is the flattening of exactly one forest. It is one word if the
forest is one leaf, and a combination if the forest is one list. Its parts are the children of that
list, or else the trees of the forest: each is one word or a combination, and together they make up
all of the program but the outer parentheses of a combination. Substitution of programs whose
parentheses match for words replaces leaves of the forest. -/
theorem reads_as_forest {p : Program} (hp : p.isValid = true) :
    (∀ f : Forest, tokens f = p ↔ f = p.forest) ∧
    (p.isAtomic = true ↔ ∃ word, p.forest = [.leaf word]) ∧
    (p.isCombination = true ↔ ∃ children, p.forest = [.list children]) ∧
    (∀ children, p.forest = [.list children] → p.split = children.map Tree.tokens ∧
      .left :: (p.split.flatten ++ [.right]) = p ∧ ∀ q ∈ p.split, q.length < p.length) ∧
    ((∀ children, p.forest ≠ [.list children]) →
      p.split = p.forest.map Tree.tokens ∧ p.split.flatten = p) ∧
    (∀ q ∈ p.split, q.isAtomic = true ∨ q.isCombination = true) ∧
    ∀ bindings : List (Token × Program),
      (∀ entry ∈ bindings, (∃ word, entry.1 = .word word) ∧ entry.2.isValid = true) →
      p.substitute bindings = tokens (graft (forestFor bindings) p.forest) ∧
        (p.substitute bindings).isValid = true := by
  obtain ⟨f, rfl⟩ : ∃ f, tokens f = p := ⟨p.forest, tokens_forest hp⟩
  rw [forest_tokens]
  refine ⟨fun g => ⟨fun hg => ?_, congrArg tokens⟩, isAtomic_tokens_iff, isCombination_tokens_iff,
    fun children hf => ?_, fun hf => ?_, fun q hq => ?_, fun bindings hbindings => ?_⟩
  · rw [← forest_tokens g, hg, forest_tokens]
  · subst hf
    have hlist := split_tokens_list children
    have hflatten : .left :: ((split (tokens [.list children])).flatten ++ [.right]) =
        tokens [.list children] := by
      rw [hlist, Forest.flatten_map_tokens]
      simp
    refine ⟨hlist, hflatten, fun q hq => ?_⟩
    have hlength := (List.sublist_flatten_of_mem hq).length_le
    have htotal := congrArg List.length hflatten
    simp only [List.length_cons, List.length_append] at htotal
    omega
  · have hcombination : isCombination (tokens f) = false := by
      rw [Bool.eq_false_iff, Ne, isCombination_tokens_iff]
      exact fun hlist => hlist.elim hf
    rw [split_tokens hcombination]
    exact ⟨rfl, Forest.flatten_map_tokens f⟩
  · obtain ⟨trees, htrees⟩ := exists_split_tokens f
    rw [htrees] at hq
    obtain ⟨tree, -, rfl⟩ := List.mem_map.mp hq
    exact isAtomic_or_isCombination tree
  · rw [substitute_tokens hbindings f]
    exact ⟨rfl, isValid_tokens _⟩

/-- The program `(x (y) ()) x` is two trees. Putting `(y)` for `x` and `x x` for `y` exchanges the
names: what is put in for one of them is not replaced by way of the other. -/
theorem reads_as_forest_exchange :
    let p : Program := [.left, .word "x", .left, .word "y", .right, .left, .right, .right, .word "x"]
    let bindings : List (Token × Program) :=
      [(.word "x", [.left, .word "y", .right]), (.word "y", [.word "x", .word "x"])]
    p.forest = [.list [.leaf "x", .list [.leaf "y"], .list []], .leaf "x"] ∧
      p.split = p.forest.map Tree.tokens ∧
      tokens (graft (forestFor bindings) p.forest) =
        [.left, .left, .word "y", .right, .left, .word "x", .word "x", .right, .left, .right, .right,
          .left, .word "y", .right] := by
  intro p bindings
  have hp : p.isValid = true := by decide
  have hforest : p.forest = [.list [.leaf "x", .list [.leaf "y"], .list []], .leaf "x"] := rfl
  have hbindings : ∀ entry ∈ bindings,
      (∃ word, entry.1 = .word word) ∧ entry.2.isValid = true := by
    simp [bindings, isValid, missingRight, openAfter]
  obtain ⟨-, -, -, -, hsequence, -, hsubstitute⟩ := reads_as_forest hp
  refine ⟨hforest, (hsequence (by simp [hforest])).1, ?_⟩
  rw [← (hsubstitute bindings hbindings).1]
  decide

end Program

end FlatLisp
