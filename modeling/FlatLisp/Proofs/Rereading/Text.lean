import FlatLisp.Proofs.Keywords
import FlatLisp.Proofs.RoundTrip

/-!
# Functions from their texts

The text of a closure or a template is put together from a keyword, the list of formals and the body,
each written by itself. If the formals and the body are single forms of words that can be read, the
whole reads as one list of these parts, and evaluating the list makes the function once more.
-/

namespace FlatLisp

/-! ## The text of a list -/

namespace Program

variable {comments : Bool} {p q : Program}

/-- A single form whose words can be read from a text. -/
structure IsPart (comments : Bool) (p : Program) : Prop where
  isForm : p.IsForm
  lexemes : ∀ t ∈ p, t.IsLexeme comments

/-- A program such as a text can hold: its parentheses match and its words can be read. -/
structure IsReadable (comments : Bool) (p : Program) : Prop where
  isValid : p.isValid = true
  lexemes : ∀ t ∈ p, t.IsLexeme comments

/-- A single form can be read. -/
theorem IsPart.isReadable (h : p.IsPart comments) : p.IsReadable comments :=
  ⟨h.isForm.isValid, h.lexemes⟩

/-- A single form does not start with `)` and does not end with `(`. -/
theorem IsForm.ends (h : p.IsForm) :
    ∃ first last : Token, p.head? = some first ∧ p.getLast? = some last ∧ first ≠ .right ∧
      last ≠ .left := by
  obtain ⟨tree, rfl⟩ := h.exists_tree
  cases tree with
  | leaf word => exact ⟨_, _, rfl, rfl, Token.noConfusion, Token.noConfusion⟩
  | list children =>
    have hlast : (Token.left :: (Forest.tokens children ++ [.right])).getLast? = some .right := by
      rw [← List.cons_append, List.getLast?_concat]
    exact ⟨.left, .right, rfl, hlast, Token.noConfusion, Token.noConfusion⟩

/-- The text of tokens goes on after the last of them. -/
theorem renderAfter_append (previous : Token) (p q : Program) :
    renderAfter previous (p ++ q) =
      renderAfter previous p ++ renderAfter ((p.getLast?).getD previous) q := by
  induction p generalizing previous with
  | nil => simp [renderAfter]
  | cons t p ih =>
    have hlast : ((t :: p).getLast?).getD previous = (p.getLast?).getD t := by
      rw [List.getLast?_cons]
      rfl
    rw [List.cons_append, renderAfter, renderAfter, ih, hlast]
    simp only [String.append_assoc]

/-- A single form is set apart by a space from what stands in front of it, unless that is `(`. -/
theorem renderAfter_of_isForm {previous : Token} (hprevious : previous ≠ .left) (h : p.IsForm)
    (q : Program) :
    renderAfter previous (p ++ q) = " " ++ p.render ++ renderAfter ((p.getLast?).getD previous) q := by
  obtain ⟨first, last, hfirst, -, hne, -⟩ := h.ends
  cases p with
  | nil => cases hfirst
  | cons t p =>
    rw [List.head?_cons, Option.some.injEq] at hfirst
    subst hfirst
    have hspaced : spaced previous t = true := by
      cases previous with
      | left => exact absurd rfl hprevious
      | right | word _ =>
        cases t with
        | right => exact absurd rfl hne
        | left | word _ => rfl
    rw [renderAfter_append, renderAfter, hspaced, if_pos rfl, render]
    simp only [String.append_assoc]

/-! ## What can be read -/

/-- What is read from a text can be read. -/
theorem isReadable_of_parse {text : String} (h : parse comments text = .ok p) :
    p.IsReadable comments := by
  refine ⟨isValid_of_parse h, ?_⟩
  change ((tokenize comments text).validate >>= fun _ => pure (tokenize comments text)) = _ at h
  cases hcheck : (tokenize comments text).validate with
  | error report =>
    rw [hcheck] at h
    cases h
  | ok _ =>
    rw [hcheck] at h
    cases h
    exact isLexeme_of_mem_tokenize text

/-- The text of a program that can be read is read as the program. -/
theorem IsReadable.parse_render (h : p.IsReadable comments) : parse comments p.render = .ok p := by
  change ((tokenize comments p.render).validate >>= fun _ => pure (tokenize comments p.render)) = _
  rw [tokenize_render h.lexemes, validate_eq_ok_iff.mpr h.isValid]
  rfl

/-- The tokens of parts are tokens of the whole. -/
theorem mem_of_mem_split (hp : p.isValid = true) {t : Token} (hq : q ∈ p.split) (ht : t ∈ q) :
    t ∈ p := by
  obtain ⟨f, rfl⟩ : ∃ f : Forest, f.tokens = p := ⟨p.forest, tokens_forest hp⟩
  cases hcombination : isCombination f.tokens with
  | false =>
    rw [split_tokens hcombination] at hq
    rw [← Forest.flatten_map_tokens]
    exact List.mem_flatten.mpr ⟨q, hq, ht⟩
  | true =>
    obtain ⟨children, rfl⟩ := isCombination_tokens_iff.mp hcombination
    rw [split_tokens_list] at hq
    have hinside : t ∈ Forest.tokens children := by
      rw [← Forest.flatten_map_tokens]
      exact List.mem_flatten.mpr ⟨q, hq, ht⟩
    simp [hinside]

/-- The parts of what can be read are single forms. -/
theorem IsReadable.isPart_of_mem_split (h : p.IsReadable comments) (hq : q ∈ p.split) :
    q.IsPart comments := by
  refine ⟨?_, fun t ht => h.lexemes t (mem_of_mem_split h.isValid hq ht)⟩
  obtain ⟨trees, htrees⟩ := exists_split_tokens p.forest
  rw [tokens_forest h.isValid] at htrees
  rw [htrees] at hq
  obtain ⟨tree, -, rfl⟩ := List.mem_map.mp hq
  exact isAtomic_or_isCombination tree

/-- What can be read may be put in for words of what can be read. -/
theorem IsReadable.substitute {formals : List String} {ps : List Program}
    (h : p.IsReadable comments) (hps : ∀ q ∈ ps, q.IsReadable comments) :
    (p.substitute ((formals.map Token.word).zip ps)).IsReadable comments := by
  refine ⟨isValid_substitute h.isValid fun q hq => (hps q hq).isValid, fun t ht => ?_⟩
  obtain ⟨u, hu, ht⟩ := List.mem_flatMap.mp ht
  cases hreplaced : replacement? ((formals.map Token.word).zip ps) u with
  | none =>
    rw [hreplaced] at ht
    cases List.mem_singleton.mp ht
    exact h.lexemes _ hu
  | some q =>
    rw [hreplaced] at ht
    exact (hps q (List.of_mem_zip (mem_of_replacement? hreplaced)).2).lexemes t ht

end Program

/-! ## The text of a function -/

/-- The text of a function is that of a list of a keyword, formals and a body. -/
theorem Form.source_eq (keyword : String) {parameters body : Program} (hparameters : parameters.IsForm)
    (hbody : body.IsForm) :
    Form.source keyword parameters body =
      Program.render (.left :: .word keyword :: (parameters ++ body ++ [.right])) := by
  obtain ⟨-, last, -, hlast, -, hne⟩ := hparameters.ends
  obtain ⟨-, closing, -, hclosing, -, -⟩ := hbody.ends
  have hend : ∀ t : Token, Program.renderAfter t [.right] = ")" := by
    intro t
    cases t <;> rfl
  rw [Program.render, Program.renderAfter, List.append_assoc,
    Program.renderAfter_of_isForm Token.noConfusion hparameters, hlast, Option.getD_some,
    Program.renderAfter_of_isForm hne hbody, hclosing, Option.getD_some, hend]
  simp [Form.source, Program.spaced, Token.text, String.append_assoc]

/-- The text of a function made of single forms is read as a list of a keyword, formals and a body. -/
theorem Form.parse_source {comments : Bool} {keyword : String} {parameters body : Program}
    (hkeyword : (Token.word keyword).IsLexeme comments) (hparameters : parameters.IsPart comments)
    (hbody : body.IsPart comments) :
    Program.parse comments (Form.source keyword parameters body) =
      .ok (.left :: .word keyword :: (parameters ++ body ++ [.right])) := by
  rw [Form.source_eq keyword hparameters.isForm hbody.isForm]
  refine Program.IsReadable.parse_render ⟨?_, ?_⟩
  -- As a tree the text is a list of three, whose tokens match.
  · obtain ⟨first, rfl⟩ := hparameters.isForm.exists_tree
    obtain ⟨second, rfl⟩ := hbody.isForm.exists_tree
    have hlist := Program.isValid_tokens [.list [.leaf keyword, first, second]]
    rw [← tokens_list_pair]
    rwa [Forest.tokens_list_cons, Forest.tokens_nil] at hlist
  · simp only [List.forall_mem_cons, List.forall_mem_append]
    exact ⟨trivial, hkeyword, ⟨hparameters.lexemes, hbody.lexemes⟩, trivial, nofun⟩

variable {E : Type}

/-- Whether a function was made in the language, by `lambda` or `macro`. -/
def Body.IsDefined : Body E → Prop
  | .closure _ _ _ | .template _ _ => True
  | _ => False

/-- The text of a function is the source of one with the given formals and body. -/
def Function.IsSource (comments : Bool) (keyword : String) (formals : List String) (body : Program)
    (f : Function E) : Prop :=
  ∃ parameters, f.label = some (Form.source keyword parameters body) ∧
    parameters.IsPart comments ∧ body.IsPart comments ∧ parameterList parameters = .ok formals

/-- A function that was made in the language has its source for its text. -/
def Function.ShowsSource (comments : Bool) (f : Function E) : Prop :=
  match f.body with
  | .closure formals body _ => f.IsSource comments "lambda" formals body
  | .template formals body => f.IsSource comments "macro" formals body
  | _ => True

/-- What making a function gives if its formals are right. -/
theorem makeFunction_eq {parameters : Program} {formals : List String}
    (hformals : parameterList parameters = .ok formals) (keyword : String) (body : Program)
    (make : List String → Body E) (w : World E) :
    Form.makeFunction keyword parameters body make w =
      (.ok (.function ⟨w.nextId, some (Form.source keyword parameters body), make formals⟩),
        { w with nextId := w.nextId + 1 }) := by
  unfold Form.makeFunction
  rw [hformals]
  rfl

/-! ## Functions made again -/

/-- Bodies of the same sort with the same formals and the same program. -/
inductive Body.SameCode : Body E → Body E → Prop
  | closure (formals : List String) (p : Program) (s t : ScopeId) :
      SameCode (.closure formals p s) (.closure formals p t)
  | template (formals : List String) (p : Program) :
      SameCode (.template formals p) (.template formals p)

variable [Embedding E]

/-- A function that was made in the language, made once more in the scope `t`. -/
structure Function.IsCopy (t : ScopeId) (f g : Function E) : Prop where
  code : f.body.SameCode g.body
  signature : g.signature = f.signature
  text : g.render = f.render
  /-- A closure is closed over the scope that it is made in. -/
  scope : g.scope? = f.scope?.map fun _ => t

/-- The text of a function is read as a program that makes the function once more, wherever `lambda` and
`macro` have their meaning and two evaluations can be nested. Where they cannot, the limit is
reported. -/
def Function.Rereads (comments : Bool) (f : Function E) : Prop :=
  ∃ p, Program.parse comments f.render = .ok p ∧
    ∀ (u : World E) (t : ScopeId) (session : Session E), u.Means t "lambda" .lambda →
      u.Means t "macro" .template → u.sessionOf? t = some session →
      if session.depth + 1 < session.maxDepth then
        ∃ g, evaluate t p u = (.ok (.function g), { u with nextId := u.nextId + 1 }) ∧
          g.id = u.nextId ∧ f.IsCopy t g
      else evaluate t p u = (.error (.stackExhausted session.maxDepth), u)

section

variable {u : World E} {t : ScopeId} {session : Session E} {keyword : String}
  {parameters body : Program}

/-- A list of a keyword, formals and a body makes a function if its keyword does. -/
theorem evaluate_source {form : Form} (hmeans : u.Means t keyword form)
    (hlazy : (form.typed : Typed E).signature.isLazy = true)
    (hsession : u.sessionOf? t = some session) (hdeep : session.depth + 1 < session.maxDepth)
    (hparameters : parameters.IsForm) (hbody : body.IsForm) (make : Nat → Function E)
    (hcall : ∀ v : World E,
      Function.call ⟨0, none, .form form⟩ t [.program parameters, .program body] v =
        (.ok (.function (make v.nextId)), { v with nextId := v.nextId + 1 })) :
    evaluate t (.left :: .word keyword :: (parameters ++ body ++ [.right])) u =
      (.ok (.function (make u.nextId)), { u with nextId := u.nextId + 1 }) := by
  obtain ⟨i, hroom⟩ := World.HasRoom.of_sessionOf? hsession (Nat.lt_of_succ_lt hdeep)
  obtain ⟨first, rfl⟩ := hparameters.exists_tree
  obtain ⟨second, rfl⟩ := hbody.exists_tree
  have hdeeper : Function.call ⟨0, none, .form form⟩ t
      (([first, second].map Tree.tokens).map .program) (u.setDepth i (session.depth + 1)) =
        (.ok (.function (make u.nextId)),
          { u.setDepth i (session.depth + 1) with nextId := u.nextId + 1 }) :=
    hcall (u.setDepth i (session.depth + 1))
  have hback := congrArg (fun v : World E => { v with nextId := u.nextId + 1 }) hroom.setDepth_back
  rw [← tokens_list_pair, hroom.evaluate_keyword hdeep hmeans (.inl hlazy) hdeeper]
  exact Prod.ext rfl hback

/-- Such a list exhausts the limit where two evaluations cannot be nested. -/
theorem evaluate_source_of_full (keyword : String) (hsession : u.sessionOf? t = some session)
    (hfull : ¬session.depth + 1 < session.maxDepth) (hparameters : parameters.IsForm)
    (hbody : body.IsForm) :
    evaluate t (.left :: .word keyword :: (parameters ++ body ++ [.right])) u =
      (.error (.stackExhausted session.maxDepth), u) := by
  obtain ⟨first, rfl⟩ := hparameters.exists_tree
  obtain ⟨second, rfl⟩ := hbody.exists_tree
  rw [← tokens_list_pair]
  by_cases hdepth : session.depth < session.maxDepth
  · obtain ⟨i, hroom⟩ := World.HasRoom.of_sessionOf? hsession hdepth
    exact hroom.evaluate_list_of_full hfull keyword [first, second]
  · exact evaluate_of_full hsession hdepth _

end

namespace Function

variable {comments : Bool} {f : Function E} {formals : List String} {body : Program}

/-- A function whose text is its source is made again by a form that makes such functions. -/
theorem IsSource.rereads {keyword : String} (h : f.IsSource comments keyword formals body)
    (form : Form) (hkeyword : (Token.word keyword).IsLexeme comments)
    (hlazy : (form.typed : Typed E).signature.isLazy = true)
    (hmeans : ∀ (u : World E) t, u.Means t "lambda" .lambda → u.Means t "macro" .template →
      u.Means t keyword form)
    (make : ScopeId → Body E)
    (hcopy : ∀ id t, f.IsCopy t ⟨id, f.label, make t⟩)
    (hcall : ∀ parameters t (v : World E), parameterList parameters = .ok formals →
      Function.call ⟨0, none, .form form⟩ t [.program parameters, .program body] v =
        (.ok (.function ⟨v.nextId, some (Form.source keyword parameters body), make t⟩),
          { v with nextId := v.nextId + 1 })) :
    f.Rereads comments := by
  obtain ⟨parameters, hlabel, hparameters, hbody, hformals⟩ := h
  have hparse : Program.parse comments f.render =
      .ok (.left :: .word keyword :: (parameters ++ body ++ [.right])) := by
    rw [Function.render, hlabel]
    exact Form.parse_source hkeyword hparameters hbody
  refine ⟨_, hparse, fun u t session hlambda htemplate hsession => ?_⟩
  split
  · next hdeep =>
    refine ⟨⟨u.nextId, f.label, make t⟩, ?_, rfl, hcopy u.nextId t⟩
    refine evaluate_source (hmeans u t hlambda htemplate) hlazy hsession hdeep hparameters.isForm
      hbody.isForm (fun id => ⟨id, f.label, make t⟩) fun v => ?_
    rw [hlabel]
    exact hcall parameters t v hformals
  · next hfull => exact evaluate_source_of_full keyword hsession hfull hparameters.isForm hbody.isForm

/-- A function that was made in the language is made again from its source. -/
theorem ShowsSource.rereads (h : f.ShowsSource comments) (hdefined : f.body.IsDefined) :
    f.Rereads comments := by
  have hlambda : ∀ comments, (Token.word "lambda").IsLexeme comments := by decide
  have htemplate : ∀ comments, (Token.word "macro").IsLexeme comments := by decide
  obtain ⟨id, label, code⟩ := f
  cases code with
  | closure formals body s =>
    refine IsSource.rereads h .lambda (hlambda comments) rfl (fun _ _ means _ => means)
      (fun t => .closure formals body t) (fun _ t => ⟨.closure formals body s t, rfl, rfl, rfl⟩) ?_
    exact fun parameters t v hformals => makeFunction_eq hformals "lambda" body _ v
  | template formals body =>
    refine IsSource.rereads h .template (htemplate comments) rfl (fun _ _ _ means => means)
      (fun _ => .template formals body) (fun _ _ => ⟨.template formals body, rfl, rfl, rfl⟩) ?_
    exact fun parameters t v hformals => makeFunction_eq hformals "macro" body _ v
  | form | builtin | host | embedded => exact hdefined.elim

end Function

end FlatLisp
