import FlatLisp.Session

/-!
# Sample functions

Functions such as an embedder might add, at least one for every way to declare parameters: each
payload type alone, several of them, programs, access to the calling scope, and any number of
further arguments. A second family works on payloads and is meant for a host registry. The samples
whose parameters mix programs and evaluated arguments cannot be registered.
-/

namespace FlatLisp.Embed

/-- Sample functions with typed parameters. -/
inductive TypedSample where
  | quote | answer
  | sameInt | sameFloat | sameBool | sameComplex | sameSymbol | sameFunction | sameObject | sameValue
  | numberTag | intIf | join3 | join4 | join2Programs | join3Programs | join4Programs | safeDiv
  | inRoot | hasLocal | bindHere | branchOnZero | callWith3 | twice
  | countAll | countNumbers | joinIf | joinXor | countTrue | joinSymbols | joinPrograms
  | joinPrograms1
  | constInt8 | constInt16 | constInt32 | constWord8 | constWord16 | constWord32 | constFloat
  | constComplex | constUnit | constText | constFunction | constObject | constValue | constHidden
  | constError
  | mixed2 | mixed4 | mixedRest1 | mixedRest2 | mixedScoped
deriving DecidableEq, Repr

/-- Sample functions on payloads. -/
inductive HostSample where
  | textLength | echo | countWord | nested | lead | tail | int32 | single | bytes | size | boxed
  | object | fail | one | two | count
deriving DecidableEq, Repr

/-- A function that an embedder adds. -/
inductive Sample where
  | typed (f : TypedSample)
  | host (f : HostSample)
  /-- Negation that wraps around, which `constFunction` makes. -/
  | negate
deriving DecidableEq, Repr

/-- Texts with a bar between them, as a symbol. -/
def joined (texts : List String) : Value Sample :=
  .symbol (" | ".intercalate texts)

/-- The name of the floor of a number. -/
def numberTag : Number → String
  | .int _ => "int"
  | .float _ => "float"
  | .complex _ => "complex"

/-- The word of a count. -/
def countOf {α : Type} (xs : List α) : Value Sample :=
  .int (Int64.ofNat xs.length)

/-- A function without parameters. -/
def constant (result : EvalM Sample (Value Sample)) : Typed Sample :=
  ⟨[], none, false, fun _ _ => result⟩

/-- A function that does not look at the scope it is called from. -/
def plain (params : List ParamType) (rest : Option ParamType)
    (run : Args Sample params rest → Value Sample) : Typed Sample :=
  .pure params rest fun args => .ok (run args)

/-- A function that acts on the scope it is called from. -/
def inScope (params : List ParamType)
    (run : Caller Sample → Args Sample params none → EvalM Sample (Value Sample)) : Typed Sample :=
  ⟨params, none, true, run⟩

/-- Division cut off toward zero. -/
def safeDivide (a b : Int64) : Except Error (Value Sample) :=
  let failure := Error.domain (.reported "division by zero")
  if b = 0 then .error failure
  else
    match narrow? (a.toInt.tdiv b.toInt) with
    | some n => .ok (.int n)
    | none => .error failure

namespace TypedSample

/-- The name that a sample is bound to unless another is given. -/
def name : TypedSample → String
  | quote => "quote" | answer => "k0"
  | sameInt => "k-int" | sameFloat => "k-float" | sameBool => "k-bool" | sameComplex => "k-complex"
  | sameSymbol => "k-sym" | sameFunction => "k-fn" | sameObject => "k-obj" | sameValue => "k-any"
  | numberTag => "k-num" | intIf => "k2" | join3 => "k3" | join4 => "k4"
  | join2Programs => "lazy2" | join3Programs => "lazy3" | join4Programs => "lazy4"
  | safeDiv => "safe-div"
  | inRoot => "e0" | hasLocal => "e1" | bindHere => "e2" | branchOnZero => "e3" | callWith3 => "e4"
  | twice => "twice"
  | countAll => "v0" | countNumbers => "v1" | joinIf => "v2" | joinXor => "v3"
  | countTrue => "vbool" | joinSymbols => "vsym" | joinPrograms => "vlazy"
  | joinPrograms1 => "vlazy1"
  | constInt8 => "r-i8" | constInt16 => "r-i16" | constInt32 => "r-i32" | constWord8 => "r-u8"
  | constWord16 => "r-u16" | constWord32 => "r-u32" | constFloat => "r-f64"
  | constComplex => "r-complex" | constUnit => "r-unit" | constText => "r-str"
  | constFunction => "r-fn" | constObject => "r-obj" | constValue => "r-any"
  | constHidden => "r-any-vec" | constError => "r-err"
  | mixed2 => "bad2" | mixed4 => "bad4" | mixedRest1 => "badv" | mixedRest2 => "badv2"
  | mixedScoped => "bade"

/-- The samples that can be registered. -/
def sound : List TypedSample :=
  [quote, answer, sameInt, sameFloat, sameBool, sameComplex, sameSymbol, sameFunction, sameObject,
   sameValue, numberTag, intIf, join3, join4, join2Programs, join3Programs, join4Programs, safeDiv,
   inRoot, hasLocal, bindHere, branchOnZero, callWith3, twice, countAll, countNumbers, joinIf,
   joinXor, countTrue, joinSymbols, joinPrograms, joinPrograms1, constInt8, constInt16, constInt32,
   constWord8, constWord16, constWord32, constFloat, constComplex, constUnit, constText,
   constFunction, constObject, constValue, constHidden, constError]

/-- The samples that cannot be registered. -/
def unsound : List TypedSample :=
  [mixed2, mixed4, mixedRest1, mixedRest2, mixedScoped]

/-- The sample of a name. -/
def ofName? (name : String) : Option TypedSample :=
  (sound ++ unsound).find? fun f => f.name == name

/-- What a sample does. -/
def typed : TypedSample → Typed Sample
  | quote => plain [.program] none fun (p, _) => .symbol p.render
  | answer => plain [] none fun _ => .int 42
  | sameInt => plain [.int] none fun (n, _) => .int n
  | sameFloat => plain [.float] none fun (x, _) => .float x
  | sameBool => plain [.bool] none fun (b, _) => .bool b
  | sameComplex => plain [.complex] none fun (c, _) => .complex c
  | sameSymbol => plain [.symbol] none fun (text, _) => .symbol text
  | sameFunction => plain [.function] none fun (f, _) => .function f
  | sameObject => plain [.object] none fun (o, _) => .object o
  | sameValue => plain [.value] none fun (v, _) => v
  | numberTag => plain [.number] none fun (n, _) => .symbol (Embed.numberTag n)
  | intIf => plain [.int, .bool] none fun (n, b, _) => .int (if b then n else 0)
  | join3 => plain [.value, .float, .symbol] none fun (v, x, text, _) =>
      joined [v.render, Binary64.Layout.value.render x, text]
  | join4 => plain [.number, .number, .value, .bool] none fun (m, n, v, b, _) =>
      joined [Embed.numberTag m, Embed.numberTag n, v.render, (Value.bool b : Value Sample).render]
  | join2Programs => plain [.program, .program] none fun (p, q, _) => joined [p.render, q.render]
  | join3Programs => plain [.program, .program, .program] none fun (p, q, r, _) =>
      joined [p.render, q.render, r.render]
  | join4Programs => plain [.program, .program, .program, .program] none fun (p, q, r, s, _) =>
      joined [p.render, q.render, r.render, s.render]
  | safeDiv => .pure [.int, .int] none fun (a, b, _) => safeDivide a b
  | inRoot => inScope [] fun caller _ => do return .bool ((← get).isRoot caller.scope)
  | hasLocal => inScope [.symbol] fun caller (name, _) => do
      return .bool ((← get).hasLocal caller.scope name)
  | bindHere => inScope [.symbol, .value] fun caller (name, v, _) => do
      EvalM.bind caller.scope name v
      return v
  | branchOnZero => inScope [.program, .program, .program] fun caller (p, zero, other, _) => do
      let v ← caller.evaluate caller.scope p
      caller.evaluate caller.scope (if v.same (.int 0) then zero else other)
  | callWith3 => inScope [.function, .value, .value, .value] fun caller (f, a, b, c, _) =>
      caller.call f [.value a, .value b, .value c]
  | twice => inScope [.program] fun caller (p, _) => do
      let _ ← caller.evaluate caller.scope p
      caller.evaluate caller.scope p
  | countAll => plain [] (some .value) fun rest => countOf rest
  | countNumbers => plain [.int] (some .number) fun (n, rest) =>
      .int (n + Int64.ofNat rest.length)
  | joinIf => plain [.bool, .value] (some .value) fun (b, v, rest) =>
      if b then joined (rest.map Value.render) else .symbol v.render
  | joinXor => plain [.value, .value, .value] (some .int) fun (a, b, c, rest) =>
      joined [a.render, b.render, c.render, Numeral.render (rest.foldl (· ^^^ ·) 0)]
  | countTrue => plain [] (some .bool) fun rest => countOf (rest.filter id)
  | joinSymbols => plain [] (some .symbol) fun rest => joined rest
  | joinPrograms => plain [] (some .program) fun rest => joined (rest.map Program.render)
  | joinPrograms1 => plain [.program] (some .program) fun (p, rest) =>
      .symbol (p.render ++ " | " ++ " | ".intercalate (rest.map Program.render))
  | constInt8 => constant (return .int (-128))
  | constInt16 => constant (return .int (-32768))
  | constInt32 => constant (return .int (-2147483648))
  | constWord8 => constant (return .int 255)
  | constWord16 => constant (return .int 65535)
  | constWord32 => constant (return .int 4294967295)
  | constFloat => constant (return .float 0.1)
  | constComplex => constant (return .complex ⟨1.5, -2.0⟩)
  | constUnit => constant (return .empty)
  | constText => constant (return .symbol "two words")
  | constFunction => constant do return .function (← Function.make none (.embedded .negate))
  | constObject => constant do return .object (Object.ofList (← EvalM.newId) [1, 2, 3])
  | constValue => constant (return .int 7)
  | constHidden => constant do return .object (Object.hidden (← EvalM.newId))
  | constError => constant (throw (.undefinedSymbol "made up"))
  | mixed2 => plain [.program, .value] none fun _ => .empty
  | mixed4 => plain [.int, .program, .program, .int] none fun _ => .empty
  | mixedRest1 => plain [.program] (some .value) fun _ => .empty
  | mixedRest2 => plain [.value, .value] (some .program) fun _ => .empty
  | mixedScoped => inScope [.program, .int] fun _ _ => return .empty

end TypedSample

namespace HostSample

/-- What a sample does with its payloads. -/
def run : HostSample → List (Foreign Sample) → EvalM Sample (Foreign Sample)
  | textLength, payloads =>
    match payloads.getLast? with
    | some (.text s) => return .int64 (Int64.ofNat s.utf8ByteSize)
    | _ => throw (.domain (.reported "expected text"))
  | echo, payloads => return payloads.getLast?.getD .unit
  | countWord, payloads => return .word32 (UInt32.ofNat payloads.length)
  | nested, _ => return .fixedText "nested"
  | lead, _ => return .fixedText "lead"
  | tail, _ => return .fixedText "tail"
  | int32, _ => return .int32 (-5)
  | single, _ => return .single 0.1
  | bytes, _ => return .unclaimed
  | size, _ => return .unclaimed
  | boxed, _ => return .boxed (.bool true)
  | object, _ => do return .object (Object.ofList (← EvalM.newId) [4])
  | fail, _ => throw (.domain (.reported "host failure"))
  | one, _ => return .int64 1
  | two, _ => return .int64 2
  | count, payloads => return .int64 (Int64.ofNat payloads.length)

/-- The paths under which the samples stand in a registry, in the order of insertion. -/
def paths : List (String × HostSample) :=
  [("text:len", textLength), ("echo", echo), ("count", countWord), ("a:b:c", nested),
   (":lead", lead), ("tail:", tail), ("raw:i32", int32), ("raw:f32", single), ("raw:vec", bytes),
   ("raw:usize", size), ("raw:value", boxed), ("raw:object", object), ("fail", fail),
   ("dup", one), ("dup", two)]

/-- The samples for a host registry; the last one has no label. -/
def entries : List (String × Option String × Body Sample) :=
  paths.map (fun (path, f) => (path, some (hostLabel path), .embedded (.host f))) ++
    [("plain", none, .embedded (.host .count))]

end HostSample

instance : Embedding Sample where
  native
    | .typed f => .typed f.typed
    | .host f => .passThrough f.run
    | .negate => .typed (plain [.int] none fun (n, _) => .int (-n))
  directCalls := 16

end FlatLisp.Embed
