import FlatLisp.Text.BreakClass

/-!
# Clusters

A cluster is what a reader takes for one character: a letter with its marks, a Hangul syllable, a
flag, a joined pictograph, an Indic conjunct. These are the extended grapheme clusters of Unicode.
Whether a character joins the cluster in front of it depends on a bounded part of what was read
before (`Context`).
-/

namespace FlatLisp.Text

/-- What must be known of the text in front of a character. -/
structure Context where
  /-- The class of the last character. -/
  last : BreakClass
  /-- The text ends with a pictograph and any number of extending characters. -/
  picture : Bool
  /-- The text ends with such a pictograph and a joiner. -/
  joinedPicture : Bool
  /-- The text ends with an odd number of region letters. -/
  oddRegion : Bool
  /-- The text ends with a consonant and characters that may stand inside a conjunct. -/
  consonant : Bool
  /-- The text ends with such a consonant, and one of those characters is a linker. -/
  linked : Bool
deriving DecidableEq, Repr

namespace Context

/-- The context in front of a text. -/
def start : Context := ⟨.control, false, false, false, false, false⟩

/-- The context behind a character. -/
def next (context : Context) (c : Char) : Context :=
  let cls := BreakClass.ofChar c
  let linker := isConjunctLinker c
  let inside := linker || isConjunctExtend c
  { last := cls
    picture := cls == .pictograph || (context.picture && cls == .extend)
    joinedPicture := context.picture && cls == .joiner
    oddRegion := cls == .region && !context.oddRegion
    consonant := isConjunctConsonant c || (context.consonant && inside)
    linked := context.consonant && (linker || (context.linked && inside)) }

/-- Whether a character belongs to the cluster in front of it. -/
def joins (context : Context) (c : Char) : Bool :=
  match context.last, BreakClass.ofChar c with
  | .carriageReturn, .lineFeed => true
  | .carriageReturn, _ | .lineFeed, _ | .control, _ => false
  | _, .carriageReturn | _, .lineFeed | _, .control => false
  | .hangulLead, .hangulLead | .hangulLead, .hangulVowel => true
  | .hangulLead, .openSyllable | .hangulLead, .closedSyllable => true
  | .openSyllable, .hangulVowel | .openSyllable, .hangulTrail => true
  | .hangulVowel, .hangulVowel | .hangulVowel, .hangulTrail => true
  | .closedSyllable, .hangulTrail | .hangulTrail, .hangulTrail => true
  | _, .extend | _, .joiner | _, .spacingMark => true
  | .leadingSign, _ => true
  | _, .pictograph => context.joinedPicture
  | _, .region => context.oddRegion
  | _, _ => context.linked && isConjunctConsonant c

end Context

/-- The clusters of a text behind the cluster that is being read, which `current` holds last
character first. -/
def clustersAfter (context : Context) (current : List Char) : List Char → List (List Char)
  | [] => [current.reverse]
  | c :: cs =>
    if context.joins c then clustersAfter (context.next c) (c :: current) cs
    else current.reverse :: clustersAfter (context.next c) [c] cs

/-- The clusters of a text. -/
def clusters : List Char → List (List Char)
  | [] => []
  | c :: cs => clustersAfter (Context.start.next c) [c] cs

end FlatLisp.Text
