import PersonalOS.ArtifactDrafts
import PersonalOS.JobPostings
import PersonalOS.TokenPatterns
import Mathlib.Data.List.DropRight

/-! # The checkable facts of a draft

`personalos.domain.artifacts`: the terms of a segment that neither the records it cites nor the context
contains.

* **Reading.** A text is folded and read as tokens, words and numbers.  `_TOKEN` knows the letters and
  digits of ASCII only; `anyToken` is the same pattern for every script.
* **Support.** Texts vouch for their words and numbers, and for the phrases of their words joined.
* **Terms.** `unsupportedTerms` is what drafts are validated with: numbers first, then names, then
  protected phrases. -/

namespace PersonalOS.Drafts

open TokenPatterns

/-- What texts are folded and read with, beyond ASCII. -/
structure DraftTools where
  /-- `unicodedata.normalize("NFKC", ·)`. -/
  nfkc : String → String
  casefoldBeyond : Char → List Char
  alnumBeyond : Char → Bool
  upperBeyond : Char → Bool
  digitBeyond : Char → Bool

/-! ### Characters -/

def isAscii (c : Char) : Bool := decide (c.toNat < 128)

namespace DraftTools

variable (tools : DraftTools)

/-- `str.casefold` of one character. -/
def casefoldChar (c : Char) : List Char := if isAscii c then [c.toLower] else tools.casefoldBeyond c

def isAlnum (c : Char) : Bool := if isAscii c then c.isAlphanum else tools.alnumBeyond c

def isUpper (c : Char) : Bool := if isAscii c then c.isUpper else tools.upperBeyond c

def isDigit (c : Char) : Bool := if isAscii c then c.isDigit else tools.digitBeyond c

/-- `_fold`. -/
def fold (text : String) : List Char :=
  (tools.nfkc (Matching.stripUnsafeChars text)).toList.map fun c => if c = '’' then '\'' else c

end DraftTools

/-! ### Tokens -/

def isJoiner (c : Char) : Bool := c == '.' || c == '+' || c == '#' || c == '\''

def isMark (c : Char) : Bool := c == '+' || c == '#'

theorem isMark_joins (c : Char) (h : isMark c = true) : isJoiner c = true := by
  simp only [isMark, Bool.or_eq_true, beq_iff_eq] at h
  rcases h with rfl | rfl <;> rfl

theorem isAlphanum_not_joiner (c : Char) (h : c.isAlphanum = true) : isJoiner c = false := by
  cases hj : isJoiner c with
  | false => rfl
  | true =>
      simp only [isJoiner, Bool.or_eq_true, beq_iff_eq] at hj
      rcases hj with ((rfl | rfl) | rfl) | rfl <;> cases h

theorem isAlnum_not_joiner (tools : DraftTools) (c : Char) (h : tools.isAlnum c = true) :
    isJoiner c = false := by
  cases hj : isJoiner c with
  | false => rfl
  | true =>
      simp only [isJoiner, Bool.or_eq_true, beq_iff_eq] at hj
      rcases hj with ((rfl | rfl) | rfl) | rfl <;> cases h

/-- `_TOKEN`. -/
def asciiToken : Pattern Char where
  first := Char.isAlphanum
  joiner := isJoiner
  mark := isMark
  mark_joins := isMark_joins
  first_not_joiner := isAlphanum_not_joiner

variable (tools : DraftTools)

/-- `_TOKEN` with the letters and digits of every script. -/
def anyToken : Pattern Char where
  first := tools.isAlnum
  joiner := isJoiner
  mark := isMark
  mark_joins := isMark_joins
  first_not_joiner := isAlnum_not_joiner tools

theorem isDigit_not_joiner (c : Char) (h : tools.isDigit c = true) : (c == '.' || c == ',') = false := by
  cases hj : (c == '.' || c == ',') with
  | false => rfl
  | true =>
      simp only [Bool.or_eq_true, beq_iff_eq] at hj
      rcases hj with rfl | rfl <;> cases h

/-- `_NUMBER`. -/
def numberPattern : Pattern Char where
  first := tools.isDigit
  joiner c := c == '.' || c == ','
  mark _ := false
  mark_joins _ h := by cases h
  first_not_joiner := isDigit_not_joiner tools

/-- `_word`: a token as it is compared. -/
def word (token : List Char) : List Char :=
  let folded := (token.flatMap tools.casefoldChar).rdropWhile (· == '.')
  if ['\'', 's'].isSuffixOf folded then folded.dropLast.dropLast else folded

/-- `_words`, as the pattern reads them. -/
def words (p : Pattern Char) (text : String) : List (List Char) :=
  (p.tokens [] (tools.fold text)).map fun found => word tools found.token

/-- A number without its commas. -/
def plainNumber (token : List Char) : List Char := token.filter (· != ',')

/-- `_numbers`. -/
def numbers (text : String) : List (List Char) :=
  ((numberPattern tools).tokens [] (tools.fold text)).map fun found => plainNumber found.token

/-- Characters skipped when deciding whether a word starts a sentence. -/
def openers : List Char := [' ', '\t', '"', '\'', '(', '[', '-', '*', '•', '–', '—', '“', '‘']

def sentenceEnds : List Char := ['.', '!', '?', ':', ';', '\n']

/-- `_starts_sentence`, by what stands before. -/
def startsSentence (before : List Char) : Bool :=
  match (before.rdropWhile openers.contains).getLast? with
  | none => true
  | some c => sentenceEnds.contains c

/-- A name: a capital or digit inside it, or a capital that does not start a sentence. -/
def isNamed (found : Occurrence Char) : Bool :=
  found.token.tail.any (fun c => tools.isUpper c || tools.isDigit c) ||
    found.token.head?.any tools.isUpper && !startsSentence found.before

/-- A figure begins with a digit. -/
def isFigure (found : Occurrence Char) : Bool := found.token.head?.any tools.isDigit

/-! ### Support -/

/-- What a set of texts can vouch for. -/
structure Support where
  words : List (List Char)
  numbers : List (List Char)

def supportOf (p : Pattern Char) (texts : List String) : Support :=
  ⟨texts.flatMap (words tools p), texts.flatMap (numbers tools)⟩

/-- The words joined, with a blank at both ends. -/
def Support.joined (support : Support) : List Char := ' ' :: ([' '].intercalate support.words ++ [' '])

def Support.hasPhrase (support : Support) (phrase : List Char) : Bool :=
  decide ((' ' :: (phrase ++ [' '])) <:+: support.joined)

/-- A term as a phrase of words. -/
def phraseOf (p : Pattern Char) (term : String) : List Char := [' '].intercalate (words tools p term)

/-- Credential words that are claims wherever they appear. -/
def degreeTerms : List String :=
  ["bachelor", "bachelors", "master", "masters", "phd", "doctorate", "mba", "degree", "diploma",
    "certified", "certification", "certificate", "licensed"]

/-- Capitalized words that are form, not fact. -/
def neutralTerms : List String :=
  ["i", "i'm", "i've", "i'd", "i'll", "dear", "hiring", "manager", "team", "sincerely", "regards", "best",
    "thank", "thanks"]

def isNeutral (word : List Char) : Bool := neutralTerms.any (·.toList == word)

/-- The phrases that count as claims. -/
def protectedPhrases (protectedTerms : List String) : List (List Char) :=
  (((protectedTerms ++ degreeTerms).map (phraseOf tools asciiToken)).filter fun phrase =>
    !phrase.isEmpty).eraseDups

/-! ### Unsupported terms -/

section terms

variable (support context : Support) (text : String)

def missingNumbers : List (List Char) :=
  (((numberPattern tools).tokens [] (tools.fold text)).filter fun found =>
    !support.numbers.contains (plainNumber found.token) &&
      !context.numbers.contains (plainNumber found.token)).map (·.token)

def missingNames : List (List Char) :=
  ((asciiToken.tokens [] (tools.fold text)).filter fun found =>
    !(context.words.contains (word tools found.token) || isNeutral (word tools found.token) ||
      support.words.contains (word tools found.token)) &&
      (!isFigure tools found && isNamed tools found)).map (·.token)

def missingPhrases (phrases : List (List Char)) : List (List Char) :=
  phrases.filter fun phrase => (supportOf tools asciiToken [text]).hasPhrase phrase &&
    (!support.hasPhrase phrase && !context.hasPhrase phrase)

end terms

/-- `_unsupported_terms`, with the supporting texts. -/
def unsupportedTerms (contextTerms protectedTerms : List String) : UnsupportedTerms := fun text texts =>
  let support := supportOf tools asciiToken texts
  let context := supportOf tools asciiToken contextTerms
  ((missingNumbers tools support context text ++ missingNames tools support context text ++
    missingPhrases tools support context text (protectedPhrases tools protectedTerms)).map
      String.ofList).eraseDups

end PersonalOS.Drafts
