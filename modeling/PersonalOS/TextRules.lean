import PersonalOS.Redactor
import PersonalOS.RegexRules
import PersonalOS.Texts
import Mathlib.Data.List.Sort

/-! # The text rules of a redactor

`Redactor.redact_text` of `personalos.domain.redaction`: every known secret is replaced by the marker,
the longest first, and then every match of a rule.

* **Patterns.** A rule of the source is a `Regex.Rule`: the groups that it keeps are the lead, and behind
  them stands the marker.
* **Unicode.** Letters are compared as `re.IGNORECASE` compares them; which characters are in words, as a
  boundary needs it, is known of ASCII and given for others. -/

namespace PersonalOS

open Regex

/-- Which characters are in words. -/
structure WordTable where
  isWord : Char → Bool
  ascii : ∀ c : Char, c.toNat < 128 → isWord c = (c.isAlphanum || c == '_')

/-! ### Parts of patterns -/

/-- A character is this lower-case letter, as `re.IGNORECASE` compares them. -/
def sameLetter (letter c : Char) : Bool :=
  c == letter || c == letter.toUpper || letter == 'i' && (c == '\u0130' || c == '\u0131') ||
    letter == 's' && c == '\u017f' || letter == 'k' && c == '\u212a'

/-- The word, its characters compared in this way. -/
def spelled (same : Char → Char → Bool) (word : List Char) : Regex :=
  inTurn (word.map fun letter => .char (same letter))

/-- The word itself. -/
def exactly (word : String) : Regex := spelled (fun letter c => c == letter) word.toList

/-- The word in any case. -/
def anyCase (word : String) : Regex := spelled sameLetter word.toList

/-- `[^\s…]`. -/
def isNot (stops : List Char) (c : Char) : Bool := !isSpace c && !stops.contains c

/-- `[A-Za-z0-9…]`. -/
def isAlnumOr (others : List Char) (c : Char) : Bool := c.isAlphanum || others.contains c

/-- The same in any case. -/
def isAlnumOrAnyCase (others : List Char) (c : Char) : Bool := isAlnumAnyCase c || others.contains c

def isQuoteMark (c : Char) : Bool := c == '"' || c == '\''

/-- `["']?`. -/
def quoteMark : Regex := optional (.char isQuoteMark)

/-- `[:=]`. -/
def isSign (c : Char) : Bool := c == ':' || c == '='

/-- `[_-]?`. -/
def joiner : Regex := optional (.char fun c => c == '_' || c == '-')

/-- What stands between a name and its value: a sign, and a gap behind it. -/
structure Separator where
  sign : Regex
  gap : Regex

/-- The `:`/`=`, with spaces and quotes. -/
def Separator.loose : Separator where
  sign := inTurn [quoteMark, .many isSpace 0, .char isSign]
  gap := inTurn [.many isSpace 0, quoteMark]

/-- The `=` alone. -/
def Separator.equals : Separator where
  sign := .char fun c => c == '='
  gap := .empty

/-- The separator, refusing an already-redacted value. -/
def Separator.guarded (separator : Separator) (beforeValue : Regex) : Regex :=
  inTurn [separator.sign, .notAhead (inTurn [separator.gap, beforeValue, anyCase "[redacted]"]),
    separator.gap]

def schemes : Regex :=
  optional (inTurn [oneOf (anyCase "bearer") [anyCase "basic", anyCase "digest", anyCase "token",
    anyCase "oauth"], .many isSpace 1])

/-! ### The rules -/

/-- The marker in place of the value, behind the lead. -/
def markRule (lead value : Regex) (solid : value.Solid) : Regex.Rule where
  lead := lead
  value := value
  rewrite front := front ++ redactedMarker.toList
  solid := solid

theorem solid_spelled (same : Char → Char → Bool) {word : List Char} (h : word ≠ []) :
    (spelled same word).Solid := by
  obtain ⟨letter, word, rfl⟩ := List.exists_cons_of_ne_nil h
  exact solid_seq_left (solid_char _)

/-- A name in some context, its separator, and a value of at least so many such characters. -/
def namedRule (context name : Regex) (separator : Separator) (beforeValue : Regex) (p : Char → Bool)
    (least : ℕ) (h : 0 < least) : Regex.Rule :=
  markRule (inTurn [context, name, separator.guarded beforeValue]) (.seq beforeValue (.many p least))
    (solid_seq_right (solid_many p h))

/-- A PEM private key, whole block. -/
def pemRule : Regex.Rule :=
  markRule .empty
    (inTurn [exactly "-----BEGIN ", .many (fun c => c.isUpper || c == ' ') 0, exactly "PRIVATE KEY-----",
      .few fun _ => true, exactly "-----END ", .many (fun c => c.isUpper || c == ' ') 0,
      exactly "PRIVATE KEY-----"])
    (solid_seq_left (solid_spelled _ (by decide +kernel)))

/-- `refresh_token=...`, `"client_secret": "..."`, `GOOGLE_API_KEY=...`. -/
def nameRule : Regex.Rule :=
  namedRule (.notBehind isAlnumAnyCase)
    (oneOf (inTurn [oneOf (anyCase "refresh") [anyCase "access", anyCase "id", anyCase "auth",
        anyCase "session", anyCase "security", anyCase "bearer"], joiner, anyCase "token"])
      [inTurn [anyCase "client", joiner, anyCase "secret"],
        inTurn [optional (inTurn [anyCase "x", .char fun c => c == '_' || c == '-']), anyCase "api",
          joiner, anyCase "key"],
        anyCase "password", anyCase "passwd", inTurn [anyCase "secret", joiner, anyCase "key"],
        inTurn [anyCase "private", joiner, anyCase "key"]])
    .loose .empty (isNot ['"', '\'', '&', ',', ';', '}', ']']) 1 one_pos

/-- A credential carried as a URL query parameter; only a parameter name matches. -/
def queryRule : Regex.Rule :=
  namedRule .empty
    (inTurn [.char fun c => c == '?' || c == '&', optional (anyCase "amp;"),
      oneOf (anyCase "key") [anyCase "sig", anyCase "signature",
        inTurn [anyCase "x-", oneOf (anyCase "amz") [anyCase "goog"], anyCase "-",
          oneOf (anyCase "signature") [anyCase "credential", anyCase "security-token"]]]])
    .equals .empty (isNot ['"', '\'', '&', '#', ',', ';', '}', ']']) 1 one_pos

/-- A bare `token=` / `secret=`; `lease_token=` and `idempotency-token=` are left alone. -/
def bareRule : Regex.Rule :=
  namedRule (.notBehind (isAlnumOrAnyCase ['_', '-'])) (oneOf (anyCase "token") [anyCase "secret"])
    .loose .empty (isNot ['"', '\'', '&', ',', ';', '}', ']']) 8 (Nat.succ_pos 7)

/-- An OAuth authorization code on a redirect URL or in a form body. -/
def codeRule : Regex.Rule :=
  namedRule (.notBehind (isAlnumOrAnyCase ['_', '-'])) (anyCase "code")
    .equals .empty (isNot ['"', '\'', '&', ',', ';', '}', ']']) 8 (Nat.succ_pos 7)

section rules

variable (table : WordTable)

/-- `Authorization: Bearer abc`, `'Authorization': 'Basic abc'`, `authorization=abc`. -/
def authorizationRule : Regex.Rule :=
  namedRule (.boundary table.isWord) (inTurn [optional (anyCase "proxy-"), anyCase "authorization"])
    .loose schemes (isNot ['"', '\'', ',', ';', '}', ']']) 1 one_pos

/-- To the end of the line or the closing quote. -/
def cookieRule : Regex.Rule :=
  namedRule (.boundary table.isWord) (oneOf (anyCase "set-cookie") [anyCase "cookie"])
    .loose .empty (fun c => !(['"', '\'', '\r', '\n', '}'].contains c)) 1 one_pos

/-- A bearer token with no header name in front of it; its lead takes nothing. -/
def bearerRule : Regex.Rule where
  lead := .boundary table.isWord
  value := inTurn [anyCase "bearer", .many isSpace 1,
    .many (isAlnumOrAnyCase ['.', '_', '~', '+', '/', '=', '-']) 8]
  rewrite front := front ++ ("Bearer ".toList ++ redactedMarker.toList)
  solid := solid_seq_left (solid_spelled _ (by decide +kernel))

/-- A well-known token shape: a word, and what stands behind it. -/
def shapeRule (start : String) (parts : List Regex) (h : start.toList ≠ []) : Regex.Rule :=
  markRule (.boundary table.isWord) (inTurn (exactly start :: parts)) (solid_seq_left (solid_spelled _ h))

def jwtRule : Regex.Rule :=
  shapeRule table "eyJ"
    [.many (isAlnumOr ['_', '-']) 5, exactly ".eyJ", .many (isAlnumOr ['_', '-']) 5, exactly ".",
      .many (isAlnumOr ['_', '-']) 1] (by decide +kernel)

def githubRule : Regex.Rule :=
  shapeRule table "gh" [.char ['p', 'o', 'u', 's', 'r'].contains, exactly "_", .many (isAlnumOr []) 36]
    (by decide +kernel)

def slackRule : Regex.Rule :=
  shapeRule table "xox" [.char ['a', 'b', 'p', 'r', 's'].contains, exactly "-", .many (isAlnumOr ['-']) 10]
    (by decide +kernel)

def awsRule : Regex.Rule :=
  shapeRule table "AKIA"
    [inTurn (List.replicate 16 (.char fun c => c.isDigit || c.isUpper)), .boundary table.isWord]
    (by decide +kernel)

/-- Applied in order to every string. -/
def textRules : List Regex.Rule :=
  [pemRule, authorizationRule table, cookieRule table, bearerRule table, nameRule, queryRule, bareRule,
    codeRule,
    shapeRule table "ya29." [.many (isAlnumOr ['.', '_', '-']) 10] (by decide +kernel),
    shapeRule table "1//" [.many (isAlnumOr ['_', '-']) 20] (by decide +kernel),
    shapeRule table "4/" [.many (isAlnumOr ['_', '-']) 20] (by decide +kernel),
    shapeRule table "AIza" [.many (isAlnumOr ['_', '-']) 35] (by decide +kernel),
    jwtRule table,
    shapeRule table "sk-" [.many (isAlnumOr ['_', '-']) 20] (by decide +kernel),
    githubRule table, slackRule table, awsRule table]

end rules

/-! ### The text -/

/-- What the rules make of a text. -/
def applyRules (rules : List Regex.Rule) (text : List Char) : List Char :=
  rules.foldl (fun text rule => rule.sub none 0 text) text

/-- The marker in place of these secrets, one after the other. -/
def replaceKnown (secrets : List String) (text : List Char) : List Char :=
  secrets.foldl (fun text known => Splices.replaceFrom known.toList redactedMarker.toList 0 text) text

namespace Redactor

/-- Longest first, so a secret that contains another is removed whole. -/
def longestFirst (redactor : Redactor) : List String :=
  (redactor.known.map (·.value)).insertionSort fun a b => b.length ≤ a.length

/-- What `redact_text` does with a text that is not empty. -/
def removeSecrets (table : WordTable) (redactor : Redactor) (text : String) : String :=
  String.ofList (applyRules (textRules table) (replaceKnown redactor.longestFirst text.toList))

/-- Remove credentials from one string. -/
def redactText (table : WordTable) (redactor : Redactor) (text : String) : String :=
  if text = "" then text else redactor.removeSecrets table text

end Redactor

end PersonalOS
