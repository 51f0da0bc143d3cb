import PersonalOS.EvidenceStore
import PersonalOS.Fingerprints
import Mathlib.Data.Rat.Defs
import Mathlib.Data.List.Infix

/-! # Postings and what the candidate looks for

The values that the discovery nodes of the job-search graph hand on.

* **Texts.** Unicode normalization, case folding and the word characters of `re` are given with a
  `TextTools`; everything else about texts is computed.
* **Identity.** Two postings are the same opening if they have the same `dedupeKey`, which comes from
  company, title and description alone.
* **Non-blank texts.** What a validator refuses when it is blank is a `NonBlank`. -/

namespace PersonalOS.Matching

/-! ### Texts -/

/-- What texts are folded with. -/
structure TextTools where
  /-- `unicodedata.normalize("NFKC", ·)`. -/
  nfkc : String → String
  casefold : String → String
  /-- `str.lower`. -/
  lower : String → String
  /-- `\w`. -/
  isWord : Char → Bool
  /-- The hex digest of a text's UTF-8. -/
  sha256 : String → String

/-- Controls other than tab and newline, zero-width and bidirectional-override characters. -/
def isUnsafe (c : Char) : Bool :=
  let n := c.toNat
  decide (n ≤ 0x08 ∨ 0x0b ≤ n ∧ n ≤ 0x1f ∨ 0x7f ≤ n ∧ n ≤ 0x9f ∨ 0x200b ≤ n ∧ n ≤ 0x200f ∨
    0x202a ≤ n ∧ n ≤ 0x202e ∨ 0x2060 ≤ n ∧ n ≤ 0x2069 ∨ n = 0xfeff)

/-- Remove control, zero-width and bidi-override characters from provider text. -/
def stripUnsafeChars (text : String) : String :=
  String.ofList (text.toList.filter fun c => !isUnsafe c)

/-- The longest runs of characters with the property, in order. -/
def runs (p : Char → Bool) (text : String) : List String :=
  ((text.toList.splitOnP fun c => !p c).filter fun run => !run.isEmpty).map String.ofList

/-- `str.split()`. -/
def split (text : String) : List String := runs (fun c => !isSpace c) text

/-- `phrase in text`. -/
def occursIn (phrase text : String) : Bool := decide (phrase.toList <:+: text.toList)

/-- A text that is more than whitespace. -/
def NonBlank := { text : String // strip text ≠ "" }
deriving DecidableEq

/-- A number from 0 to 1. -/
def Share := { share : ℚ // 0 ≤ share ∧ share ≤ 1 }
deriving DecidableEq

/-- What a value that violates its contract is refused with. -/
inductive JobSearchContractError where
  /-- A text that must not be blank. -/
  | blank (message : String)
  /-- A field that is not from 0 to 1. -/
  | outOfRange (field : String)
  /-- A posting that a constraint rejects, with a score or a recommendation other than SKIP. -/
  | rejectedButScored
  | exceedsCap (score cap : ℚ)
  /-- A score above the weighted score. -/
  | raisedByConstraints
  /-- Cited evidence that is not on record. -/
  | unknownEvidence (ids : List String)
  /-- A scored posting without components. -/
  | noComponents
  /-- A match of another posting, or with another score. -/
  | anotherMatch
  /-- A check that is grounded and cites nothing. -/
  | groundedWithoutCitations
  /-- A node that ran before `load_search_profile`. -/
  | noSearchProfile
deriving DecidableEq, Repr

/-- A validator's answer to a text, with its words when it is blank. -/
def nonBlank (message text : String) : Except JobSearchContractError NonBlank :=
  if h : strip text ≠ "" then .ok ⟨text, h⟩ else .error (.blank message)

/-- A validator's answer to a number in a field. -/
def share (field : String) (number : ℚ) : Except JobSearchContractError Share :=
  if h : 0 ≤ number ∧ number ≤ 1 then .ok ⟨number, h⟩ else .error (.outOfRange field)

namespace TextTools

variable (tools : TextTools)

/-- Fold text to the form postings are compared in. -/
def canonicalText (text : String) : String :=
  String.intercalate " " (runs tools.isWord (tools.casefold (tools.nfkc (stripUnsafeChars text))))

/-- Legal-form suffixes dropped when comparing company names. -/
def companySuffixes : List String :=
  ["inc", "incorporated", "llc", "ltd", "limited", "corp", "corporation", "co", "gmbh", "plc"]

/-- The words, last first, without suffixes; the first word stays. -/
def dropSuffixes : List String → List String
  | last :: before :: words =>
      if companySuffixes.contains last then dropSuffixes (before :: words)
      else last :: before :: words
  | words => words

/-- `canonicalText` for a company name, minus trailing legal-form suffixes. -/
def canonicalCompany (name : String) : String :=
  String.intercalate " " (dropSuffixes (split (tools.canonicalText name)).reverse).reverse

/-- Stable SHA-256 of a JSON value. -/
def canonicalHash (payload : JsonText.Json) : String :=
  tools.sha256 (String.ofList (JsonText.text payload))

def jsonString (text : String) : JsonText.Json := .str (units (pyText text))

end TextTools

/-! ### Search profile -/

/-- Career level of a role, in ascending order. -/
inductive SeniorityLevel where
  | intern
  | junior
  | mid
  | senior
  | staff
  | principal
deriving DecidableEq, Repr

def SeniorityLevel.value : SeniorityLevel → String
  | .intern => "intern"
  | .junior => "junior"
  | .mid => "mid"
  | .senior => "senior"
  | .staff => "staff"
  | .principal => "principal"

/-- Position in the ladder, lowest first. -/
def SeniorityLevel.rank : SeniorityLevel → ℕ
  | .intern => 0
  | .junior => 1
  | .mid => 2
  | .senior => 3
  | .staff => 4
  | .principal => 5

/-- The kind of engagement a posting offers. -/
inductive EmploymentType where
  | fullTime
  | partTime
  | contract
  | internship
  | temporary
deriving DecidableEq, Repr

def EmploymentType.value : EmploymentType → String
  | .fullTime => "full_time"
  | .partTime => "part_time"
  | .contract => "contract"
  | .internship => "internship"
  | .temporary => "temporary"

/-- Where the candidate is willing to do the work. -/
inductive WorkMode where
  | remote
  | hybrid
  | onsite
deriving DecidableEq, Repr

/-- Hard cap on how many postings a single run may shortlist. -/
def maxShortlistSize : ℕ := 25

/-- Cap on postings carried forward from the provider fan-out. -/
def maxPostingsPerRun : ℕ := 500

/-- What the candidate is looking for. -/
structure SearchProfile where
  userId : UUID
  profileVersion : ℕ
  targetRoles : List String
  targetLocations : List String
  keywords : List String
  mustHaveSkills : List String
  excludedCompanies : List String
  /-- Empty when no preference was stated. -/
  seniorityLevels : List SeniorityLevel
  employmentTypes : List EmploymentType
  workModes : List WorkMode
  salaryMin : Option ℤ
  salaryMax : Option ℤ
  remoteOnly : Bool
  requiresVisaSponsorship : Bool
  constraints : List String
  minScore : Share
  maxShortlist : ℕ
  maxShortlist_pos : 1 ≤ maxShortlist
  maxShortlist_le : maxShortlist ≤ maxShortlistSize
  salaryMin_le_salaryMax : ∀ lower ∈ salaryMin, ∀ upper ∈ salaryMax, lower ≤ upper

/-! ### Postings -/

/-- One posting exactly as a provider returned it. -/
structure RawPosting (P : Type) where
  provider : NonBlank
  payload : P

/-- A provider that failed during fan-out. -/
structure ProviderFailure where
  provider : String
  error : String
deriving DecidableEq, Repr

/-- A posting in the one shape the rest of the pipeline understands. -/
structure NormalizedPosting (P : Type) where
  source : String
  sourceJobId : Option String
  title : NonBlank
  company : NonBlank
  location : Option String
  url : Option String
  description : String
  salaryMin : Option ℤ
  salaryMax : Option ℤ
  remote : Bool
  postedAt : Option Time
  skills : List String
  raw : P
deriving DecidableEq

/-- Room left for the readable part of a dedupe key. -/
def dedupePrefixLength : ℕ := 85

namespace NormalizedPosting

variable {P : Type} (tools : TextTools) (posting : NormalizedPosting P)

/-- Content hash of the posting text. -/
def descriptionHash : String :=
  tools.canonicalHash (TextTools.jsonString (tools.canonicalText posting.description))

/-- Content-derived identity: same company, same title, same text. -/
def dedupeKey : String :=
  let company := tools.canonicalCompany posting.company.val
  let title := tools.canonicalText posting.title.val
  let digest := tools.canonicalHash (.arr [TextTools.jsonString company, TextTools.jsonString title,
    TextTools.jsonString (posting.descriptionHash tools)])
  String.ofList ((company ++ "|" ++ title).toList.take dedupePrefixLength) ++ "|" ++ digest

end NormalizedPosting

end PersonalOS.Matching
