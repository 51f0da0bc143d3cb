import PersonalOS.HybridMatcher
import PersonalOS.RecruiterEvents
import PersonalOS.Identifiers
import Mathlib.Data.List.DropRight
import Mathlib.Data.List.Sort
import Mathlib.Data.String.Basic

/-! # Which application a message is about

`correlate_application` of `personalos.domain.recruiter_events`: a decision from identifiers alone.

* **Signals.** `carries` says for each identifier whether a message has it in common with an
  application; a candidate is scored with the signals that it carries.
* **Confidence.** Signals are combined as independent evidence and rounded to four places; numbers are
  rational.
* **Decision.** The scored candidates are ranked by confidence, then by id; the first is matched if it
  reaches the threshold and leads the second by the margin. -/

namespace PersonalOS

/-- What messages are read with. -/
structure MessageTools extends Matching.TextTools where
  /-- A character is a letter up to its case, as `re.IGNORECASE` compares them. -/
  sameLetter : Char → Char → Bool

/-- How far the best candidate has to lead the runner-up. -/
def correlationAmbiguityMargin : ℚ := 1 / 10

/-- What is on file about one application that a message could be matched on. -/
structure ApplicationCandidate where
  applicationId : UUID
  company : String
  title : String
  reference : Option String
  threadIds : List String
  contactAddresses : List String
deriving DecidableEq, Repr

/-- `SIGNAL_WEIGHTS`; what a reviewer confirms is not combined. -/
def signalWeight : CorrelationSignal → ℚ
  | .reviewerConfirmed => 0
  | .thread => 95 / 100
  | .reference => 9 / 10
  | .knownSender => 6 / 10
  | .senderDomain => 5 / 10
  | .companyName => 35 / 100
  | .title => 3 / 10

/-- A requisition id shorter than this matches too much text by accident. -/
def minReferenceChars : ℕ := 5

/-! ### Signals -/

/-- Whole-word containment over canonical texts. -/
def containsPhrase (haystack phrase : String) : Bool :=
  phrase != "" && Matching.occursIn (" " ++ phrase ++ " ") (" " ++ haystack ++ " ")

namespace MessageTools

variable (tools : MessageTools)

/-- The text begins with these characters, up to case. -/
def beginsWith : List Char → List Char → Bool
  | [], _ => true
  | _ :: _, [] => false
  | l :: letters, c :: text => tools.sameLetter c l && beginsWith letters text

/-- The reference stands in the text, with no letter or digit beside it; `inWord` is about the character
before. -/
def quotedFrom (reference : List Char) : Bool → List Char → Bool
  | _, [] => false
  | inWord, c :: text =>
      !inWord && tools.beginsWith reference (c :: text) &&
          !((c :: text).drop reference.length).head?.any isAlnumAnyCase ||
        quotedFrom reference (isAlnumAnyCase c) text

/-- The labels of the domain of a sender's address. -/
def senderDomainLabels (address : String) : List String :=
  if '@' ∈ address.toList then
    let domain := tools.lower (String.ofList (address.toList.rtakeWhile (· != '@')))
    ((domain.toList.splitOn '.').filter fun label => !label.isEmpty).map String.ofList
  else []

/-- The sender's address as it is compared. -/
def sender (message : RecruiterMessage) : String := tools.lower (strip (message.fromAddress.getD ""))

/-- The message as it is searched for names. -/
def messageText (message : RecruiterMessage) : String :=
  tools.canonicalText (message.subject.getD "" ++ " " ++ message.body)

/-- The message has the identifier in common with the application. -/
def carries (message : RecruiterMessage) (candidate : ApplicationCandidate) : CorrelationSignal → Bool
  | .reviewerConfirmed => false
  | .thread => message.threadId.any fun thread => thread != "" && candidate.threadIds.contains thread
  | .reference =>
      let reference := strip (candidate.reference.getD "")
      decide (minReferenceChars ≤ reference.length) &&
        tools.quotedFrom reference.toList false (message.subject.getD "" ++ "\n" ++ message.body).toList
  | .knownSender => tools.sender message != "" &&
      (candidate.contactAddresses.map tools.lower).contains (tools.sender message)
  | .senderDomain =>
      let company := tools.canonicalCompany candidate.company
      company != "" && (tools.senderDomainLabels (tools.sender message)).contains
        (String.ofList (company.toList.filter (· != ' ')))
  | .companyName => containsPhrase (tools.messageText message) (tools.canonicalCompany candidate.company)
  | .title => containsPhrase (tools.messageText message) (tools.canonicalText candidate.title)

/-- The signals in the order in which they are looked for. -/
def signalOrder : List CorrelationSignal :=
  [.thread, .reference, .knownSender, .senderDomain, .companyName, .title]

/-- `_signals_for`. -/
def signalsFor (message : RecruiterMessage) (candidate : ApplicationCandidate) : List CorrelationSignal :=
  signalOrder.filter (tools.carries message candidate)

end MessageTools

/-- `_combined`. -/
def combined (signals : List CorrelationSignal) : ℚ :=
  Matching.round4 (1 - signals.foldl (fun miss signal => miss * (1 - signalWeight signal)) 1)

/-! ### The decision -/

section decision

variable (tools : MessageTools) (message : RecruiterMessage)

/-- A candidate with the signals it carries, if it carries any. -/
def scored (candidate : ApplicationCandidate) : Option CorrelationCandidate :=
  let signals := tools.signalsFor message candidate
  if signals = [] then none else some ⟨candidate.applicationId, combined signals, signals⟩

/-- Best first; ties are broken by the printed id. -/
def RanksBefore (a b : CorrelationCandidate) : Prop :=
  b.confidence < a.confidence ∨
    a.confidence = b.confidence ∧ UUID.text a.applicationId ≤ UUID.text b.applicationId

instance : DecidableRel RanksBefore := fun a b =>
  inferInstanceAs (Decidable (b.confidence < a.confidence ∨
    a.confidence = b.confidence ∧ UUID.text a.applicationId ≤ UUID.text b.applicationId))

/-- The scored candidates, best first. -/
def ranked (candidates : List ApplicationCandidate) : List CorrelationCandidate :=
  (candidates.filterMap (scored tools message)).insertionSort RanksBefore

namespace ApplicationCorrelation

/-- A link to an application. -/
def ofMatch (applicationId : UUID) (confidence : ℚ) (signals : List CorrelationSignal) (threshold : ℚ) :
    ApplicationCorrelation :=
  ⟨.matched, some applicationId, confidence, signals, threshold, [], iff_of_true rfl rfl⟩

/-- The best guesses, for a reviewer. -/
def ofReview (best : CorrelationCandidate) (threshold : ℚ) (candidates : List CorrelationCandidate) :
    ApplicationCorrelation :=
  ⟨.needsReview, none, best.confidence, best.signals, threshold, candidates,
    iff_of_false (by decide) (by decide)⟩

def unmatched (threshold : ℚ) : ApplicationCorrelation :=
  ⟨.unmatched, none, 0, [], threshold, [], iff_of_false (by decide) (by decide)⟩

end ApplicationCorrelation

/-- What the best candidate has to lead. -/
def runnerUp (rest : List CorrelationCandidate) : ℚ := (rest.head?.map (·.confidence)).getD 0

/-- The decision on ranked candidates. -/
def decideCorrelation (threshold : ℚ) : List CorrelationCandidate → ApplicationCorrelation
  | [] => .unmatched threshold
  | best :: rest =>
      if threshold ≤ best.confidence ∧ correlationAmbiguityMargin ≤ best.confidence - runnerUp rest then
        .ofMatch best.applicationId best.confidence best.signals threshold
      else .ofReview best threshold ((best :: rest).take 3)

/-- Decide which application a message is about; `confirmed` is a reviewer's answer. -/
def correlateApplication (candidates : List ApplicationCandidate) (threshold : ℚ)
    (confirmed : Option UUID) : Except RecruiterError ApplicationCorrelation :=
  match confirmed with
  | some id =>
      if id ∈ candidates.map ApplicationCandidate.applicationId then
        .ok (.ofMatch id 1 [.reviewerConfirmed] threshold)
      else .error (.contract (s!"application {UUID.text id} was confirmed for message " ++
        s!"{message.providerMessageId} but is not one of this user's applications"))
  | none => .ok (decideCorrelation threshold (ranked tools message candidates))

end decision

end PersonalOS
