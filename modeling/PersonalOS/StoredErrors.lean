import PersonalOS.RetryRequests
import PersonalOS.StringLiterals
import PersonalOS.Texts
import Mathlib.Data.List.DropRight

/-! # Stored errors

`personalos.domain.errors` and `personalos.domain.failures`: the `repr()` that a checkpoint keeps of an
exception, and what `parse_stored_error` reads back from it.

* **Writing.** An error of the taxonomy names its code, its class and its own fields before the context
  id, and its message after it; any other exception has its arguments only.
* **Patterns.** The regular expressions of the module, each as a function: none of them can match in two
  ways at one place.
* **Reading.** Fields are read from what comes before the first context id, and the last of a name
  counts. -/

namespace PersonalOS.Failures

open StringLiterals

/-- What texts are written and read with. -/
structure ReprTools where
  tables : Tables
  /-- `\w` beyond ASCII. -/
  wordBeyond : Char → Bool
  word_not_space : ∀ c, wordBeyond c = true → isSpace c = false
  /-- `ast.literal_eval` of arguments, and `str` of each. -/
  literalArgs : List Char → Option (List (List Char))

/-- `\w`. -/
def ReprTools.isWord (tools : ReprTools) (c : Char) : Bool :=
  if c.toNat < 128 then c.isAlphanum || c == '_' else tools.wordBeyond c

/-! ### The taxonomy -/

inductive ErrorCode where
  | validation
  | notFound
  | policyDenied
  | approvalRequired
  | idempotencyConflict
  | conflict
  | toolFailure
  | retryable
  | internal
deriving DecidableEq, Repr

def ErrorCode.value : ErrorCode → List Char
  | .validation => "validation".toList
  | .notFound => "not_found".toList
  | .policyDenied => "policy_denied".toList
  | .approvalRequired => "approval_required".toList
  | .idempotencyConflict => "idempotency_conflict".toList
  | .conflict => "conflict".toList
  | .toolFailure => "tool_failure".toList
  | .retryable => "retryable".toList
  | .internal => "internal".toList

def classValue : FailureClass → List Char
  | .modelTransient => "model_transient".toList
  | .modelSemantic => "model_semantic".toList
  | .providerTransient => "provider_transient".toList
  | .providerPermanent => "provider_permanent".toList
  | .concurrency => "concurrency".toList
  | .partialSideEffect => "partial_side_effect".toList
  | .policyDenial => "policy_denial".toList
  | .humanTimeout => "human_timeout".toList
  | .unclassified => "unclassified".toList

def allClasses : List FailureClass :=
  [.modelTransient, .modelSemantic, .providerTransient, .providerPermanent, .concurrency,
    .partialSideEffect, .policyDenial, .humanTimeout, .unclassified]

/-- What an error has to say in its repr beside its code and class. -/
inductive ReprFields where
  | nothing
  /-- `ProviderPermanentFailure`. -/
  | provider (provider reason : List Char)
  /-- `PortNotConfigured`. -/
  | port (port : List Char)
deriving DecidableEq, Repr

/-- The name of a class. -/
structure TypeName (tools : ReprTools) where
  text : List Char
  nonempty : text ≠ []
  word : ∀ c ∈ text, tools.isWord c = true

/-- `PersonalOSError`. -/
structure TaxonomyError (tools : ReprTools) where
  typeName : TypeName tools
  code : ErrorCode
  failureClass : Option FailureClass
  reprFields : ReprFields
  contextId : UUID
  message : List Char

/-- Any other exception that was raised with texts. -/
structure OtherException (tools : ReprTools) where
  typeName : TypeName tools
  args : List (List Char)

/-! ### Writing -/

/-- The context id and the message are marked by these. -/
def contextMark : List Char := "context_id=".toList
def messageMark : List Char := "message=".toList

/-- `key=value`, each with its comma. -/
def rendered (tables : Tables) (fields : List (List Char × List Char)) : List Char :=
  fields.flatMap fun field => field.1 ++ '=' :: (literal tables field.2 ++ [',', ' '])

def ReprFields.fields : ReprFields → List (List Char × List Char)
  | .nothing => []
  | .provider name reason => [("provider".toList, name), ("reason".toList, reason)]
  | .port name => [("port".toList, name)]

namespace TaxonomyError

variable {tools : ReprTools} (error : TaxonomyError tools)

def classFields : List (List Char × List Char) :=
  match error.failureClass with
  | some failureClass => [("failure_class".toList, classValue failureClass)]
  | none => []

/-- The fields in the order they are written. -/
def fields : List (List Char × List Char) :=
  ("code".toList, error.code.value) :: (error.classFields ++ error.reprFields.fields)

def reprBody : List Char :=
  rendered tools.tables error.fields ++ (contextMark ++ ((UUID.text error.contextId).toList ++
    (',' :: ' ' :: (messageMark ++ literal tools.tables error.message))))

/-- `PersonalOSError.__repr__`. -/
def repr : List Char := error.typeName.text ++ '(' :: (error.reprBody ++ [')'])

end TaxonomyError

namespace OtherException

variable {tools : ReprTools} (error : OtherException tools)

def reprBody : List Char := [',', ' '].intercalate (error.args.map (literal tools.tables))

/-- `BaseException.__repr__`. -/
def repr : List Char := error.typeName.text ++ '(' :: (error.reprBody ++ [')'])

end OtherException

/-! ### Patterns -/

variable (tools : ReprTools)

/-- `_REPR`: the type and what is between the brackets. -/
def reprParts (text : List Char) : Option (List Char × List Char) :=
  match text.dropWhile isSpace with
  | [] => none
  | c :: rest =>
      if c.isAlpha ∨ c = '_' then
        let name := (c :: rest).takeWhile fun c => tools.isWord c || c == '.'
        match (c :: rest).drop name.length with
        | [] => none
        | d :: rest =>
            if d = '(' then
              match (rest.rdropWhile isSpace).getLast? with
              | some ')' => some (name, (rest.rdropWhile isSpace).dropLast)
              | _ => none
            else none
      else none

/-- `_CONTEXT_ID.split`: what comes before the first mark at the beginning of a word. -/
def headOf : Bool → List Char → Option (List Char)
  | _, [] => none
  | inWord, c :: text =>
      if !inWord && contextMark.isPrefixOf (c :: text) then some []
      else (headOf (tools.isWord c) text).map (c :: ·)

/-- A literal that begins here: its quotes, what is between them and what comes after them. -/
def quotedAt (multiline : Bool) : List Char → Option (Char × List Char × List Char)
  | [] => none
  | quote :: text =>
      if quote = '\'' ∨ quote = '"' then (close multiline quote text).map fun closed => (quote, closed)
      else none

theorem length_quotedAt {multiline : Bool} {text : List Char} {found : Char × List Char × List Char}
    (h : quotedAt multiline text = some found) : found.2.2.length < text.length := by
  unfold quotedAt at h
  split at h
  · cases h
  · split at h
    · obtain ⟨closed, hclosed, rfl⟩ := Option.map_eq_some_iff.mp h
      rw [eq_of_close hclosed]
      simp only [List.length_cons, List.length_append]
      omega
    · cases h

/-- A match of `_FIELD`. -/
structure Assignment where
  key : List Char
  quote : Char
  content : List Char
deriving DecidableEq, Repr

/-- `_FIELD.findall`, after a run of word characters. -/
def assignments (run : List Char) : List Char → List Assignment
  | [] => []
  | c :: text =>
      if tools.isWord c then assignments (run ++ [c]) text
      else if c = '=' ∧ run ≠ [] then
        match _hfound : quotedAt false text with
        | some found => ⟨run, found.1, found.2.1⟩ :: assignments [] found.2.2
        | none => assignments [] text
      else assignments [] text
termination_by text => text.length
decreasing_by
  · exact Nat.lt_succ_self _
  · exact (length_quotedAt _hfound).trans (Nat.lt_succ_self _)
  · exact Nat.lt_succ_self _
  · exact Nat.lt_succ_self _

/-- `_MESSAGE` from here: a literal that takes all of the rest. -/
def messageAt (text : List Char) : Option (Char × List Char) :=
  if messageMark.isPrefixOf text then
    match quotedAt true (text.drop messageMark.length) with
    | some found => if found.2.2.all isSpace then some (found.1, found.2.1) else none
    | none => none
  else none

/-- `_MESSAGE.search`. -/
def findMessage : List Char → Option (Char × List Char)
  | [] => none
  | c :: text =>
      match messageAt (c :: text) with
      | some found => some found
      | none => findMessage text

/-! ### Reading -/

/-- `str.strip` of both kinds of quotes. -/
def stripQuotes (text : List Char) : List Char :=
  (text.dropWhile fun c => c == '\'' || c == '"').rdropWhile fun c => c == '\'' || c == '"'

/-- `_literal`. -/
def literalValue (quote : Char) (content : List Char) : List Char :=
  (unescape tools.tables content).getD (stripQuotes (quote :: (content ++ [quote])))

def Assignment.value (found : Assignment) : List Char := literalValue tools found.quote found.content

/-- The last value of a name. -/
def lastOf (key : List Char) (found : List Assignment) : Option (List Char) :=
  (found.reverse.find? fun a => a.key == key).map (·.value tools)

/-- `_failure_class`. -/
def failureClassOf (value : List Char) : Option FailureClass :=
  allClasses.find? fun failureClass => classValue failureClass == value

structure StoredError where
  errorType : Option (List Char)
  failureClass : Option FailureClass
  code : Option (List Char)
  provider : Option (List Char)
  reason : Option (List Char)
  message : List Char
deriving DecidableEq, Repr

def parseStoredError (text : List Char) : StoredError :=
  match reprParts tools text with
  | none => ⟨none, none, none, none, none, text⟩
  | some (errorType, body) =>
      match headOf tools false body with
      | some head =>
          let found := assignments tools [] head
          { errorType := some errorType
            failureClass := (lastOf tools "failure_class".toList found).bind failureClassOf
            code := lastOf tools "code".toList found
            provider := lastOf tools "provider".toList found
            reason := lastOf tools "reason".toList found
            message :=
              match findMessage body with
              | some (quote, content) => literalValue tools quote content
              | none => body }
      | none =>
          let args := if (stripChars body).isEmpty then some [] else tools.literalArgs body
          { errorType := some errorType, failureClass := none, code := none, provider := none,
            reason := none, message := (args.map [';', ' '].intercalate).getD body }

/-! ### Classification -/

/-- A stored error with no class of its own, by its code. -/
def classByCode : List (List Char × FailureClass) :=
  [(ErrorCode.policyDenied.value, .policyDenial), (ErrorCode.approvalRequired.value, .policyDenial),
    (ErrorCode.conflict.value, .concurrency), (ErrorCode.idempotencyConflict.value, .concurrency),
    (ErrorCode.toolFailure.value, .providerTransient), (ErrorCode.retryable.value, .providerTransient)]

/-- Builtin exceptions that mean a network call did not complete. -/
def transientBuiltins : List String :=
  ["TimeoutError", "ConnectionError", "ConnectionResetError", "ConnectionRefusedError",
    "ConnectionAbortedError", "BrokenPipeError"]

/-- `rsplit(".", 1)[-1]`. -/
def lastPart (name : List Char) : List Char := name.rtakeWhile (· != '.')

/-- By the name of its type alone. -/
def classByType (errorType : Option (List Char)) : FailureClass :=
  if errorType.any fun name => transientBuiltins.any (·.toList == lastPart name) then .providerTransient
  else .unclassified

def classify (error : StoredError) : FailureClass :=
  match error.failureClass with
  | some failureClass => failureClass
  | none => (error.code.bind fun code => List.lookup code classByCode).getD (classByType error.errorType)

end PersonalOS.Failures
