import PersonalOS.ToolExecutor
import Mathlib.Data.List.Dedup
import Mathlib.Data.List.Sort
import Mathlib.Data.String.Basic

/-! # The policy engine

`PolicyEngine.authorize`: an intent, proposed by anybody, either becomes an `ApprovedIntent`
or the call fails.

* **Rules.** A rule is an arbitrary function from intents to an optional decision; nothing
  keeps it from answering with a decision about another intent.
* **Configuration.** The default decision, the tool permissions and the class outcomes are
  arbitrary as well; an override of a class outcome replaces the default one.
* **Surroundings.** The decision log answers with the id of the row it wrote, or raises; the
  audit sink may raise.  A call returns the rows the log took and what the caller gets.
* **Approvals.** An `ApprovedIntent` carries the proof of what `mint_approved_intent` checks,
  so none can be built that a denial or a foreign decision stands behind.

The moments a decision and an approval were made, and the log lines, are left out: nothing
reads them. -/

namespace PersonalOS

def Decision.value : Decision → String
  | allow => "allow"
  | requireApproval => "require_approval"
  | deny => "deny"

def PermissionClass.value : PermissionClass → String
  | readLocal => "read_local"
  | readExternal => "read_external"
  | writeReversible => "write_reversible"
  | writeExternal => "write_external"
  | destructive => "destructive"
  | sensitive => "sensitive"

namespace Policy

/-! ### Intents -/

inductive IntentOrigin where
  | system
  | user
  | llm
deriving DecidableEq, Repr

def IntentOrigin.value : IntentOrigin → String
  | system => "system"
  | user => "user"
  | llm => "llm"

/-- What the code computes from the arguments of a tool call. -/
class ToolArguments (A : Type) where
  /-- `fingerprint_intent` of the server, the tool and the arguments. -/
  fingerprintIntent : String → String → A → String

instance : ToolArguments PlainPayload where
  fingerprintIntent server tool _ := server ++ "." ++ tool

/-- A proposed tool call. -/
structure ToolIntent (A : Type) where
  intentId : UUID
  server : String
  tool : String
  arguments : A
  origin : IntentOrigin
  mutating : Bool
  requestedBy : String
  actorId : String
  workflowId : Option UUID
deriving DecidableEq, Repr

/-- The verdict on one intent. -/
structure PolicyDecision where
  intentId : UUID
  toolRef : String
  decision : Decision
  rule : String
  reason : String
  recordId : Option UUID
deriving DecidableEq, Repr

/-- Evidence that a human approved one specific intent. -/
structure ApprovalGrant where
  intentId : UUID
  intentFingerprint : String
  approvedBy : String
  note : Option String
deriving DecidableEq, Repr

/-- What `authorize` raises. -/
inductive PolicyFailure where
  | policyDenied (decision : PolicyDecision)
  | approvalRequired (decision : PolicyDecision)
  | policyViolation (message : String)
  | invalidApproval (message : String)
  /-- The decision log or the audit sink raised. -/
  | notRecorded (message : String)
deriving DecidableEq, Repr

section intents

variable {A : Type}

def ToolIntent.toolRef (intent : ToolIntent A) : String := s!"{intent.server}.{intent.tool}"

/-- The intent says who asked for it. -/
def ToolIntent.attributed (intent : ToolIntent A) : Bool :=
  intent.requestedBy != "" && intent.requestedBy != "unknown"

variable [ToolArguments A]

def ToolIntent.fingerprint (intent : ToolIntent A) : String :=
  ToolArguments.fingerprintIntent intent.server intent.tool intent.arguments

/-- The grant was issued for exactly this intent. -/
def ApprovalGrant.matches (grant : ApprovalGrant) (intent : ToolIntent A) : Bool :=
  grant.intentId == intent.intentId && grant.intentFingerprint == intent.fingerprint

/-- What is wrong with the grant supplied for a decision, if anything. -/
def grantFault (intent : ToolIntent A) (decision : PolicyDecision)
    (approval : Option ApprovalGrant) : Option String :=
  if decision.decision = .requireApproval then
    match approval with
    | none => some "decision requires an approval grant, none supplied"
    | some grant =>
        if grant.matches intent then none else some "approval grant does not match this intent"
  else none

theorem grantFault_eq_none {intent : ToolIntent A} {decision : PolicyDecision}
    {approval : Option ApprovalGrant} :
    grantFault intent decision approval = none ↔
      (decision.decision = .requireApproval →
        ∃ grant, approval = some grant ∧ grant.matches intent = true) := by
  unfold grantFault
  split
  · cases approval <;> simp_all
  · simp_all

/-- A cleared intent. -/
structure ApprovedIntent (A : Type) [ToolArguments A] where
  intent : ToolIntent A
  decision : PolicyDecision
  approval : Option ApprovalGrant
  own_decision : decision.intentId = intent.intentId
  not_denied : decision.decision ≠ .deny
  granted : grantFault intent decision approval = none

/-- Mint an approval, re-checking the decision and the grant. -/
def mintApprovedIntent (intent : ToolIntent A) (decision : PolicyDecision)
    (approval : Option ApprovalGrant) : Except PolicyFailure (ApprovedIntent A) :=
  if own : decision.intentId = intent.intentId then
    if denied : decision.decision = .deny then
      .error (.policyViolation s!"cannot approve a denied intent: {decision.reason}")
    else
      match fault : grantFault intent decision approval with
      | some message => .error (.invalidApproval message)
      | none => .ok ⟨intent, decision, approval, own, denied, fault⟩
  else
    .error (.invalidApproval
      s!"decision {decision.intentId} does not belong to intent {intent.intentId}")

theorem mintApprovedIntent_ok {intent : ToolIntent A} {decision : PolicyDecision}
    {approval : Option ApprovalGrant} {approved : ApprovedIntent A}
    (h : mintApprovedIntent intent decision approval = .ok approved) :
    approved.intent = intent ∧ approved.decision = decision ∧ approved.approval = approval := by
  unfold mintApprovedIntent at h
  split at h
  · split at h
    · cases h
    · split at h
      · cases h
      · obtain rfl := Except.ok.inj h
        exact ⟨rfl, rfl, rfl⟩
  · cases h

end intents

/-! ### Permission classes -/

/-- The classes that change something. -/
def writeClasses : List PermissionClass := [.writeReversible, .writeExternal, .destructive, .sensitive]

def defaultClassOutcomes : PermissionClass → Decision
  | .readLocal => .allow
  | .readExternal => .allow
  | .writeReversible => .allow
  | .writeExternal => .requireApproval
  | .destructive => .requireApproval
  | .sensitive => .deny

def strictness : Decision → ℕ
  | .allow => 0
  | .requireApproval => 1
  | .deny => 2

/-- The more restrictive of two decisions. -/
def strictest (first second : Decision) : Decision :=
  if strictness second ≤ strictness first then first else second

theorem strictness_injective : Function.Injective strictness := by
  intro first second h
  cases first <;> cases second <;> first | rfl | exact absurd h (by decide)

theorem strictness_strictest (first second : Decision) :
    strictness (strictest first second) = max (strictness first) (strictness second) := by
  unfold strictest
  split
  · rename_i h
    rw [max_eq_left h]
  · rename_i h
    rw [max_eq_right (by omega)]

/-- The class of a tool and the scopes it may be granted, a set. -/
structure ToolPermission where
  permissionClass : PermissionClass
  scopes : List String
deriving DecidableEq, Repr

/-- `sorted(set(scopes))`. -/
def sortedScopes (scopes : List String) : List String :=
  scopes.dedup.mergeSort fun a b => decide (a ≤ b)

theorem mem_sortedScopes {scope : String} {scopes : List String} :
    scope ∈ sortedScopes scopes ↔ scope ∈ scopes := by
  simp [sortedScopes]

/-- How a list of scope names, which need no escapes, is printed. -/
def printScopes (scopes : List String) : String :=
  "[" ++ ", ".intercalate (scopes.map fun scope => "'" ++ scope ++ "'") ++ "]"

/-! ### The engine -/

/-- A row of the decision log. -/
structure DecisionRow where
  principal : String
  workflowId : Option UUID
  tool : String
  argsHash : String
  decision : String
  requestedScopes : List String
deriving DecidableEq, Repr

abbrev PolicyRule (A : Type) := ToolIntent A → Option PolicyDecision

structure PolicyEngine (A : Type) where
  rules : List (PolicyRule A)
  defaultDecision : Decision
  decisionSink : Option (ToolIntent A → PolicyDecision → Except PolicyFailure Unit)
  decisionLog : Option (DecisionRow → Except PolicyFailure (Option UUID))
  toolPermissions : String → Option ToolPermission
  /-- The configured outcomes; a class with none keeps its default. -/
  classOverrides : PermissionClass → Option Decision

namespace PolicyEngine

variable {A : Type} (engine : PolicyEngine A)

def classOutcomes (permissionClass : PermissionClass) : Decision :=
  (engine.classOverrides permissionClass).getD (defaultClassOutcomes permissionClass)

/-- The scopes a tool is classified as consuming. -/
def declaredScopes (tool : String) : List String :=
  (engine.toolPermissions tool).elim [] fun permission => sortedScopes permission.scopes

/-- The verdict of a tool's permission class, with the rule and the reason. -/
def classify (tool : String) (requestedScopes : List String) (origin : IntentOrigin)
    (attributed : Bool) : Decision × String × String :=
  if attributed then
    match engine.toolPermissions tool with
    | none => (.deny, "permission_class",
        s!"tool '{tool}' has no permission class; unclassified tools are denied")
    | some permission =>
        let excess := sortedScopes (requestedScopes.filter (· ∉ permission.scopes))
        if excess ≠ [] then
          (.deny, "requested_scopes", s!"tool '{tool}' may not be granted scopes {printScopes excess}")
        else if permission.permissionClass = .sensitive ∧ origin = .llm then
          (.deny, "permission_class",
            s!"'{tool}' is {permission.permissionClass.value}; never delegated to the LLM")
        else
          let decision := engine.classOutcomes permission.permissionClass
          let reason := s!"'{tool}' is {permission.permissionClass.value}"
          if origin = .llm ∧ permission.permissionClass ∈ writeClasses then
            (strictest decision .requireApproval, "permission_class",
              reason ++ s!", proposed by untrusted origin '{origin.value}'")
          else (decision, "permission_class", reason)
  else (.deny, "require_provenance", "action has no requested_by provenance")

/-- The rule loop, with the first escalation and the first approval met so far. -/
def scanRules (intent : ToolIntent A) :
    List (PolicyRule A) → Option PolicyDecision → Option PolicyDecision → Option PolicyDecision
  | [], escalation, approval => escalation.or approval
  | rule :: rules, escalation, approval =>
      match rule intent with
      | none => scanRules intent rules escalation approval
      | some decision =>
          match decision.decision with
          | .deny => some decision
          | .requireApproval => scanRules intent rules (escalation.or (some decision)) approval
          | .allow => scanRules intent rules escalation (approval.or (some decision))

/-- Run the rule chain. -/
def evaluateRules (intent : ToolIntent A) : PolicyDecision :=
  (scanRules intent engine.rules none none).getD
    { intentId := intent.intentId, toolRef := intent.toolRef, decision := engine.defaultDecision,
      rule := "default",
      reason := s!"no rule allowed '{intent.toolRef}'; default is {engine.defaultDecision.value}",
      recordId := none }

/-- The class verdict on an intent. -/
def classVerdict (intent : ToolIntent A) : Decision × String × String :=
  engine.classify intent.toolRef (engine.declaredScopes intent.toolRef) intent.origin
    intent.attributed

/-- The rule chain's decision, unless the class verdict is stricter. -/
def verdict (intent : ToolIntent A) : PolicyDecision :=
  let decision := engine.evaluateRules intent
  let (classDecision, classRule, classReason) := engine.classVerdict intent
  if strictest decision.decision classDecision ≠ decision.decision then
    { intentId := intent.intentId, toolRef := intent.toolRef, decision := classDecision,
      rule := classRule, reason := classReason, recordId := none }
  else decision

variable [ToolArguments A]

/-- The row the decision log is given for a decision on an intent. -/
def decisionRow (intent : ToolIntent A) (decision : PolicyDecision) : DecisionRow where
  principal := intent.actorId
  workflowId := intent.workflowId
  tool := intent.toolRef
  argsHash := intent.fingerprint
  decision := decision.decision.value
  requestedScopes := engine.declaredScopes intent.toolRef

/-- Hand the decision to the audit sink and on to the caller. -/
def audit (intent : ToolIntent A) (decision : PolicyDecision) : Except PolicyFailure PolicyDecision :=
  match engine.decisionSink with
  | none => .ok decision
  | some sink => (sink intent decision).map fun _ => decision

/-- Write the decision to the log, then audit it: the rows written, and the decision with the
id of its row. -/
def record (intent : ToolIntent A) (decision : PolicyDecision) :
    List DecisionRow × Except PolicyFailure PolicyDecision :=
  let row := engine.decisionRow intent decision
  match engine.decisionLog with
  | none => ([], engine.audit intent { decision with recordId := none })
  | some log =>
      match log row with
      | .error failure => ([], .error failure)
      | .ok recordId => ([row], engine.audit intent { decision with recordId })

/-- Reach a verdict on an intent without acting on it. -/
def evaluateIntent (intent : ToolIntent A) : List DecisionRow × Except PolicyFailure PolicyDecision :=
  engine.record intent (engine.verdict intent)

/-- Clear an intent for execution: the rows written, and the approval or the failure. -/
def authorize (intent : ToolIntent A) (approval : Option ApprovalGrant) :
    List DecisionRow × Except PolicyFailure (ApprovedIntent A) :=
  match engine.evaluateIntent intent with
  | (rows, .error failure) => (rows, .error failure)
  | (rows, .ok decision) =>
      if decision.decision = .deny then (rows, .error (.policyDenied decision))
      else if decision.decision = .requireApproval ∧ approval.any (·.matches intent) = false then
        (rows, .error (.approvalRequired decision))
      else (rows, mintApprovedIntent intent decision approval)

/-! ### What an approval stands for -/

section cleared

omit [ToolArguments A] in
theorem scanRules_deny {intent : ToolIntent A} {rules : List (PolicyRule A)} {rule : PolicyRule A}
    {decision : PolicyDecision} (hrule : rule ∈ rules) (hdecision : rule intent = some decision)
    (hdeny : decision.decision = .deny) (escalation approval : Option PolicyDecision) :
    ∃ verdict, scanRules intent rules escalation approval = some verdict ∧
      verdict.decision = .deny := by
  induction rules generalizing escalation approval with
  | nil => cases hrule
  | cons first rules ih =>
      cases hfirst : first intent with
      | none =>
          rw [scanRules, hfirst]
          have hmem : rule ∈ rules := by
            rcases List.mem_cons.mp hrule with rfl | hmem
            · rw [hfirst] at hdecision
              cases hdecision
            · exact hmem
          exact ih hmem escalation approval
      | some opinion =>
          -- Only a denial stops the loop, so a rule behind another opinion is still asked.
          have hbehind : opinion.decision ≠ .deny → rule ∈ rules := by
            intro hne
            rcases List.mem_cons.mp hrule with rfl | hmem
            · rw [hfirst] at hdecision
              obtain rfl := Option.some.inj hdecision
              exact absurd hdeny hne
            · exact hmem
          rw [scanRules, hfirst]
          dsimp only
          cases hop : opinion.decision with
          | deny => exact ⟨opinion, rfl, hop⟩
          | requireApproval => exact ih (hbehind (by rw [hop]; decide)) _ approval
          | allow => exact ih (hbehind (by rw [hop]; decide)) escalation _

omit [ToolArguments A] in
theorem evaluateRules_not_deny {engine : PolicyEngine A} {intent : ToolIntent A}
    (h : (engine.evaluateRules intent).decision ≠ .deny) :
    ∀ rule ∈ engine.rules, ∀ decision, rule intent = some decision → decision.decision ≠ .deny := by
  intro rule hrule decision hdecision hdeny
  obtain ⟨verdict, hscan, hverdict⟩ := scanRules_deny hrule hdecision hdeny none none
  apply h
  rw [evaluateRules, hscan]
  exact hverdict

omit [ToolArguments A] in
theorem strictness_verdict (engine : PolicyEngine A) (intent : ToolIntent A) :
    strictness (engine.verdict intent).decision =
      max (strictness (engine.evaluateRules intent).decision)
        (strictness (engine.classVerdict intent).1) := by
  rw [← strictness_strictest]
  simp only [verdict]
  split
  · rename_i h
    unfold strictest at h ⊢
    split
    · rename_i hle
      rw [if_pos hle] at h
      exact absurd rfl h
    · rfl
  · rename_i h
    rw [not_not.mp h]

omit [ToolArguments A] in
/-- A class verdict that is not a denial: the intent is attributed, its tool is classified, and
a model gets neither a sensitive tool nor an unattended write. -/
theorem classVerdict_not_deny {engine : PolicyEngine A} {intent : ToolIntent A}
    (h : (engine.classVerdict intent).1 ≠ .deny) :
    intent.attributed = true ∧ ∃ permission,
      engine.toolPermissions intent.toolRef = some permission ∧
      (intent.origin = .llm → permission.permissionClass ≠ .sensitive ∧
        (permission.permissionClass ∈ writeClasses →
          (engine.classVerdict intent).1 = .requireApproval)) := by
  simp only [classVerdict, classify] at h ⊢
  split at h
  · rename_i hattributed
    refine ⟨hattributed, ?_⟩
    rw [if_pos hattributed]
    cases hpermission : engine.toolPermissions intent.toolRef with
    | none =>
        rw [hpermission] at h
        exact absurd rfl h
    | some permission =>
        refine ⟨permission, rfl, fun hllm => ?_⟩
        simp only [hpermission] at h
        split at h
        · exact absurd rfl h
        rename_i hexcess
        split at h
        · exact absurd rfl h
        rename_i hsensitive
        refine ⟨fun hclass => hsensitive ⟨hclass, hllm⟩, fun hwrite => ?_⟩
        simp only [if_neg hexcess, if_neg hsensitive, if_pos (And.intro hllm hwrite)] at h ⊢
        revert h
        cases engine.classOutcomes permission.permissionClass <;> decide
  · exact absurd rfl h

omit [ToolArguments A] in
theorem audit_ok {engine : PolicyEngine A} {intent : ToolIntent A} {decision audited : PolicyDecision}
    (h : engine.audit intent decision = .ok audited) : audited = decision := by
  unfold audit at h
  split at h
  · exact (Except.ok.inj h).symm
  · rename_i sink _
    cases hs : sink intent decision with
    | error failure =>
        rw [hs] at h
        cases h
    | ok u =>
        rw [hs] at h
        exact (Except.ok.inj h).symm

theorem record_ok {engine : PolicyEngine A} {intent : ToolIntent A} {decision recorded : PolicyDecision}
    {rows : List DecisionRow} (h : engine.record intent decision = (rows, .ok recorded)) :
    recorded = { decision with recordId := recorded.recordId } ∧
      (engine.decisionLog = none → rows = []) ∧
      ∀ log, engine.decisionLog = some log →
        rows = [engine.decisionRow intent decision] ∧
          log (engine.decisionRow intent decision) = .ok recorded.recordId := by
  unfold record at h
  cases hlog : engine.decisionLog with
  | none =>
      simp only [hlog, Prod.mk.injEq] at h
      obtain rfl := audit_ok h.2
      refine ⟨rfl, fun _ => h.1.symm, ?_⟩
      intro log hsome
      cases hsome
  | some log =>
      simp only [hlog] at h
      cases hrow : log (engine.decisionRow intent decision) with
      | error failure =>
          rw [hrow] at h
          cases (Prod.mk.inj h).2
      | ok recordId =>
          simp only [hrow, Prod.mk.injEq] at h
          obtain rfl := audit_ok h.2
          refine ⟨rfl, fun hnone => absurd hnone (Option.some_ne_none log), ?_⟩
          intro log' hsome
          obtain rfl := Option.some.inj hsome
          exact ⟨h.1.symm, hrow⟩

theorem authorize_ok {engine : PolicyEngine A} {intent : ToolIntent A}
    {approval : Option ApprovalGrant} {approved : ApprovedIntent A} {rows : List DecisionRow}
    (h : engine.authorize intent approval = (rows, .ok approved)) :
    engine.record intent (engine.verdict intent) = (rows, .ok approved.decision) ∧
      approved.intent = intent ∧ approved.approval = approval := by
  unfold authorize at h
  split at h
  · cases (Prod.mk.inj h).2
  · rename_i rows' decision hevaluated
    split at h
    · cases (Prod.mk.inj h).2
    split at h
    · cases (Prod.mk.inj h).2
    · obtain ⟨rfl, hmint⟩ := Prod.mk.inj h
      obtain ⟨hintent, hdecision, happroval⟩ := mintApprovedIntent_ok hmint
      rw [hdecision]
      exact ⟨hevaluated, hintent, happroval⟩

/-- **Nothing is cleared past the policy**: whatever the rules and the configuration, an
approval is for an attributed intent of a classified tool that no rule denies, under the
stricter of the chain's and the class's verdict, which is not a denial and is the one written
to the log; and a model gets no sensitive tool, and a write only with a grant for it. -/
theorem authorize_cleared {engine : PolicyEngine A} {intent : ToolIntent A}
    {approval : Option ApprovalGrant} {approved : ApprovedIntent A} {rows : List DecisionRow}
    (h : engine.authorize intent approval = (rows, .ok approved)) :
    approved.intent = intent ∧ approved.approval = approval ∧ intent.attributed = true ∧
      (∀ rule ∈ engine.rules, ∀ decision, rule intent = some decision → decision.decision ≠ .deny) ∧
      (approved.decision.intentId = intent.intentId ∧ approved.decision.decision ≠ .deny ∧
        strictness approved.decision.decision =
          max (strictness (engine.evaluateRules intent).decision)
            (strictness (engine.classVerdict intent).1)) ∧
      (∀ log, engine.decisionLog = some log → ∃ row, rows = [row] ∧
        row.decision = approved.decision.decision.value ∧ row.tool = intent.toolRef ∧
          row.argsHash = intent.fingerprint ∧ log row = .ok approved.decision.recordId) ∧
      ∃ permission, engine.toolPermissions intent.toolRef = some permission ∧
        (intent.origin = .llm → permission.permissionClass ≠ .sensitive ∧
          (permission.permissionClass ∈ writeClasses → ∃ grant, approval = some grant ∧
            grant.intentId = intent.intentId ∧ grant.intentFingerprint = intent.fingerprint)) := by
  obtain ⟨hrecord, hintent, happroval⟩ := authorize_ok h
  obtain ⟨hdecision, -, hlog⟩ := record_ok hrecord
  have hvalue : approved.decision.decision = (engine.verdict intent).decision := by
    rw [hdecision]
  have hstrict := strictness_verdict engine intent
  have hdenied : strictness (engine.verdict intent).decision ≠ strictness .deny := by
    rw [← hvalue]
    exact fun heq => approved.not_denied (strictness_injective heq)
  -- A denial of either side would be the stricter one.
  have hchain : (engine.evaluateRules intent).decision ≠ .deny := by
    intro hdeny
    apply hdenied
    rw [hstrict, hdeny]
    cases (engine.classVerdict intent).1 <;> rfl
  have hclass : (engine.classVerdict intent).1 ≠ .deny := by
    intro hdeny
    apply hdenied
    rw [hstrict, hdeny]
    cases (engine.evaluateRules intent).decision <;> rfl
  obtain ⟨hattributed, permission, hpermission, hllm⟩ := classVerdict_not_deny hclass
  refine ⟨hintent, happroval, hattributed, evaluateRules_not_deny hchain,
    ⟨hintent ▸ approved.own_decision, approved.not_denied, hvalue ▸ hstrict⟩, ?_, permission,
    hpermission, fun horigin => ⟨(hllm horigin).1, fun hwrite => ?_⟩⟩
  · intro log hsome
    obtain ⟨hrows, hrow⟩ := hlog log hsome
    exact ⟨_, hrows, by rw [hvalue]; rfl, rfl, rfl, hrow⟩
  · have hrequired := (hllm horigin).2 hwrite
    have happrove : approved.decision.decision = .requireApproval := by
      have hnot := approved.not_denied
      have hmax : strictness approved.decision.decision =
          max (strictness (engine.evaluateRules intent).decision)
            (strictness (engine.classVerdict intent).1) := hvalue ▸ hstrict
      rw [hrequired] at hmax
      revert hnot hmax
      cases approved.decision.decision <;> cases (engine.evaluateRules intent).decision <;> decide
    obtain ⟨grant, hgrant, hmatches⟩ := grantFault_eq_none.mp approved.granted happrove
    simp only [ApprovalGrant.matches, Bool.and_eq_true, beq_iff_eq] at hmatches
    rw [hintent] at hmatches
    exact ⟨grant, happroval ▸ hgrant, hmatches⟩

end cleared

end PolicyEngine

/-- An engine that allows everything it has classified, and logs under the row id 7. -/
def permissiveEngine : PolicyEngine PlainPayload where
  rules := [fun intent => some
    ⟨intent.intentId, intent.toolRef, .allow, "allow_all", "everything goes", none⟩]
  defaultDecision := .allow
  decisionSink := none
  decisionLog := some fun _ => .ok (some 7)
  toolPermissions tool :=
    if tool = "jobs.submit_application" then some ⟨.writeExternal, ["applications:submit"]⟩ else none
  classOverrides _ := some .allow

/-- A submission a model proposes. -/
def modelSubmission : ToolIntent PlainPayload where
  intentId := 1
  server := "jobs"
  tool := "submit_application"
  arguments := .empty
  origin := .llm
  mutating := true
  requestedBy := "agent:writer"
  actorId := "agent:writer"
  workflowId := none

def submissionGrant : ApprovalGrant := ⟨1, "jobs.submit_application", "reviewer", none⟩

theorem authorize_cleared_modelSubmission :
    ∃ approved rows, permissiveEngine.authorize modelSubmission (some submissionGrant) =
      (rows, .ok approved) ∧ approved.decision.decision ≠ .deny ∧ ∃ row, rows = [row] ∧
        row.decision = approved.decision.decision.value := by
  have hok : (permissiveEngine.authorize modelSubmission (some submissionGrant)).2.isOk = true := by
    decide +kernel
  obtain ⟨approved, rows, h⟩ : ∃ approved rows,
      permissiveEngine.authorize modelSubmission (some submissionGrant) = (rows, .ok approved) := by
    generalize permissiveEngine.authorize modelSubmission (some submissionGrant) = result at hok
    obtain ⟨rows, failure | approved⟩ := result
    · cases hok
    · exact ⟨approved, rows, rfl⟩
  obtain ⟨-, -, -, -, ⟨-, hnot, -⟩, hlog, -⟩ := PolicyEngine.authorize_cleared h
  obtain ⟨row, hrows, hrow, -⟩ := hlog _ rfl
  exact ⟨approved, rows, h, hnot, row, hrows, hrow⟩

end Policy

end PersonalOS
