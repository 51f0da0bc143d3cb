import PersonalOS.RuleChains

/-! # The policy that is shipped

The rules and the permission table that the application boots with, and the verdict they come to.

* **Rules.** Each shipped rule is a function of its own table; `defaultRules` is the chain, in the order
  of the source.
* **Verdict.** `shippedDecision` says which intents are refused, which wait for a person and which run
  unattended, by tests of the intent.  The engine comes to exactly that (`verdict_eq_shipped`): what a rule
  answers is one lemma a rule, and the chain and the permission class are put together from these.

How Python prints a list of names in a reason is a parameter. -/

namespace PersonalOS

namespace Policy

/-- What the rules read of the arguments of a tool call. -/
class NamedArguments (A : Type) extends ToolArguments A where
  /-- The names of the arguments. -/
  names : A → List String
  /-- `arguments.get(name)` is there and is truthy. -/
  given : A → String → Bool

/-! ### The rules -/

section rules

variable {A : Type}

/-- A rule's opinion of an intent. -/
def ToolIntent.opinion (intent : ToolIntent A) (rule : String) (decision : Decision) (reason : String) :
    PolicyDecision :=
  { intentId := intent.intentId, toolRef := intent.toolRef, decision, rule, reason, recordId := none }

def idempotencyKeyArg : String := "idempotency_key"

def expectedSha256Arg : String := "expected_sha256"

def requireProvenanceRule : PolicyRule A := fun intent =>
  if intent.attributed then none
  else some (intent.opinion "require_provenance" .deny "intent has no requested_by provenance")

def toolAllowlistRule (allowed : List String) : PolicyRule A := fun intent =>
  if intent.toolRef ∈ allowed then
    some (intent.opinion "tool_allowlist" .allow s!"tool '{intent.toolRef}' is allowlisted")
  else
    some (intent.opinion "tool_allowlist" .deny s!"tool '{intent.toolRef}' is not on the allowlist")

def untrustedOriginRule (untrusted : List IntentOrigin) : PolicyRule A := fun intent =>
  if intent.origin ∈ untrusted ∧ intent.mutating = true then
    some (intent.opinion "untrusted_origin" .requireApproval
      s!"mutating intent from untrusted origin '{intent.origin.value}'")
  else none

variable [NamedArguments A]

/-- The arguments that a tool has not declared, in order and each once. -/
def unexpectedArguments (names : List String) (intent : ToolIntent A) : List String :=
  sortedScopes ((NamedArguments.names intent.arguments).filter (· ∉ idempotencyKeyArg :: names))

def argumentAllowlistRule (print : List String → String) (allowedArguments : List (String × List String)) :
    PolicyRule A := fun intent =>
  match allowedArguments.lookup intent.toolRef with
  | none => none
  | some names =>
      if unexpectedArguments names intent ≠ [] then
        some (intent.opinion "argument_allowlist" .deny
          s!"unexpected arguments for '{intent.toolRef}': {print (unexpectedArguments names intent)}")
      else none

def mutatingToolRule (autoApproved : List String) : PolicyRule A := fun intent =>
  if intent.mutating then
    if NamedArguments.given intent.arguments idempotencyKeyArg then
      if intent.toolRef ∈ autoApproved then
        some (intent.opinion "mutating_tool" .allow s!"mutating tool '{intent.toolRef}' is auto-approved")
      else
        some (intent.opinion "mutating_tool" .requireApproval
          s!"mutating tool '{intent.toolRef}' needs human approval")
    else
      some (intent.opinion "mutating_tool" .deny
        s!"mutating tool '{intent.toolRef}' requires an {idempotencyKeyArg}")
  else none

def documentOverwriteRule (overwriteTools guardedWriteTools : List String) (preconditionArg : String) :
    PolicyRule A := fun intent =>
  if intent.toolRef ∈ overwriteTools then
    if NamedArguments.given intent.arguments preconditionArg then
      some (intent.opinion "document_overwrite" .requireApproval
        s!"'{intent.toolRef}' replaces an existing document")
    else
      some (intent.opinion "document_overwrite" .deny
        s!"'{intent.toolRef}' requires {preconditionArg}: the hash of the version being replaced")
  else if intent.toolRef ∈ guardedWriteTools ∧ NamedArguments.given intent.arguments preconditionArg then
    some (intent.opinion "document_overwrite" .requireApproval
      s!"'{intent.toolRef}' with {preconditionArg} replaces an existing document")
  else none

end rules

/-! ### The tables -/

def jobSearchToolArguments : List (String × List String) :=
  [("jobs.search_jobs", ["keywords", "locations", "job_type", "limit"]),
   ("jobs.scrape_job_details", ["job_id", "job_url"]),
   ("jobs.filter_jobs", ["jobs", "salary_min", "salary_max", "experience_level", "remote_only"]),
   ("jobs.save_favorite_job", ["job_id", "notes"])]

def jobProviderToolArguments : List (String × List String) :=
  [("job_providers.search", ["provider", "profile"]),
   ("job_providers.get_job", ["provider", "source_job_id"])]

def fileToolArguments : List (String × List String) :=
  [("files.read_file", ["path"]),
   ("files.write_file", ["path", "content", "encoding", "expected_sha256"]),
   ("files.overwrite_document", ["path", "content", "encoding", "expected_sha256"])]

/-- The tools that can be reached, with the arguments that each accepts. -/
def toolArguments : List (String × List String) :=
  jobSearchToolArguments ++ jobProviderToolArguments ++ fileToolArguments

def scopedToolPermissions : List (String × ToolPermission) :=
  [("jobs.filter_jobs", ⟨.readLocal, ["jobs:read"]⟩),
   ("files.read_file", ⟨.readLocal, ["artifacts:read"]⟩),
   ("jobs.search_jobs", ⟨.readExternal, ["jobs:read"]⟩),
   ("jobs.scrape_job_details", ⟨.readExternal, ["jobs:read"]⟩),
   ("job_providers.search", ⟨.readExternal, ["jobs:read"]⟩),
   ("job_providers.get_job", ⟨.readExternal, ["jobs:read"]⟩),
   ("google.gmail_read_message", ⟨.readExternal, ["communications:read"]⟩),
   ("google.calendar_list_events", ⟨.readExternal, ["calendar:read"]⟩),
   ("jobs.save_favorite_job", ⟨.writeReversible, ["jobs:write"]⟩),
   ("google.gmail_create_draft", ⟨.writeReversible, ["communications:draft"]⟩),
   ("google.calendar_create_tentative_block", ⟨.writeReversible, ["calendar:draft"]⟩),
   ("files.write_file", ⟨.writeReversible, ["artifacts:write"]⟩),
   ("artifacts.create_draft", ⟨.writeReversible, ["artifacts:draft"]⟩),
   ("google.gmail_send_message", ⟨.writeExternal, ["communications:send"]⟩),
   ("google.calendar_create_event", ⟨.writeExternal, ["calendar:write"]⟩),
   ("google.calendar_update_event", ⟨.writeExternal, ["calendar:write"]⟩),
   ("jobs.submit_application", ⟨.writeExternal, ["applications:submit", "artifacts:read"]⟩),
   ("files.delete_file", ⟨.destructive, ["artifacts:delete"]⟩),
   ("files.overwrite_document", ⟨.destructive, ["artifacts:write"]⟩),
   ("google.update_credentials", ⟨.sensitive, ["credentials:write"]⟩),
   ("google.change_permissions", ⟨.sensitive, ["permissions:write"]⟩)]

/-- The classes are those that the tool executor reads its retry budgets off. -/
theorem scopedToolPermissions_classes :
    (scopedToolPermissions.map fun entry => (entry.1, entry.2.permissionClass)) = defaultToolPermissions := rfl

/-! ### The engine that the application boots with -/

section engine

variable {A : Type} [NamedArguments A]

def defaultRules (print : List String → String) : List (PolicyRule A) :=
  [requireProvenanceRule,
   toolAllowlistRule (toolArguments.map Prod.fst),
   argumentAllowlistRule print toolArguments,
   mutatingToolRule [],
   documentOverwriteRule ["files.overwrite_document"] ["files.write_file"] expectedSha256Arg,
   untrustedOriginRule [.llm]]

def defaultPolicyEngine (print : List String → String)
    (decisionSink : Option (ToolIntent A → PolicyDecision → Except PolicyFailure Unit))
    (decisionLog : Option (DecisionRow → Except PolicyFailure (Option UUID))) : PolicyEngine A where
  rules := defaultRules print
  defaultDecision := .deny
  decisionSink
  decisionLog
  toolPermissions tool := scopedToolPermissions.lookup tool
  classOverrides _ := none

end engine

/-! ### What the policy comes to -/

section shipped

variable {A : Type} [NamedArguments A] (intent : ToolIntent A)

/-- The intent names a tool that can be reached, with arguments that it has declared. -/
def ToolIntent.isReachable : Bool :=
  match toolArguments.lookup intent.toolRef with
  | none => false
  | some names => (NamedArguments.names intent.arguments).all (· ∈ idempotencyKeyArg :: names)

/-- A change that is announced has a key, and an overwrite names the version it replaces. -/
def ToolIntent.isGuarded : Bool :=
  (!intent.mutating || NamedArguments.given intent.arguments idempotencyKeyArg) &&
    (intent.toolRef != "files.overwrite_document" ||
      NamedArguments.given intent.arguments expectedSha256Arg)

/-- A person has to be asked: the intent announces a change, or it replaces a file, or a model asks for a
tool that writes. -/
def ToolIntent.needsGrant : Bool :=
  intent.mutating || intent.toolRef == "files.overwrite_document" ||
    (intent.toolRef == "files.write_file" &&
      (NamedArguments.given intent.arguments expectedSha256Arg || intent.origin == .llm)) ||
    (intent.toolRef == "jobs.save_favorite_job" && intent.origin == .llm)

/-- The intent is not refused. -/
def ToolIntent.isAcceptable : Bool := intent.attributed && intent.isReachable && intent.isGuarded

def shippedDecision : Decision :=
  if intent.isAcceptable then if intent.needsGrant then .requireApproval else .allow else .deny

end shipped

/-! ### What each rule has to say -/

section opinions

variable {A : Type} {intent : ToolIntent A} {decision : Decision}

/-- The rule has such an opinion of the intent. -/
def Opines (rule : PolicyRule A) (intent : ToolIntent A) (decision : Decision) : Prop :=
  ∃ opinion, rule intent = some opinion ∧ opinion.decision = decision

theorem opines_some {rule : PolicyRule A} {name reason : String} {said : Decision}
    (h : rule intent = some (intent.opinion name said reason)) :
    Opines rule intent decision ↔ decision = said := by
  rw [Opines, h]
  constructor
  · rintro ⟨opinion, hopinion, rfl⟩
    rw [← Option.some.inj hopinion]
    rfl
  · rintro rfl
    exact ⟨_, rfl, rfl⟩

theorem not_opines_none {rule : PolicyRule A} (h : rule intent = none) : ¬Opines rule intent decision := by
  rintro ⟨opinion, hopinion, -⟩
  rw [h] at hopinion
  cases hopinion

theorem requireProvenanceRule_opines :
    Opines requireProvenanceRule intent decision ↔ intent.attributed = false ∧ decision = .deny := by
  by_cases h : intent.attributed = true
  · exact iff_of_false (not_opines_none (if_pos h)) fun hd => by simp [h] at hd
  · rw [opines_some (if_neg h), Bool.eq_false_of_not_eq_true h]
    exact (and_iff_right rfl).symm

theorem toolAllowlistRule_opines {allowed : List String} :
    Opines (toolAllowlistRule allowed) intent decision ↔
      decision = if intent.toolRef ∈ allowed then .allow else .deny := by
  by_cases h : intent.toolRef ∈ allowed
  · rw [if_pos h, opines_some (if_pos h)]
  · rw [if_neg h, opines_some (if_neg h)]

theorem untrustedOriginRule_opines {untrusted : List IntentOrigin} :
    Opines (untrustedOriginRule untrusted) intent decision ↔
      (intent.origin ∈ untrusted ∧ intent.mutating = true) ∧ decision = .requireApproval := by
  by_cases h : intent.origin ∈ untrusted ∧ intent.mutating = true
  · rw [opines_some (if_pos h)]
    exact (and_iff_right h).symm
  · exact iff_of_false (not_opines_none (if_neg h)) fun hd => h hd.1

variable [NamedArguments A]

theorem unexpectedArguments_eq_nil {names : List String} : unexpectedArguments names intent = [] ↔
    (NamedArguments.names intent.arguments).all (· ∈ idempotencyKeyArg :: names) = true := by
  rw [List.eq_nil_iff_forall_not_mem, List.all_eq_true]
  simp only [unexpectedArguments, mem_sortedScopes, List.mem_filter, decide_eq_true_eq, not_and, not_not]

theorem argumentAllowlistRule_opines {print : List String → String} {allowed : List (String × List String)} :
    Opines (argumentAllowlistRule print allowed) intent decision ↔
      (∃ names, allowed.lookup intent.toolRef = some names ∧ unexpectedArguments names intent ≠ []) ∧
        decision = .deny := by
  cases hnames : allowed.lookup intent.toolRef with
  | none =>
      have hnone : argumentAllowlistRule print allowed intent = none := by
        rw [argumentAllowlistRule, hnames]
      refine iff_of_false (not_opines_none hnone) ?_
      rintro ⟨⟨names, h, -⟩, -⟩
      cases h
  | some names =>
      by_cases h : unexpectedArguments names intent ≠ []
      · have hrule : argumentAllowlistRule print allowed intent =
            if unexpectedArguments names intent ≠ [] then some (intent.opinion "argument_allowlist" .deny
              s!"unexpected arguments for '{intent.toolRef}': {print (unexpectedArguments names intent)}")
            else none := by
          rw [argumentAllowlistRule, hnames]
        rw [opines_some (hrule.trans (if_pos h))]
        exact (and_iff_right ⟨names, rfl, h⟩).symm
      · have hnone : argumentAllowlistRule print allowed intent = none := by
          rw [argumentAllowlistRule, hnames]
          exact if_neg h
        refine iff_of_false (not_opines_none hnone) ?_
        rintro ⟨⟨names', h', hne⟩, -⟩
        exact h (Option.some.inj h' ▸ hne)

theorem mutatingToolRule_opines : Opines (mutatingToolRule []) intent decision ↔ intent.mutating = true ∧
    decision = if NamedArguments.given intent.arguments idempotencyKeyArg then .requireApproval else .deny := by
  by_cases hmutating : intent.mutating = true
  · rw [and_iff_right hmutating]
    by_cases hkey : NamedArguments.given intent.arguments idempotencyKeyArg = true
    · rw [opines_some ((if_pos hmutating).trans ((if_pos hkey).trans (if_neg List.not_mem_nil))),
        if_pos hkey]
    · rw [opines_some ((if_pos hmutating).trans (if_neg hkey)), if_neg hkey]
  · exact iff_of_false (not_opines_none (if_neg hmutating)) fun h => hmutating h.1

theorem documentOverwriteRule_opines {overwriteTools guardedWriteTools : List String}
    {preconditionArg : String} :
    Opines (documentOverwriteRule overwriteTools guardedWriteTools preconditionArg) intent decision ↔
      if intent.toolRef ∈ overwriteTools then
        decision = if NamedArguments.given intent.arguments preconditionArg then .requireApproval else .deny
      else (intent.toolRef ∈ guardedWriteTools ∧
          NamedArguments.given intent.arguments preconditionArg = true) ∧ decision = .requireApproval := by
  by_cases hoverwrite : intent.toolRef ∈ overwriteTools
  · rw [if_pos hoverwrite]
    by_cases hgiven : NamedArguments.given intent.arguments preconditionArg = true
    · rw [opines_some ((if_pos hoverwrite).trans (if_pos hgiven)), if_pos hgiven]
    · rw [opines_some ((if_pos hoverwrite).trans (if_neg hgiven)), if_neg hgiven]
  · rw [if_neg hoverwrite]
    by_cases hguarded : intent.toolRef ∈ guardedWriteTools ∧
        NamedArguments.given intent.arguments preconditionArg = true
    · rw [opines_some ((if_neg hoverwrite).trans (if_pos hguarded))]
      exact (and_iff_right hguarded).symm
    · exact iff_of_false (not_opines_none ((if_neg hoverwrite).trans (if_neg hguarded)))
        fun h => hguarded h.1

end opinions

/-! ### The verdict -/

section verdict

open PolicyEngine

variable {A : Type} [NamedArguments A] {intent : ToolIntent A} {print : List String → String}
  {decisionSink : Option (ToolIntent A → PolicyDecision → Except PolicyFailure Unit)}
  {decisionLog : Option (DecisionRow → Except PolicyFailure (Option UUID))}

theorem mem_defaultOpinions {decision : Decision} :
    decision ∈ opinions (defaultRules print) intent ↔
      Opines requireProvenanceRule intent decision ∨
      Opines (toolAllowlistRule (toolArguments.map Prod.fst)) intent decision ∨
      Opines (argumentAllowlistRule print toolArguments) intent decision ∨
      Opines (mutatingToolRule []) intent decision ∨
      Opines (documentOverwriteRule ["files.overwrite_document"] ["files.write_file"] expectedSha256Arg) intent
        decision ∨
      Opines (untrustedOriginRule [.llm]) intent decision := by
  rw [mem_opinions]
  simp only [defaultRules, List.mem_cons, List.not_mem_nil, or_false, exists_eq_or_imp, exists_eq_left]
  rfl

omit [NamedArguments A] in
theorem mem_toolNames : intent.toolRef ∈ toolArguments.map Prod.fst ↔
    (toolArguments.lookup intent.toolRef).isSome = true := by
  cases h : toolArguments.lookup intent.toolRef with
  | none =>
      refine iff_of_false (fun hmem => ?_) (by decide)
      obtain ⟨entry, hentry, hname⟩ := List.mem_map.mp hmem
      have hne := List.lookup_eq_none_iff.mp h entry hentry
      simp [hname] at hne
  | some names =>
      refine iff_of_true ?_ rfl
      obtain ⟨before, after, hsplit, -⟩ := List.lookup_eq_some_iff.mp h
      rw [hsplit]
      simp

theorem isAcceptable_iff : intent.isAcceptable = true ↔ intent.attributed = true ∧
    (∃ names, toolArguments.lookup intent.toolRef = some names ∧ unexpectedArguments names intent = []) ∧
    (intent.mutating = true → NamedArguments.given intent.arguments idempotencyKeyArg = true) ∧
    (intent.toolRef = "files.overwrite_document" →
      NamedArguments.given intent.arguments expectedSha256Arg = true) := by
  have hreachable : intent.isReachable = true ↔
      ∃ names, toolArguments.lookup intent.toolRef = some names ∧ unexpectedArguments names intent = [] := by
    rw [ToolIntent.isReachable]
    cases toolArguments.lookup intent.toolRef with
    | none => simp
    | some names => simp only [unexpectedArguments_eq_nil, Option.some.injEq, exists_eq_left']
  rw [ToolIntent.isAcceptable, Bool.and_eq_true, Bool.and_eq_true, hreachable, ToolIntent.isGuarded]
  simp only [Bool.and_eq_true, Bool.or_eq_true, Bool.not_eq_true', bne_iff_ne, and_assoc,
    ← Bool.not_eq_true, ← imp_iff_not_or]

theorem entry_of_acceptable (h : intent.isAcceptable = true) :
    ∃ names, (intent.toolRef, names) ∈ toolArguments := by
  obtain ⟨-, ⟨names, hnames, -⟩, -⟩ := isAcceptable_iff.mp h
  obtain ⟨before, after, hsplit, -⟩ := List.lookup_eq_some_iff.mp hnames
  rw [hsplit]
  exact ⟨names, List.mem_append_right before List.mem_cons_self⟩

/-- A rule refuses the intent exactly if it is not acceptable. -/
theorem deny_mem_defaultOpinions :
    Decision.deny ∈ opinions (defaultRules print) intent ↔ ¬intent.isAcceptable = true := by
  rw [mem_defaultOpinions, requireProvenanceRule_opines, toolAllowlistRule_opines,
    argumentAllowlistRule_opines, mutatingToolRule_opines, documentOverwriteRule_opines,
    untrustedOriginRule_opines, isAcceptable_iff]
  constructor
  · rintro hrefused ⟨hattributed, ⟨names, hnames, hexpected⟩, hkeyed, hversioned⟩
    have hlisted : intent.toolRef ∈ toolArguments.map Prod.fst := mem_toolNames.mpr (by rw [hnames]; rfl)
    rcases hrefused with h | h | h | h | h | h
    · simp [hattributed] at h
    · simp [hlisted] at h
    · obtain ⟨⟨names', hnames', hne⟩, -⟩ := h
      rw [hnames] at hnames'
      exact hne (Option.some.inj hnames' ▸ hexpected)
    · simp [hkeyed h.1] at h
    · split at h
      · next hoverwrite => simp [hversioned (List.mem_singleton.mp hoverwrite)] at h
      · cases h.2
    · cases h.2
  · intro hnot
    by_contra hsilent
    simp only [not_or] at hsilent
    obtain ⟨hprovenance, hallowlist, harguments, hmutating, hoverwrite, -⟩ := hsilent
    refine hnot ⟨?_, ?_, fun h => ?_, fun h => ?_⟩
    · by_contra h
      exact hprovenance ⟨Bool.eq_false_of_not_eq_true h, trivial⟩
    · have hlisted : intent.toolRef ∈ toolArguments.map Prod.fst := by
        by_contra h
        exact hallowlist (if_neg h).symm
      obtain ⟨names, hnames⟩ := Option.isSome_iff_exists.mp (mem_toolNames.mp hlisted)
      refine ⟨names, hnames, ?_⟩
      by_contra h
      exact harguments ⟨⟨names, hnames, h⟩, trivial⟩
    · by_contra hkey
      exact hmutating ⟨h, (if_neg hkey).symm⟩
    · by_contra hgiven
      rw [if_pos (List.mem_singleton.mpr h)] at hoverwrite
      exact hoverwrite (if_neg hgiven).symm

/-- What a rule asks a person for, of an intent that is acceptable. -/
theorem requireApproval_mem_defaultOpinions (h : intent.isAcceptable = true) :
    Decision.requireApproval ∈ opinions (defaultRules print) intent ↔
      intent.mutating = true ∨ intent.toolRef = "files.overwrite_document" ∨
        (intent.toolRef = "files.write_file" ∧
          NamedArguments.given intent.arguments expectedSha256Arg = true) := by
  obtain ⟨-, -, hkeyed, hversioned⟩ := isAcceptable_iff.mp h
  rw [mem_defaultOpinions, requireProvenanceRule_opines, toolAllowlistRule_opines,
    argumentAllowlistRule_opines, mutatingToolRule_opines, documentOverwriteRule_opines,
    untrustedOriginRule_opines]
  constructor
  · rintro (h | h | h | h | h | h)
    · cases h.2
    · split at h <;> cases h
    · cases h.2
    · exact Or.inl h.1
    · split at h
      · next hoverwrite => exact Or.inr (Or.inl (List.mem_singleton.mp hoverwrite))
      · exact Or.inr (Or.inr ⟨List.mem_singleton.mp h.1.1, h.1.2⟩)
    · exact Or.inl h.1.2
  · rintro (h | h | ⟨h, hgiven⟩)
    · exact Or.inr (Or.inr (Or.inr (Or.inl ⟨h, (if_pos (hkeyed h)).symm⟩)))
    · refine Or.inr (Or.inr (Or.inr (Or.inr (Or.inl ?_))))
      rw [if_pos (List.mem_singleton.mpr h)]
      exact (if_pos (hversioned h)).symm
    · refine Or.inr (Or.inr (Or.inr (Or.inr (Or.inl ?_))))
      rw [if_neg (by rw [h]; decide)]
      exact ⟨⟨List.mem_singleton.mpr h, hgiven⟩, rfl⟩

theorem allow_mem_defaultOpinions (h : intent.isAcceptable = true) :
    Decision.allow ∈ opinions (defaultRules print) intent := by
  obtain ⟨-, ⟨names, hnames, -⟩, -⟩ := isAcceptable_iff.mp h
  rw [mem_defaultOpinions, toolAllowlistRule_opines]
  refine Or.inr (Or.inl (if_pos (mem_toolNames.mpr ?_)).symm)
  rw [hnames]
  rfl

/-- The verdict of the class of a tool, when no outcome is configured. -/
theorem classVerdict_default {permission : ToolPermission} (hattributed : intent.attributed = true)
    (hpermission : scopedToolPermissions.lookup intent.toolRef = some permission) :
    ((defaultPolicyEngine print decisionSink decisionLog).classVerdict intent).1 =
      if permission.permissionClass = .sensitive ∧ intent.origin = .llm then .deny
      else if intent.origin = .llm ∧ permission.permissionClass ∈ writeClasses then
        strictest (defaultClassOutcomes permission.permissionClass) .requireApproval
      else defaultClassOutcomes permission.permissionClass := by
  have hexcess : sortedScopes ((sortedScopes permission.scopes).filter (· ∉ permission.scopes)) = [] := by
    refine List.eq_nil_iff_forall_not_mem.mpr fun scope hscope => ?_
    obtain ⟨hmem, hnot⟩ := List.mem_filter.mp (mem_sortedScopes.mp hscope)
    exact of_decide_eq_true hnot (mem_sortedScopes.mp hmem)
  simp only [classVerdict, classify, declaredScopes, defaultPolicyEngine, hattributed, hpermission, hexcess,
    classOutcomes, Option.elim_some, Option.getD_none, if_true, ne_eq, not_true_eq_false, if_false]
  split
  · rfl
  · split <;> rfl

/-- The classes of the tools that can be reached. -/
theorem toolArguments_classes : ∀ entry ∈ toolArguments,
    (scopedToolPermissions.lookup entry.1).map ToolPermission.permissionClass =
      if entry.1 = "files.overwrite_document" then some .destructive
      else if entry.1 = "files.write_file" ∨ entry.1 = "jobs.save_favorite_job" then some .writeReversible
      else if entry.1 = "jobs.filter_jobs" ∨ entry.1 = "files.read_file" then some .readLocal
      else some .readExternal := by
  decide +kernel

/-- The verdict of the class, of an intent that is acceptable: replacing a file waits for a person, and so
does a write that a model asks for. -/
theorem classVerdict_acceptable (h : intent.isAcceptable = true) :
    ((defaultPolicyEngine print decisionSink decisionLog).classVerdict intent).1 =
      if intent.toolRef = "files.overwrite_document" ∨ intent.origin = .llm ∧
          (intent.toolRef = "files.write_file" ∨ intent.toolRef = "jobs.save_favorite_job") then
        .requireApproval
      else .allow := by
  obtain ⟨names, hentry⟩ := entry_of_acceptable h
  have hclasses := toolArguments_classes (intent.toolRef, names) hentry
  cases hpermission : scopedToolPermissions.lookup intent.toolRef with
  | none =>
      rw [hpermission] at hclasses
      split at hclasses
      · cases hclasses
      split at hclasses
      · cases hclasses
      split at hclasses <;> cases hclasses
  | some permission =>
      rw [classVerdict_default (isAcceptable_iff.mp h).1 hpermission]
      rw [hpermission, Option.map_some] at hclasses
      split at hclasses
      · next hoverwrite =>
        rw [Option.some.inj hclasses, if_pos (Or.inl hoverwrite)]
        cases intent.origin <;> rfl
      next hoverwrite =>
      have hasked : (intent.toolRef = "files.overwrite_document" ∨ intent.origin = .llm ∧
          (intent.toolRef = "files.write_file" ∨ intent.toolRef = "jobs.save_favorite_job")) ↔
            intent.origin = .llm ∧
              (intent.toolRef = "files.write_file" ∨ intent.toolRef = "jobs.save_favorite_job") :=
        or_iff_right hoverwrite
      rw [if_congr hasked rfl rfl]
      split at hclasses
      · next hwrite =>
        rw [Option.some.inj hclasses, if_congr (and_iff_left hwrite) rfl rfl]
        cases intent.origin <;> rfl
      next hread =>
      have hnot : ¬(intent.origin = .llm ∧
          (intent.toolRef = "files.write_file" ∨ intent.toolRef = "jobs.save_favorite_job")) :=
        fun h => hread h.2
      rw [if_neg hnot]
      split at hclasses
      all_goals
        rw [Option.some.inj hclasses]
        cases intent.origin <;> rfl

/-- What asks for a person: a rule, or the class of the tool. -/
theorem needsGrant_iff (h : intent.isAcceptable = true) : intent.needsGrant = true ↔
    Decision.requireApproval ∈ opinions (defaultRules print) intent ∨
      ((defaultPolicyEngine print decisionSink decisionLog).classVerdict intent).1 = .requireApproval := by
  rw [requireApproval_mem_defaultOpinions h, classVerdict_acceptable h, ToolIntent.needsGrant]
  simp only [Bool.or_eq_true, Bool.and_eq_true, beq_iff_eq, ite_eq_left_iff, reduceCtorEq, imp_false, not_not]
  tauto

/-- **The verdict of the shipped policy**, whatever listens to it. -/
theorem verdict_eq_shipped :
    ((defaultPolicyEngine print decisionSink decisionLog).verdict intent).decision =
      shippedDecision intent := by
  obtain ⟨hle, hmem, -⟩ :=
    strictest_evaluateRules (defaultPolicyEngine print decisionSink decisionLog) intent
  have hrules : (defaultPolicyEngine print decisionSink decisionLog).rules =
      (defaultRules print : List (PolicyRule A)) := rfl
  rw [hrules] at hle hmem
  apply strictness_injective
  rw [strictness_verdict, shippedDecision]
  generalize hverdict : ((defaultPolicyEngine print decisionSink decisionLog).classVerdict intent).1 = verdict
  generalize ((defaultPolicyEngine print decisionSink decisionLog).evaluateRules intent).decision = chain
    at hle hmem ⊢
  by_cases h : intent.isAcceptable = true
  · have hchain := hmem (List.ne_nil_of_mem (allow_mem_defaultOpinions h))
    have hdeny : chain ≠ .deny := by
      rintro rfl
      exact deny_mem_defaultOpinions.mp hchain h
    have hclass : verdict ≠ .deny := by
      rw [← hverdict, classVerdict_acceptable h]
      split <;> decide
    have hneeds : intent.needsGrant = true ↔
        Decision.requireApproval ∈ opinions (defaultRules print) intent ∨ verdict = .requireApproval := by
      rw [← hverdict]
      exact needsGrant_iff h
    rw [if_pos h]
    by_cases hgrant : intent.needsGrant = true
    · rw [if_pos hgrant]
      rcases hneeds.mp hgrant with hasked | rfl
      · have hstrict := hle _ hasked
        revert hstrict hdeny hclass
        cases chain <;> cases verdict <;> decide
      · revert hdeny
        cases chain <;> decide
    · rw [if_neg hgrant]
      obtain ⟨hrule, htool⟩ := not_or.mp fun hasked => hgrant (hneeds.mpr hasked)
      have hchain' : chain ≠ .requireApproval := by
        rintro rfl
        exact hrule hchain
      revert hchain' hdeny hclass htool
      cases chain <;> cases verdict <;> decide
  · rw [if_neg h]
    have hstrict := hle _ (deny_mem_defaultOpinions.mpr h)
    revert hstrict
    cases chain <;> cases verdict <;> decide

end verdict

end Policy

end PersonalOS
