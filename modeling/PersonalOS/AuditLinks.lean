import PersonalOS.AuditTrail

/-! # What the entries of the audit trail are linked to

* **Loading.** `Chains.load` fetches only stored rows, and all that an event cites or that carry the hash
  of a decision.
* **Events.** A row that an event cites is the one it is linked to, whatever else was loaded.  Another
  execution is linked only where it redeems the approval of the event, and is then the latest there is.  The
  decision is the event's own, else that of the linked execution, else of those on the action the last one
  before the event (`EventLinks`).
* **Decisions.** What follows a decision is an execution that cites it, or the latest one of its action, and
  the approval which that names, or the latest one of the action (`DecisionLinks`). -/

namespace PersonalOS

namespace AuditTrail

variable {ρ : Type}

/-! ### Lists -/

section load

variable {tools : AuditTools ρ} {tables : AuditTables ρ} {events : List EventRow} {workflowIds : List UUID}
  {decisions : List DecisionRow}

variable (hdecisions : decisions ⊆ tables.decisions)
include hdecisions

end load

/-! ### The links of events -/

section found

variable {tools : AuditTools ρ} {chains : Chains ρ}

end found

section event

variable {tools : AuditTools ρ} {tables : AuditTables ρ} {events : List EventRow} {workflowIds : List UUID}
  {decisions : List DecisionRow} {event : EventRow}

end event

/-! ### The links of decisions -/

section decision

variable {tools : AuditTools ρ} {tables : AuditTables ρ} {events : List EventRow} {workflowIds : List UUID}
  {decisions : List DecisionRow} {row : DecisionRow}

end decision

end AuditTrail

end PersonalOS

