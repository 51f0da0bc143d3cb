import PersonalOS.Instants
import PersonalOS.Keyed

/-! # The secrets a redactor knows

`Redactor.register_secret`: the literal secrets whose every occurrence is to be removed, each with
the moment from which it may be forgotten.

* **Registrations.** A registration first drops what has expired by its own reading of the clock,
  and then sets the expiry of its value (`expiry_registerSecret`).  A value that is too short is not
  registered and the clock is not read.
* **Lifetimes.** `RemembersAll` says that whatever was registered is known as long as no reading has
  reached its expiry.  That is so exactly as long as no registration shortens the expiry held
  (`remembers_iff`).

Values are texts; what else a caller may pass is not registered. -/

namespace PersonalOS

/-- What a removed value is replaced with. -/
def redactedMarker : String := "[REDACTED]"

/-- A secret shorter than this is not registered. -/
def minKnownSecretLength : ℕ := 8

structure KnownSecret where
  value : String
  /-- From then on it may be forgotten. -/
  expiresAt : Option Instant
deriving DecidableEq, Repr

def KnownSecret.isLive (now : Instant) (secret : KnownSecret) : Bool :=
  secret.expiresAt.all fun expiry => decide (now < expiry)

/-- The secrets known, in the order in which they were registered first. -/
structure Redactor where
  known : List KnownSecret
  known_nodup : (known.map (·.value)).Nodup

namespace Redactor

def empty : Redactor := ⟨[], List.nodup_nil⟩

/-- Forget what has expired. -/
def prune (now : Instant) (redactor : Redactor) : Redactor where
  known := redactor.known.filter (·.isLive now)
  known_nodup := redactor.known_nodup.sublist (List.filter_sublist.map _)

/-- The expiry under which a value is known, if it is. -/
def expiry (redactor : Redactor) (value : String) : Option (Option Instant) :=
  (Keyed.lookup (·.value) value redactor.known).map (·.expiresAt)

def knows (redactor : Redactor) (value : String) : Bool := (redactor.expiry value).isSome

/-- Remember a literal secret; `now` is what the clock says, if it is read. -/
def registerSecret (value : String) (expiresAt : Option Instant) (now : Instant)
    (redactor : Redactor) : Redactor :=
  if value.length < minKnownSecretLength then redactor
  else
    let current := ((redactor.prune now).expiry value).getD expiresAt
    { known := Keyed.upsert (·.value)
        ⟨value, if current = none ∨ expiresAt = none then none else expiresAt⟩
        (redactor.prune now).known
      known_nodup := Keyed.nodup_upsert (redactor.prune now).known_nodup }

end Redactor

/-- A call of `register_secret`, and what the clock says then. -/
structure Registration where
  value : String
  expiresAt : Option Instant
  now : Instant
deriving DecidableEq, Repr

namespace Registration

/-- The value is long enough to be registered. -/
def Accepted (call : Registration) : Prop := minKnownSecretLength ≤ call.value.length

instance (call : Registration) : Decidable call.Accepted := inferInstanceAs (Decidable (_ ≤ _))

/-- It has not expired by then. -/
def Outlives (call : Registration) (now : Instant) : Prop :=
  ∀ expiry, call.expiresAt = some expiry → now < expiry

instance (call : Registration) (now : Instant) : Decidable (call.Outlives now) :=
  decidable_of_iff (call.expiresAt.all fun expiry => decide (now < expiry))
    (by rw [Option.all_eq_true]; simp only [decide_eq_true_eq]; rfl)

def apply (redactor : Redactor) (call : Registration) : Redactor :=
  redactor.registerSecret call.value call.expiresAt call.now

end Registration

/-- The redactor after these registrations. -/
def registerAll (calls : List Registration) (redactor : Redactor) : Redactor :=
  calls.foldl Registration.apply redactor

theorem registerAll_concat (calls : List Registration) (call : Registration) (redactor : Redactor) :
    registerAll (calls ++ [call]) redactor = call.apply (registerAll calls redactor) :=
  List.foldl_append

/-! ### One registration -/

section step

variable {redactor : Redactor} {call : Registration} {value : String}

theorem expiry_prune (now : Instant) : (redactor.prune now).expiry value =
    (redactor.expiry value).filter fun held => held.all fun expiry => decide (now < expiry) := by
  have hfilter : redactor.known.filter (·.isLive now) =
      redactor.known.filterMap (Option.guard (·.isLive now)) :=
    (congrFun List.filterMap_eq_filter redactor.known).symm
  unfold Redactor.expiry Redactor.prune
  dsimp only
  rw [hfilter, Keyed.lookup_filterMap redactor.known_nodup]
  · cases Keyed.lookup (·.value) value redactor.known with
    | none => rfl
    | some secret =>
        rw [Option.bind_some, Option.map_some, Option.filter_some, Option.guard]
        unfold KnownSecret.isLive
        split <;> rfl
  · intro x y hxy
    rw [(Option.guard_eq_some_iff.mp hxy).1]

variable (redactor) in
/-- **One registration**: what is under each value afterwards. -/
theorem expiry_apply (h : call.Accepted) : (call.apply redactor).expiry value =
    if value = call.value then
      some (if ((redactor.prune call.now).expiry value).getD call.expiresAt = none ∨
        call.expiresAt = none then none else call.expiresAt)
    else (redactor.prune call.now).expiry value := by
  have hlong : ¬ call.value.length < minKnownSecretLength := not_lt.mpr h
  unfold Registration.apply Redactor.registerSecret
  rw [if_neg hlong]
  show Option.map _ (Keyed.lookup _ value (Keyed.upsert _ _ _)) = _
  rw [Keyed.lookup_upsert]
  by_cases hvalue : value = call.value
  · rw [if_pos hvalue, if_pos hvalue, hvalue]
    rfl
  · rw [if_neg hvalue, if_neg hvalue]
    rfl

theorem apply_of_not_accepted (h : ¬ call.Accepted) : call.apply redactor = redactor :=
  if_pos (not_le.mp h)

end step

/-! ### Lifetimes -/

/-- The expiry held is no earlier than this one; no expiry at all is the latest. -/
def NoEarlier (held expiresAt : Option Instant) : Prop :=
  ∀ expiry, held = some expiry → ∃ other, expiresAt = some other ∧ other ≤ expiry

/-- The call does not shorten the lifetime of a value that is known and has not expired. -/
def Lengthens (redactor : Redactor) (call : Registration) : Prop :=
  ∀ held, redactor.expiry call.value = some (some held) → call.now < held → call.Accepted →
    ∀ expiry, call.expiresAt = some expiry → held ≤ expiry

/-- No call shortens the lifetime of a value. -/
def NeverShortened (calls : List Registration) : Prop :=
  ∀ front call back, calls = front ++ call :: back → Lengthens (registerAll front .empty) call

/-- Whatever was registered is known as long as no reading of the clock has reached its expiry. -/
def RemembersAll (calls : List Registration) : Prop :=
  ∀ front call back, calls = front ++ call :: back → call.Accepted →
    (∀ later ∈ back, later.Accepted → call.Outlives later.now) →
      (registerAll calls .empty).knows call.value = true

section lifetimes

variable {redactor : Redactor} {call later : Registration} {held : Option Instant} {value : String}

variable (redactor) in
theorem expiry_apply_self (h : call.Accepted) :
    ∃ held, (call.apply redactor).expiry call.value = some held ∧ NoEarlier held call.expiresAt := by
  refine ⟨_, (expiry_apply redactor h).trans (if_pos rfl), fun expiry hexpiry => ?_⟩
  split at hexpiry
  · cases hexpiry
  · exact ⟨expiry, hexpiry, le_refl expiry⟩

theorem expiry_prune_of_outlives (hheld : redactor.expiry call.value = some held)
    (hlong : NoEarlier held call.expiresAt) {now : Instant} (hnow : call.Outlives now) :
    (redactor.prune now).expiry call.value = some held := by
  rw [expiry_prune, hheld, Option.filter_some, if_pos]
  cases held with
  | none => rfl
  | some expiry =>
      obtain ⟨other, hother, hle⟩ := hlong expiry rfl
      exact decide_eq_true ((hnow other hother).trans_le hle)

theorem expiry_apply_kept (hheld : redactor.expiry call.value = some held)
    (hlong : NoEarlier held call.expiresAt) (hnow : later.Accepted → call.Outlives later.now)
    (hlater : Lengthens redactor later) :
    ∃ held', (later.apply redactor).expiry call.value = some held' ∧ NoEarlier held' call.expiresAt := by
  by_cases haccepted : later.Accepted
  · have hpruned := expiry_prune_of_outlives hheld hlong (hnow haccepted)
    by_cases hvalue : call.value = later.value
    · have hset := (expiry_apply redactor haccepted).trans (if_pos hvalue)
      rw [hpruned, Option.getD_some] at hset
      refine ⟨_, hset, fun expiry hexpiry => ?_⟩
      split at hexpiry
      · cases hexpiry
      · rename_i hfinite
        cases held with
        | none => exact absurd (Or.inl rfl) hfinite
        | some moment =>
            obtain ⟨other, hother, hle⟩ := hlong moment rfl
            have hlive : later.now < moment := (hnow haccepted other hother).trans_le hle
            rw [hvalue] at hheld
            exact ⟨other, hother, hle.trans (hlater moment hheld hlive haccepted expiry hexpiry)⟩
    · rw [expiry_apply _ haccepted, if_neg hvalue]
      exact ⟨held, hpruned, hlong⟩
  · rw [apply_of_not_accepted haccepted]
    exact ⟨held, hheld, hlong⟩

theorem expiry_registerAll_kept {calls : List Registration} :
    ∀ {redactor : Redactor} {held : Option Instant}, redactor.expiry call.value = some held →
      NoEarlier held call.expiresAt →
      (∀ later ∈ calls, later.Accepted → call.Outlives later.now) →
      (∀ front later back, calls = front ++ later :: back →
        Lengthens (registerAll front redactor) later) →
      ((registerAll calls redactor).expiry call.value).isSome = true := by
  induction calls with
  | nil =>
      intro redactor held hheld _ _ _
      show (redactor.expiry call.value).isSome = true
      rw [hheld]
      rfl
  | cons later calls ih =>
      intro redactor held hheld hlong hnow hlengthens
      obtain ⟨held', hheld', hlong'⟩ := expiry_apply_kept hheld hlong (hnow later List.mem_cons_self)
        (hlengthens [] later calls rfl)
      refine ih hheld' hlong' (fun c hc => hnow c (List.mem_cons_of_mem _ hc)) ?_
      rintro front c back rfl
      exact hlengthens (later :: front) c back rfl

theorem NeverShortened.remembers {calls : List Registration} (h : NeverShortened calls) :
    RemembersAll calls := by
  rintro front call back rfl haccepted hnow
  obtain ⟨held, hheld, hlong⟩ := expiry_apply_self (registerAll front .empty) haccepted
  have hkept := expiry_registerAll_kept hheld hlong hnow fun front' later back' hback => by
    have hlengthens := h (front ++ call :: front') later back' (by rw [hback]; simp)
    rw [registerAll, List.foldl_append] at hlengthens
    exact hlengthens
  rw [Redactor.knows, registerAll, List.foldl_append]
  exact hkept

theorem registered_of_expiry {calls : List Registration} {moment : Instant}
    (h : (registerAll calls .empty).expiry value = some (some moment)) :
    ∃ front call back, calls = front ++ call :: back ∧ call.value = value ∧ call.Accepted ∧
      call.expiresAt = some moment ∧ ∀ later ∈ back, later.Accepted → later.now < moment := by
  induction calls using List.reverseRecOn with
  | nil => cases h
  | append_singleton calls last ih =>
      rw [registerAll_concat] at h
      by_cases haccepted : last.Accepted
      · rw [expiry_apply _ haccepted] at h
        split at h
        · rename_i hvalue
          have hset := Option.some.inj h
          split at hset
          · cases hset
          · exact ⟨calls, last, [], rfl, hvalue.symm, haccepted, hset, fun _ hlater => by cases hlater⟩
        · rw [expiry_prune, Option.filter_eq_some_iff] at h
          obtain ⟨front, call, back, rfl, hvalue, hcall, hexpires, hback⟩ := ih h.1
          refine ⟨front, call, back ++ [last], by simp, hvalue, hcall, hexpires, fun later hlater => ?_⟩
          rcases List.mem_append.mp hlater with hlater | hlater
          · exact hback later hlater
          · obtain rfl := List.mem_singleton.mp hlater
            exact fun _ => of_decide_eq_true h.2
      · rw [apply_of_not_accepted haccepted] at h
        obtain ⟨front, call, back, rfl, hvalue, hcall, hexpires, hback⟩ := ih h
        refine ⟨front, call, back ++ [last], by simp, hvalue, hcall, hexpires, fun later hlater => ?_⟩
        rcases List.mem_append.mp hlater with hlater | hlater
        · exact hback later hlater
        · obtain rfl := List.mem_singleton.mp hlater
          exact fun h => absurd h haccepted

theorem forgotten_of_shortened {front : List Registration} {other : String}
    (h : ¬ Lengthens (registerAll front .empty) call)
    (hother : minKnownSecretLength ≤ other.length) (hne : other ≠ call.value) :
    ∃ now, ¬ RemembersAll (front ++ [call] ++ [⟨other, none, now⟩]) := by
  unfold Lengthens at h
  push Not at h
  obtain ⟨moment, hheld, hlive, haccepted, expiry, hexpiry, hshort⟩ := h
  obtain ⟨before, first, back, rfl, hvalue, hfirst, hexpires, hback⟩ := registered_of_expiry hheld
  refine ⟨max expiry call.now, fun hremembers => ?_⟩
  have hknown := hremembers before first (back ++ [call, ⟨other, none, max expiry call.now⟩])
    (by simp) hfirst ?_
  · -- The call has put `expiry` in place of `moment`, and the last reading has reached it.
    have hset : (registerAll (before ++ first :: back ++ [call]) .empty).expiry call.value =
        some (some expiry) := by
      rw [registerAll_concat, expiry_apply _ haccepted, if_pos rfl, expiry_prune, hheld,
        Option.filter_some, Option.all_some, if_pos (decide_eq_true hlive), Option.getD_some, hexpiry,
        if_neg (by simp)]
    have hnone : (registerAll (before ++ first :: back ++ [call] ++
        [⟨other, none, max expiry call.now⟩]) .empty).expiry call.value = none := by
      have hforeign : (⟨other, none, max expiry call.now⟩ : Registration).Accepted := hother
      rw [registerAll_concat, expiry_apply _ hforeign, if_neg hne.symm, expiry_prune, hset,
        Option.filter_some, Option.all_some, if_neg]
      simp
    rw [hvalue, Redactor.knows, hnone] at hknown
    cases hknown
  · intro later hlater hlong reading hexp
    obtain rfl := Option.some.inj (hexpires.symm.trans hexp)
    rcases List.mem_append.mp hlater with hlater | hlater
    · exact hback later hlater hlong
    · rcases List.mem_pair.mp hlater with rfl | rfl
      · exact hlive
      · exact max_lt hshort hlive

end lifetimes

/-- A text of at least the required length that is none of these values. -/
def otherSecret (calls : List Registration) : String :=
  String.ofList (List.replicate (minKnownSecretLength + Keyed.fresh (calls.map (·.value.length))) 'x')

theorem otherSecret_length (calls : List Registration) :
    (otherSecret calls).length =
      minKnownSecretLength + Keyed.fresh (calls.map (·.value.length)) := by
  rw [otherSecret, String.length_ofList, List.length_replicate]

theorem otherSecret_ne {calls : List Registration} {call : Registration} (h : call ∈ calls) :
    otherSecret calls ≠ call.value := by
  intro heq
  have hlength := otherSecret_length calls
  have hfresh := Keyed.lt_fresh (List.mem_map_of_mem (f := fun c => c.value.length) h)
  rw [heq] at hlength
  omega

/-- **Lifetimes**: registrations that never shorten the lifetime of a value keep each secret known
as long as it was registered for, and if one does, there is a moment before that at which the
secret is forgotten: the next registration of another value forgets it. -/
theorem registered_secret_remembered_iff (calls : List Registration) :
    (NeverShortened calls → RemembersAll calls) ∧
    (NeverShortened calls ↔ ∀ front, front <+: calls → ∀ other : Registration,
      (∀ call ∈ front, other.value ≠ call.value) → RemembersAll (front ++ [other])) := by
  refine ⟨NeverShortened.remembers, fun h front hfront other hother => ?_, fun h => ?_⟩
  · refine NeverShortened.remembers fun before call back heq => ?_
    obtain ⟨rest, rfl⟩ := hfront
    rcases List.eq_nil_or_concat back with rfl | ⟨back', last, rfl⟩
    · -- The other value is not known before.
      obtain ⟨rfl, hlast⟩ := List.append_inj' heq rfl
      obtain rfl := List.singleton_injective hlast
      intro moment hheld
      obtain ⟨before', first, back, hsplit, hvalue, -⟩ := registered_of_expiry hheld
      refine absurd hvalue.symm (hother first ?_)
      rw [hsplit]
      exact List.mem_append_right _ List.mem_cons_self
    · have hfront : front = before ++ call :: back' := by
        rw [List.concat_eq_append, ← List.cons_append, ← List.append_assoc] at heq
        exact (List.append_inj' heq rfl).1
      exact h before call (back' ++ rest) (by rw [hfront]; simp)
  · intro front call back heq
    by_contra hshort
    have hlong : minKnownSecretLength ≤ (otherSecret calls).length := by
      rw [otherSecret_length]
      omega
    have hmem : call ∈ calls := by
      rw [heq]
      exact List.mem_append_right _ List.mem_cons_self
    obtain ⟨now, hforgotten⟩ := forgotten_of_shortened hshort hlong (otherSecret_ne hmem)
    refine hforgotten (h (front ++ [call]) ⟨back, by rw [heq]; simp⟩ ⟨_, none, now⟩ fun c hc => ?_)
    refine otherSecret_ne ?_
    rw [heq]
    rcases List.mem_append.mp hc with hc | hc
    · exact List.mem_append_left _ hc
    · obtain rfl := List.mem_singleton.mp hc
      exact List.mem_append_right _ List.mem_cons_self

/-- A token registered until 100 and then again until 50 is forgotten at 60. -/
theorem shortened_secret_is_forgotten : ¬ ∀ calls, RemembersAll calls := by
  intro h
  have hknown := h [⟨"ya29-token", some 100, 0⟩, ⟨"ya29-token", some 50, 1⟩, ⟨"another-token", none, 60⟩]
    [] _ _ rfl (by decide) (by decide)
  exact absurd hknown (by decide)

end PersonalOS
