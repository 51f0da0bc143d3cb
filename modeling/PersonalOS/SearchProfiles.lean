import PersonalOS.UniqueRows
import PersonalOS.ProfileRows
import Mathlib.Data.List.MinMax
import Mathlib.Data.List.Range

/-! # Versions of candidate profiles

`SqlSearchProfileStore` of `personalos.persistence.search_profiles`: any number of requests create, update and
read profiles of any candidates.

* **Writing.** `create` writes version 1 and, with it, the candidate's row; `update` reads the latest
  version and writes the next one.  The unique index decides between two that write the same number.
* **Reading.** `get` reads a version, or the latest.
* **Versions.** In any interleaving the versions of a candidate are 1, 2, 3 and so on, in the order in which
  they were written, and stay as they are; no two requests are told that they wrote the same one, and
  who is told of a conflict wrote nothing (`profile_versions`). -/

namespace PersonalOS

open Concurrent Concurrent.RowTable

/-- A row of `users`. -/
structure UserRow where
  id : UUID
  displayName : Option String
deriving DecidableEq, Repr

structure ProfileTables where
  users : List UserRow
  profiles : List CandidateProfileRow

/-- What a transaction is handed: the clock, and whether the database fails, before or after the commit. -/
structure ProfileInput where
  now : Time
  failure : Option (String × Bool)

inductive ProfileError where
  | database (error : String)
  /-- `user … already has a profile; update it to write a new version`. -/
  | alreadyExists (userId : UUID)
  /-- `profile v… for user … was written by another request; read the latest version and try again`. -/
  | writtenByAnother (userId : UUID) (profileVersion : ℕ)
  /-- `user … has no profile to update; create one first`. -/
  | nothingToUpdate (userId : UUID)
  /-- `user … has no profile v…`. -/
  | notFound (userId : UUID) (profileVersion : Option ℕ)
  /-- The candidate's row was written by another request. -/
  | userExists (userId : UUID)
  | unreadable (error : ProfileRowError)
deriving DecidableEq, Repr

/-- One stored version of a profile. -/
structure CandidateProfileVersion where
  userId : UUID
  profileVersion : ℕ
  createdAt : Time
  profile : CandidateProfileInput

inductive ProfileCall where
  | create (userId : UUID) (profile : CandidateProfileInput) (displayName : Option String)
  | update (userId : UUID) (profile : CandidateProfileInput)
  | get (userId : UUID) (profileVersion : Option ℕ)

namespace SqlSearchProfileStore

abbrev ProfileProgram (α : Type) := Prog ProfileInput ProfileTables ProfileError α

def profiles : RowTable ProfileTables CandidateProfileRow (UUID × ℕ) where
  rows := (·.profiles)
  key row := (row.userId, row.profileVersion)
  add row tables := { tables with profiles := tables.profiles ++ [row] }
  rows_add _ _ := rfl

def failure (i : ProfileInput) : Option (ProfileError × Bool) :=
  i.failure.map fun (error, committed) => (.database error, committed)

/-- The highest-numbered version of a candidate's profile. -/
def latest (userId : UUID) (tables : ProfileTables) : Option CandidateProfileRow :=
  (tables.profiles.filter fun row => row.userId = userId).argmax (·.profileVersion)

def getLatestByUserId (userId : UUID) : ProfileProgram (Option CandidateProfileRow) :=
  transaction failure fun _ tables => (latest userId tables, tables)

/-- The version that a row describes. -/
def profileVersionFromRow (row : CandidateProfileRow) : ProfileProgram CandidateProfileVersion :=
  match profileFromRow row with
  | .ok profile => return { userId := row.userId, profileVersion := row.profileVersion,
                            createdAt := row.createdAt, profile }
  | .error error => .raise (.unreadable error)

/-- The transaction that writes a version, and with it the candidate's row if that was missing. -/
def insert (user : Option UserRow) (row : CandidateProfileRow) (tables : ProfileTables) :
    Except ProfileError CandidateProfileRow × ProfileTables :=
  if user.any (fun user => (Keyed.lookup (·.id) user.id tables.users).isSome) = true then
    (.error (.userExists row.userId), tables)
  else if Keyed.lookup profiles.key (row.userId, row.profileVersion) tables.profiles = none then
    (.ok row, { users := tables.users ++ user.toList, profiles := tables.profiles ++ [row] })
  else (.error (.writtenByAnother row.userId row.profileVersion), tables)

def write (user : Option UserRow) (userId : UUID) (profileVersion : ℕ) (profile : CandidateProfileInput) :
    ProfileProgram CandidateProfileVersion := do
  match ← transaction failure fun i => insert user (toRow userId profileVersion profile i.now) with
  | .ok row => profileVersionFromRow row
  | .error error => .raise error

/-- Write version 1 of a candidate's profile. -/
def create (userId : UUID) (profile : CandidateProfileInput) (displayName : Option String) :
    ProfileProgram CandidateProfileVersion := do
  match ← getLatestByUserId userId with
  | some _ => .raise (.alreadyExists userId)
  | none =>
      let user ← transaction failure fun _ tables => (Keyed.lookup (·.id) userId tables.users, tables)
      let missing := if user.isNone then some { id := userId, displayName } else none
      write missing userId 1 profile

/-- Write the next version of a candidate's profile. -/
def update (userId : UUID) (profile : CandidateProfileInput) : ProfileProgram CandidateProfileVersion := do
  match ← getLatestByUserId userId with
  | none => .raise (.nothingToUpdate userId)
  | some row => write none userId (row.profileVersion + 1) profile

/-- One version of a candidate's profile, the latest when none is named. -/
def get (userId : UUID) (profileVersion : Option ℕ) : ProfileProgram CandidateProfileVersion := do
  let row ← match profileVersion with
    | none => getLatestByUserId userId
    | some version => profiles.find failure (userId, version)
  match row with
  | none => .raise (.notFound userId profileVersion)
  | some row => profileVersionFromRow row

def perform : ProfileCall → ProfileProgram CandidateProfileVersion
  | .create userId profile displayName => create userId profile displayName
  | .update userId profile => update userId profile
  | .get userId profileVersion => get userId profileVersion

/-! ### One request among others -/

theorem latest_eq_some {userId : UUID} {tables : ProfileTables} {row : CandidateProfileRow}
    (h : latest userId tables = some row) : row ∈ tables.profiles ∧ row.userId = userId ∧
      ∀ old ∈ tables.profiles, old.userId = userId → old.profileVersion ≤ row.profileVersion := by
  obtain ⟨hrow, hid⟩ := List.mem_filter.mp (List.argmax_mem h)
  refine ⟨hrow, of_decide_eq_true hid, fun old hold hold' => ?_⟩
  exact List.le_of_mem_argmax (List.mem_filter.mpr ⟨hold, decide_eq_true hold'⟩) h

theorem latest_eq_none {userId : UUID} {tables : ProfileTables} (h : latest userId tables = none) :
    ∀ row ∈ tables.profiles, row.userId ≠ userId := by
  intro row hrow hid
  have hempty := List.argmax_eq_none.mp h
  exact absurd (List.mem_filter.mpr ⟨hrow, decide_eq_true hid⟩) (hempty ▸ List.not_mem_nil)

section calls

variable {τ : Type} [DecidableEq τ] {calls : τ → ProfileCall} {t : τ}
variable {x x' : ProfileTables × List (τ × UUID × ℕ)}

/-- The rows that a request may add: version 1, or the one after a version that is there. -/
def Wanted (calls : τ → ProfileCall) (t : τ) (rows : List CandidateProfileRow) (row : CandidateProfileRow) : Prop :=
  ∃ profile now, row = toRow row.userId row.profileVersion profile now ∧
    ((∃ displayName, calls t = .create row.userId profile displayName ∧ row.profileVersion = 1) ∨
      calls t = .update row.userId profile ∧
        ∃ old ∈ rows, old.userId = row.userId ∧ old.profileVersion + 1 = row.profileVersion)

/-- A request may add the row to the tables. -/
def May (calls : τ → ProfileCall) (t : τ) (tables : ProfileTables) (row : CandidateProfileRow) : Prop :=
  Wanted calls t tables.profiles row

/-- A version was written, and the request noted it. -/
def Written (t : τ) (userId : UUID) (profileVersion : ℕ) (profile : CandidateProfileInput)
    (answer : CandidateProfileVersion) (x : ProfileTables × List (τ × UUID × ℕ)) : Prop :=
  ∃ now, answer = ⟨userId, profileVersion, now, profile⟩ ∧
    toRow userId profileVersion profile now ∈ x.1.profiles ∧ mine t x.2 = [(userId, profileVersion)]

/-- What an error says of the tables, and of those that the request began with. -/
def Explained (before after : List CandidateProfileRow) : ProfileError → Prop
  | .alreadyExists userId => ∃ row ∈ after, row.userId = userId
  | .writtenByAnother userId profileVersion =>
      ∃ row ∈ after, row.userId = userId ∧ row.profileVersion = profileVersion
  | .nothingToUpdate userId => ∀ row ∈ before, row.userId ≠ userId
  | .notFound userId profileVersion => ∀ row ∈ before, row.userId = userId →
      ∃ version, profileVersion = some version ∧ row.profileVersion ≠ version
  | _ => True

/-- A request failed: the database did, or the request wrote nothing and says why. -/
def Failed (t : τ) (before : List CandidateProfileRow) (error : ProfileError)
    (x : ProfileTables × List (τ × UUID × ℕ)) : Prop :=
  (∃ detail, error = .database detail) ∨ mine t x.2 = [] ∧ Explained before x.1.profiles error

omit [DecidableEq τ] in
theorem Explained.mono {before after after' : List CandidateProfileRow} {error : ProfileError}
    (h : Explained before after error) (hsub : after ⊆ after') : Explained before after' error := by
  cases error with
  | alreadyExists userId =>
      obtain ⟨row, hrow, hid⟩ := h
      exact ⟨row, hsub hrow, hid⟩
  | writtenByAnother userId profileVersion =>
      obtain ⟨row, hrow, hkey⟩ := h
      exact ⟨row, hsub hrow, hkey⟩
  | nothingToUpdate userId => exact h
  | notFound userId profileVersion => exact h
  | database detail => trivial
  | userExists userId => trivial
  | unreadable error => trivial

theorem Failed.leaves {before : List CandidateProfileRow} {error : ProfileError} (h : Failed t before error x)
    (hr : profiles.Leaves t x x') : Failed t before error x' := by
  rcases h with h | ⟨hmine, hwhy⟩
  · exact .inl h
  · exact .inr ⟨hr.mine.trans hmine, hwhy.mono hr.rows.subset⟩

theorem database_failed {before : List CandidateProfileRow} :
    ∀ i e committed, failure i = some (e, committed) → ∀ x, Failed t before e x := by
  intro i e committed hi _
  obtain ⟨⟨detail, committed'⟩, -, hpair⟩ := Option.map_eq_some_iff.mp hi
  exact .inl ⟨detail, (Prod.mk.inj hpair).1.symm⟩

theorem raise_wp {before : List CandidateProfileRow} {error : ProfileError}
    {Q : CandidateProfileVersion → ProfileTables × List (τ × UUID × ℕ) → Prop} (h : Failed t before error x) :
    ((Prog.raise error : ProfileProgram CandidateProfileVersion).noting (profiles.note t)).wp
      (profiles.contract (May calls) t) Q (Failed t before) x :=
  fun _ hr => h.leaves hr

/-- Reading a version back right after it was written. -/
theorem profileVersionFromRow_toRow (userId : UUID) (profileVersion : ℕ) (profile : CandidateProfileInput)
    (now : Time) : profileVersionFromRow (toRow userId profileVersion profile now) =
      .ret ⟨userId, profileVersion, now, profile⟩ := by
  unfold profileVersionFromRow
  rw [profileFromRow_toRow]
  rfl

/-- What writing a version comes to. -/
theorem write_wp {user : Option UserRow} {userId : UUID} {profileVersion : ℕ} {profile : CandidateProfileInput}
    {before : List CandidateProfileRow} (hmine : mine t x.2 = [])
    (hwanted : ∀ x', profiles.Leaves t x x' → ∀ now,
      Wanted calls t x'.1.profiles (toRow userId profileVersion profile now)) :
    ((write user userId profileVersion profile).noting (profiles.note t)).wp (profiles.contract (May calls) t)
      (Written t userId profileVersion profile) (Failed t before) x := by
  refine RowTable.wp_transaction database_failed fun x₁ hr₁ i => ?_
  have hmine₁ : mine t x₁.2 = [] := hr₁.mine.trans hmine
  simp only [insert]
  split
  · rw [note_kept rfl]
    exact ⟨.kept rfl trivial rfl, raise_wp (.inr ⟨hmine₁, trivial⟩)⟩
  · split
    case isTrue hnew =>
      rw [note_added (toRow userId profileVersion profile i.now) rfl]
      refine ⟨.added _ hnew (hwanted x₁ hr₁ i.now) rfl trivial rfl, ?_⟩
      dsimp only
      rw [profileVersionFromRow_toRow]
      intro x₂ hr₂
      refine ⟨i.now, rfl, hr₂.rows.subset (List.mem_append_right _ List.mem_cons_self), ?_⟩
      rw [hr₂.mine]
      show mine t ((t, (userId, profileVersion)) :: x₁.2) = _
      rw [mine_cons, if_pos rfl, hmine₁]
    case isFalse hold =>
      rw [note_kept rfl]
      refine ⟨.kept rfl trivial rfl, raise_wp (.inr ⟨hmine₁, ?_⟩)⟩
      obtain ⟨row, hrow⟩ := Option.ne_none_iff_exists'.mp hold
      obtain ⟨hmem, hkey⟩ := Keyed.lookup_eq_some hrow
      exact ⟨row, hmem, congrArg Prod.fst hkey, congrArg Prod.snd hkey⟩

/-- What reading a version comes to: it is there, and the latest is as late as any that was there at first. -/
def Read (before : List CandidateProfileRow) (userId : UUID) (profileVersion : Option ℕ)
    (answer : CandidateProfileVersion) (x : ProfileTables × List (τ × UUID × ℕ)) : Prop :=
  ∃ row ∈ x.1.profiles, ∃ profile, profileFromRow row = .ok profile ∧
    answer = ⟨userId, row.profileVersion, row.createdAt, profile⟩ ∧ row.userId = userId ∧
    (∀ version, profileVersion = some version → row.profileVersion = version) ∧
    (profileVersion = none → ∀ old ∈ before, old.userId = userId → old.profileVersion ≤ row.profileVersion)

theorem profileVersionFromRow_wp {before : List CandidateProfileRow} {userId : UUID} {profileVersion : Option ℕ}
    {row : CandidateProfileRow} (hmine : mine t x.2 = []) (hrow : row ∈ x.1.profiles) (hid : row.userId = userId)
    (hversion : ∀ version, profileVersion = some version → row.profileVersion = version)
    (hlatest : profileVersion = none → ∀ old ∈ before, old.userId = userId →
      old.profileVersion ≤ row.profileVersion) :
    ((profileVersionFromRow row).noting (profiles.note t)).wp (profiles.contract (May calls) t)
      (fun answer x => Read before userId profileVersion answer x ∧ mine t x.2 = []) (Failed t before) x := by
  unfold profileVersionFromRow
  split
  case h_1 profile hprofile =>
      intro x₁ hr₁
      refine ⟨⟨row, hr₁.rows.subset hrow, profile, hprofile, ?_, hid, hversion, hlatest⟩, hr₁.mine.trans hmine⟩
      rw [hid]
  case h_2 error _ => exact raise_wp (.inr ⟨hmine, trivial⟩)

theorem create_wp {userId : UUID} {profile : CandidateProfileInput} {displayName : Option String}
    (hcall : calls t = .create userId profile displayName) (hmine : mine t x.2 = []) :
    ((create userId profile displayName).noting (profiles.note t)).wp (profiles.contract (May calls) t)
      (Written t userId 1 profile) (Failed t x.1.profiles) x := by
  refine wp_keep database_failed (fun _ _ => ⟨rfl, trivial⟩) fun x₁ hr₁ _ => ?_
  dsimp only
  have hmine₁ := hr₁.mine.trans hmine
  cases hlatest : latest userId x₁.1 with
  | some row =>
      obtain ⟨hrow, hid, -⟩ := latest_eq_some hlatest
      exact raise_wp (.inr ⟨hmine₁, row, hrow, hid⟩)
  | none =>
      refine wp_keep database_failed (fun _ _ => ⟨rfl, trivial⟩) fun x₂ hr₂ _ => ?_
      exact write_wp (hr₂.mine.trans hmine₁) fun x₃ _ now => ⟨profile, now, rfl, .inl ⟨displayName, hcall, rfl⟩⟩

theorem update_wp {userId : UUID} {profile : CandidateProfileInput}
    (hcall : calls t = .update userId profile) (hmine : mine t x.2 = []) :
    ((update userId profile).noting (profiles.note t)).wp (profiles.contract (May calls) t)
      (fun answer x' => ∃ old ∈ x'.1.profiles, old.userId = userId ∧
        Written t userId (old.profileVersion + 1) profile answer x') (Failed t x.1.profiles) x := by
  refine wp_keep database_failed (fun _ _ => ⟨rfl, trivial⟩) fun x₁ hr₁ _ => ?_
  dsimp only
  have hmine₁ := hr₁.mine.trans hmine
  cases hlatest : latest userId x₁.1 with
  | none =>
      have hnone := latest_eq_none hlatest
      exact raise_wp (.inr ⟨hmine₁, fun row hrow => hnone row (hr₁.rows.subset hrow)⟩)
  | some old =>
      obtain ⟨hold, hid, -⟩ := latest_eq_some hlatest
      have hwrite : ((write none userId (old.profileVersion + 1) profile).noting (profiles.note t)).wp
          (profiles.contract (May calls) t) (Written t userId (old.profileVersion + 1) profile)
          (Failed t x.1.profiles) (x₁.1, x₁.2) :=
        write_wp hmine₁ fun x₂ hr₂ now =>
          ⟨profile, now, rfl, .inr ⟨hcall, old, hr₂.rows.subset hold, hid, rfl⟩⟩
      refine Prog.wp_mono (wp_grows hwrite List.prefix_rfl) (fun answer x₂ h₂ => ?_) fun _ _ h => h.1
      exact ⟨old, h₂.2.subset hold, hid, h₂.1⟩

theorem get_wp {userId : UUID} {profileVersion : Option ℕ} (hmine : mine t x.2 = []) :
    ((get userId profileVersion).noting (profiles.note t)).wp (profiles.contract (May calls) t)
      (fun answer x' => Read x.1.profiles userId profileVersion answer x' ∧ mine t x'.2 = [])
      (Failed t x.1.profiles) x := by
  unfold get
  cases profileVersion with
  | none =>
      refine wp_keep database_failed (fun _ _ => ⟨rfl, trivial⟩) fun x₁ hr₁ _ => ?_
      dsimp only
      cases hlatest : latest userId x₁.1 with
      | none =>
          have hnone := latest_eq_none hlatest
          refine raise_wp (.inr ⟨hr₁.mine.trans hmine, fun row hrow hid => ?_⟩)
          exact absurd hid (hnone row (hr₁.rows.subset hrow))
      | some row =>
          obtain ⟨hrow, hid, hmax⟩ := latest_eq_some hlatest
          refine profileVersionFromRow_wp (hr₁.mine.trans hmine) hrow hid
            (fun version h => absurd h.symm (Option.some_ne_none version)) fun _ old hold => ?_
          exact hmax old (hr₁.rows.subset hold)
  | some version =>
      refine wp_find database_failed fun x₁ hr₁ => ?_
      cases hrow : Keyed.lookup profiles.key (userId, version) (profiles.rows x₁.1) with
      | none =>
          refine raise_wp (.inr ⟨hr₁.mine.trans hmine, fun row hrow' hid => ⟨version, rfl, fun hversion => ?_⟩⟩)
          refine Keyed.lookup_eq_none.mp hrow row (hr₁.rows.subset hrow') ?_
          exact Prod.ext hid hversion
      | some row =>
          obtain ⟨hmem, hkey⟩ := Keyed.lookup_eq_some hrow
          refine profileVersionFromRow_wp (hr₁.mine.trans hmine) hmem (congrArg Prod.fst hkey)
            (fun version' h => ?_) fun h => absurd h (Option.some_ne_none version)
          rw [← Option.some.inj h]
          exact congrArg Prod.snd hkey

end calls

/-! ### All requests -/

/-- The numbers of a candidate's versions, in the order in which they were written. -/
def versionsOf (userId : UUID) (rows : List CandidateProfileRow) : List ℕ :=
  (rows.filter fun row => row.userId = userId).map (·.profileVersion)

/-- Every candidate's versions are 1, 2, 3 and so on. -/
def Numbered (rows : List CandidateProfileRow) : Prop :=
  ∀ userId, versionsOf userId rows = List.range' 1 (versionsOf userId rows).length

theorem mem_versionsOf {rows : List CandidateProfileRow} {userId : UUID} {version : ℕ} :
    version ∈ versionsOf userId rows ↔ ∃ row ∈ rows, row.userId = userId ∧ row.profileVersion = version := by
  simp [versionsOf, and_assoc]

theorem versionsOf_concat (userId : UUID) (rows : List CandidateProfileRow) (row : CandidateProfileRow) :
    versionsOf userId (rows ++ [row]) =
      versionsOf userId rows ++ if row.userId = userId then [row.profileVersion] else [] := by
  unfold versionsOf
  rw [List.filter_append, List.map_append, List.filter_cons]
  by_cases h : row.userId = userId
  · rw [if_pos (decide_eq_true h), if_pos h]
    rfl
  · rw [if_neg (by simpa using h), if_neg h]
    rfl

theorem nodup_keys {rows : List CandidateProfileRow} (h : ∀ userId, (versionsOf userId rows).Nodup) :
    (rows.map profiles.key).Nodup := by
  induction rows using List.reverseRecOn with
  | nil => exact List.nodup_nil
  | append_singleton rows row ih =>
      rw [List.map_append, List.nodup_append]
      refine ⟨ih fun userId => ?_, List.nodup_singleton _, fun key hkey key' hkey' heq => ?_⟩
      · have := h userId
        rw [versionsOf_concat] at this
        exact (List.nodup_append.mp this).1
      · obtain ⟨old, hold, rfl⟩ := List.mem_map.mp hkey
        rw [List.mem_singleton.mp hkey'] at heq
        have hmem : row.profileVersion ∈ versionsOf row.userId rows :=
          mem_versionsOf.mpr ⟨old, hold, congrArg Prod.fst heq, congrArg Prod.snd heq⟩
        have := h row.userId
        rw [versionsOf_concat, if_pos rfl] at this
        exact (List.nodup_append.mp this).2.2 _ hmem _ List.mem_cons_self rfl

theorem Numbered.nodup {rows : List CandidateProfileRow} (h : Numbered rows) : (rows.map profiles.key).Nodup :=
  nodup_keys fun userId => h userId ▸ List.nodup_range'

/-- A version that may be written is the next one. -/
theorem Numbered.concat {rows : List CandidateProfileRow} {row : CandidateProfileRow} (h : Numbered rows)
    (hnew : ((rows ++ [row]).map profiles.key).Nodup)
    (hnext : row.profileVersion = 1 ∨
      ∃ old ∈ rows, old.userId = row.userId ∧ old.profileVersion + 1 = row.profileVersion) :
    Numbered (rows ++ [row]) := by
  intro userId
  rw [versionsOf_concat]
  by_cases hid : row.userId = userId
  · subst hid
    rw [if_pos rfl, List.length_append, List.length_singleton, List.range'_1_concat, ← h row.userId]
    have hfresh : row.profileVersion ∉ versionsOf row.userId rows := by
      intro hmem
      obtain ⟨old, hold, hid, hversion⟩ := mem_versionsOf.mp hmem
      rw [List.map_append, List.nodup_append] at hnew
      exact hnew.2.2 _ (List.mem_map_of_mem hold) _ List.mem_cons_self (Prod.ext hid hversion)
    have hnumber : row.profileVersion = 1 + (versionsOf row.userId rows).length := by
      rw [h row.userId, List.mem_range'_1] at hfresh
      rcases hnext with hfirst | ⟨old, hold, hid, hversion⟩
      · omega
      · have hbefore : old.profileVersion ∈ versionsOf row.userId rows := mem_versionsOf.mpr ⟨old, hold, hid, rfl⟩
        rw [h row.userId, List.mem_range'_1] at hbefore
        omega
    rw [hnumber]
  · rw [if_neg hid, List.append_nil]
    exact h userId

/-- The tables that requests begin with. -/
structure NumberedTables extends ProfileTables where
  numbered : Numbered profiles

/-- Requests on the same tables. -/
def requests {τ : Type} (calls : τ → ProfileCall) (tables : NumberedTables) :
    Pool τ ProfileInput ProfileTables ProfileError CandidateProfileVersion :=
  ⟨fun t => perform (calls t), tables.toProfileTables⟩

/-- What the tables and the answers of requests are like, `wrote` being who wrote which version, in order. -/
structure VersionHistory {τ : Type} (calls : τ → ProfileCall) (before after : List CandidateProfileRow)
    (wrote : List (τ × UUID × ℕ)) (procs : τ → ProfileProgram CandidateProfileVersion) : Prop where
  /-- Every candidate's versions are 1, 2, 3 and so on, in the order in which they were written. -/
  numbered : Numbered after
  kept : before <+: after
  keys : after.map profiles.key = before.map profiles.key ++ wrote.map (·.2)
  authors : ∀ row ∈ after, row ∈ before ∨ ∃ t, (t, profiles.key row) ∈ wrote ∧ Wanted calls t after row
  distinct : ∀ t u key, (t, key) ∈ wrote → (u, key) ∈ wrote → t = u
  created : ∀ t userId profile displayName answer, calls t = .create userId profile displayName →
    procs t = .ret answer → ∃ now, answer = ⟨userId, 1, now, profile⟩ ∧ toRow userId 1 profile now ∈ after ∧
      ∀ key, (t, key) ∈ wrote ↔ key = (userId, 1)
  updated : ∀ t userId profile answer, calls t = .update userId profile → procs t = .ret answer →
    ∃ now, ∃ old ∈ after, old.userId = userId ∧ answer = ⟨userId, old.profileVersion + 1, now, profile⟩ ∧
      toRow userId (old.profileVersion + 1) profile now ∈ after ∧
      ∀ key, (t, key) ∈ wrote ↔ key = (userId, old.profileVersion + 1)
  got : ∀ t userId profileVersion answer, calls t = .get userId profileVersion → procs t = .ret answer →
    ∃ row ∈ after, ∃ profile, profileFromRow row = .ok profile ∧
      answer = ⟨userId, row.profileVersion, row.createdAt, profile⟩ ∧ row.userId = userId ∧
      (∀ version, profileVersion = some version → row.profileVersion = version) ∧
      (profileVersion = none → ∀ old ∈ before, old.userId = userId → old.profileVersion ≤ row.profileVersion)
  failed : ∀ t error, procs t = .raise error → (∃ detail, error = .database detail) ∨
    (∀ key, (t, key) ∉ wrote) ∧ Explained before after error

/-- What a request comes to. -/
structure Performed {τ : Type} [DecidableEq τ] (calls : τ → ProfileCall) (t : τ) (before : List CandidateProfileRow)
    (answer : CandidateProfileVersion) (x : ProfileTables × List (τ × UUID × ℕ)) : Prop where
  created : ∀ userId profile displayName, calls t = .create userId profile displayName →
    Written t userId 1 profile answer x
  updated : ∀ userId profile, calls t = .update userId profile → ∃ old ∈ x.1.profiles, old.userId = userId ∧
    Written t userId (old.profileVersion + 1) profile answer x
  got : ∀ userId profileVersion, calls t = .get userId profileVersion →
    Read before userId profileVersion answer x

theorem perform_wp {τ : Type} [DecidableEq τ] (calls : τ → ProfileCall) (t : τ) (tables : ProfileTables) :
    ((perform (calls t)).noting (profiles.note t)).wp (profiles.contract (May calls) t)
      (Performed calls t tables.profiles) (Failed t tables.profiles) (tables, []) := by
  cases hcall : calls t with
  | create userId profile displayName =>
      refine Prog.wp_mono (create_wp hcall rfl) (fun answer x h => ⟨?_, ?_, ?_⟩) fun _ _ h => h
      · intro userId' profile' displayName' hcall'
        cases hcall.symm.trans hcall'
        exact h
      · exact fun _ _ hcall' => absurd (hcall.symm.trans hcall') (by simp)
      · exact fun _ _ hcall' => absurd (hcall.symm.trans hcall') (by simp)
  | update userId profile =>
      refine Prog.wp_mono (update_wp hcall rfl) (fun answer x h => ⟨?_, ?_, ?_⟩) fun _ _ h => h
      · exact fun _ _ _ hcall' => absurd (hcall.symm.trans hcall') (by simp)
      · intro userId' profile' hcall'
        cases hcall.symm.trans hcall'
        exact h
      · exact fun _ _ hcall' => absurd (hcall.symm.trans hcall') (by simp)
  | get userId profileVersion =>
      refine Prog.wp_mono (get_wp rfl) (fun answer x h => ⟨?_, ?_, ?_⟩) fun _ _ h => h
      · exact fun _ _ _ hcall' => absurd (hcall.symm.trans hcall') (by simp)
      · exact fun _ _ hcall' => absurd (hcall.symm.trans hcall') (by simp)
      · intro userId' profileVersion' hcall'
        cases hcall.symm.trans hcall'
        exact h.1

theorem Wanted.mono {τ : Type} {calls : τ → ProfileCall} {t : τ} {rows rows' : List CandidateProfileRow}
    {row : CandidateProfileRow} (h : Wanted calls t rows row) (hsub : rows ⊆ rows') : Wanted calls t rows' row := by
  obtain ⟨profile, now, hrow, hcall | ⟨hcall, old, hold, hnext⟩⟩ := h
  · exact ⟨profile, now, hrow, .inl hcall⟩
  · exact ⟨profile, now, hrow, .inr ⟨hcall, old, hsub hold, hnext⟩⟩

/-- However requests are interleaved, and whichever of them crash or lose the database, the versions that they
wrote and the answers that they had form a `VersionHistory`. -/
theorem profile_versions {τ : Type} [DecidableEq τ] (calls : τ → ProfileCall) (tables : NumberedTables)
    (sched : List (τ × ProfileInput)) :
    ∃ wrote, VersionHistory calls tables.profiles ((requests calls tables).run sched).state.profiles wrote
      ((requests calls tables).run sched).procs := by
  obtain ⟨notes, htally, hret, hraise⟩ := run_tallied
    (fun t => perform_wp calls t tables.toProfileTables) tables.numbered.nodup sched
  have hnumbered : Numbered ((requests calls tables).run sched).state.profiles := by
    refine htally.inv tables.numbered fun t _ row hnew hwanted h => h.concat hnew ?_
    obtain ⟨profile, now, -, ⟨_, -, hfirst⟩ | ⟨-, hnext⟩⟩ := hwanted
    · exact .inl hfirst
    · exact .inr hnext
  obtain ⟨more, hmore, hkeys, hfrom⟩ := htally.added
  have hrows : ((requests calls tables).run sched).state.profiles = tables.profiles ++ more := hmore
  have hwrote : ∀ t key, (t, key) ∈ notes.reverse ↔ key ∈ mine t notes :=
    fun t key => List.mem_reverse.trans mem_mine.symm
  refine ⟨notes.reverse, hnumbered, ⟨more, hrows.symm⟩, ?_, fun row hrow => ?_, fun t u key ht hu => ?_,
    fun t userId profile displayName answer hcall hanswer => ?_, fun t userId profile answer hcall hanswer => ?_,
    fun t userId profileVersion answer hcall hanswer => ?_, fun t error herror => ?_⟩
  · rw [hrows, List.map_append, hkeys, List.map_reverse]
  · rw [hrows] at hrow
    rcases List.mem_append.mp hrow with hold | hnew
    · exact .inl hold
    · obtain ⟨t, hnote, front, hfront, tables₁, hs₁, -, hwanted⟩ := Tally.mem_added hfrom hnew
      refine .inr ⟨t, List.mem_reverse.mpr hnote, hwanted.mono ?_⟩
      have hbefore : tables₁.profiles = tables.profiles ++ front := hs₁
      rw [hrows, hbefore]
      exact ((List.prefix_append_right_inj tables.profiles).mpr hfront).subset
  · by_contra hne
    exact htally.mine_nodup.2 hne ((hwrote t key).mp ht) ((hwrote u key).mp hu)
  · obtain ⟨now, hans, hrow, hmine⟩ := (hret t answer hanswer).created userId profile displayName hcall
    refine ⟨now, hans, hrow, fun key => ?_⟩
    rw [hwrote, hmine, List.mem_singleton]
  · obtain ⟨old, hold, hid, now, hans, hrow, hmine⟩ := (hret t answer hanswer).updated userId profile hcall
    refine ⟨now, old, hold, hid, hans, hrow, fun key => ?_⟩
    rw [hwrote, hmine, List.mem_singleton]
  · exact (hret t answer hanswer).got userId profileVersion hcall
  · rcases hraise t error herror with hdatabase | ⟨hmine, hwhy⟩
    · exact .inl hdatabase
    · refine .inr ⟨fun key hkey => ?_, hwhy⟩
      rw [hwrote, hmine] at hkey
      exact absurd hkey List.not_mem_nil

end SqlSearchProfileStore

end PersonalOS
