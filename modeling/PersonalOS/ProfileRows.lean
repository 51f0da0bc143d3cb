import PersonalOS.JobPostings
import PersonalOS.Keyed
import Mathlib.Data.List.DropRight

/-! # Candidate profiles and their rows

The candidate profile of `personalos.domain.search_profiles` as a row of `candidate_profiles`, after
`personalos.persistence.search_profiles`.

* **Profiles.** A `CandidateProfileInput` has passed every check of its fields; a value that has not cannot be
  built.
* **Codecs.** A `FieldCodec` dumps a field to JSON and reads it back, checking it again.
* **Rows.** `storedPreferences` is what the writer stores beside roles and locations, `profileFromRow` and
  `searchProfileFromRow` are the readers.  What was written is read back, and the search is remote-only when
  the profile's only work mode is remote (`storedProfile_readBack`). -/

namespace PersonalOS

open Matching

/-! ### Profiles -/

def maxProfileItems : ℕ := 50

def maxProfileText : ℕ := 200

/-- A text of a profile: stripped, not empty and not too long. -/
def ProfileText := { text : String // strip text = text ∧ text ≠ "" ∧ text.length ≤ maxProfileText }
deriving DecidableEq

def ProfileTexts := { texts : List ProfileText // texts.length ≤ maxProfileItems }
deriving DecidableEq

/-- At most as many as there are. -/
def UpTo (n : ℕ) (α : Type) := { l : List α // l.length ≤ n }

instance {n : ℕ} {α : Type} [DecidableEq α] : DecidableEq (UpTo n α) :=
  inferInstanceAs (DecidableEq { l : List α // l.length ≤ n })

def ShortlistSize := { size : ℕ // 1 ≤ size ∧ size ≤ maxShortlistSize }
deriving DecidableEq

/-- The upper bound is not below the lower one. -/
def SalaryInOrder (salaryMin salaryMax : Option ℕ) : Prop :=
  ∀ lower ∈ salaryMin, ∀ upper ∈ salaryMax, lower ≤ upper

instance (salaryMin salaryMax : Option ℕ) : Decidable (SalaryInOrder salaryMin salaryMax) := by
  unfold SalaryInOrder
  infer_instance

/-- What the candidate is looking for, as they state it. -/
structure CandidateProfileInput where
  targetRoles : ProfileTexts
  targetLocations : ProfileTexts
  workModes : UpTo 3 WorkMode
  seniorityLevels : UpTo 6 SeniorityLevel
  employmentTypes : UpTo 5 EmploymentType
  requiresVisaSponsorship : Bool
  constraints : ProfileTexts
  keywords : ProfileTexts
  mustHaveSkills : ProfileTexts
  excludedCompanies : ProfileTexts
  salaryMin : Option ℕ
  salaryMax : Option ℕ
  minScore : Share
  maxShortlist : ShortlistSize
  salaryRange : SalaryInOrder salaryMin salaryMax

/-! ### Codecs -/

/-- A value of a stored JSON object, as far as the readers look into it. -/
inductive PreferenceValue where
  | null
  | flag (b : Bool)
  | number (q : ℚ)
  | texts (l : List String)
  /-- Any other value, and whether it counts as true. -/
  | other (truthy : Bool)
deriving DecidableEq

/-- How a field is dumped, and read back with its checks. -/
structure FieldCodec (α : Type) where
  dump : α → PreferenceValue
  parse : PreferenceValue → Option α
  parse_dump : ∀ a, parse (dump a) = some a

/-- A list is read element by element. -/
def parseAll {α β : Type} (parse : α → Option β) : List α → Option (List β)
  | [] => some []
  | a :: l => do
      let b ← parse a
      let rest ← parseAll parse l
      return b :: rest

theorem parseAll_map {α β : Type} {parse : α → Option β} {dump : β → α} (h : ∀ b, parse (dump b) = some b)
    (l : List β) : parseAll parse (l.map dump) = some l := by
  induction l with
  | nil => rfl
  | cons b l ih =>
      rw [List.map_cons, parseAll, h b, ih]
      rfl

theorem strip_strip (text : String) : strip (strip text) = strip text := by
  have htrim : stripChars (stripChars text.toList) = stripChars text.toList := by
    show ((((text.toList.dropWhile isSpace).rdropWhile isSpace).dropWhile isSpace).rdropWhile isSpace) =
      (text.toList.dropWhile isSpace).rdropWhile isSpace
    have hfront : ((text.toList.dropWhile isSpace).rdropWhile isSpace).dropWhile isSpace =
        (text.toList.dropWhile isSpace).rdropWhile isSpace := by
      refine List.dropWhile_eq_self_iff.mpr fun hlength => ?_
      have hkept := List.rdropWhile_prefix isSpace (l := text.toList.dropWhile isSpace)
      rw [hkept.getElem]
      exact List.dropWhile_get_zero_not _ _ (hlength.trans_le hkept.length_le)
    rw [hfront, List.rdropWhile_idempotent]
  unfold strip
  rw [String.toList_ofList, htrim]

def parseText (text : String) : Option ProfileText :=
  if h : strip text ≠ "" ∧ (strip text).length ≤ maxProfileText then some ⟨strip text, strip_strip text, h⟩
  else none

theorem parseText_val (text : ProfileText) : parseText text.val = some text := by
  obtain ⟨text, hstrip, hchecks⟩ := text
  unfold parseText
  have hchecks' : strip text ≠ "" ∧ (strip text).length ≤ maxProfileText := hstrip.symm ▸ hchecks
  rw [dif_pos hchecks']
  exact congrArg some (Subtype.ext hstrip)

/-- The list is no longer than allowed. -/
def boundedBy (n : ℕ) {α : Type} (l : List α) : Option (UpTo n α) :=
  if h : l.length ≤ n then some ⟨l, h⟩ else none

theorem boundedBy_val {n : ℕ} {α : Type} (l : UpTo n α) : boundedBy n l.val = some l := dif_pos l.property

def parseTexts (texts : List String) : Option ProfileTexts :=
  (parseAll parseText texts).bind (boundedBy maxProfileItems)

theorem parseTexts_val (texts : ProfileTexts) : parseTexts (texts.val.map (·.val)) = some texts := by
  unfold parseTexts
  rw [parseAll_map parseText_val]
  exact boundedBy_val (n := maxProfileItems) texts

def Matching.WorkMode.value : WorkMode → String
  | .remote => "remote"
  | .hybrid => "hybrid"
  | .onsite => "onsite"

/-- The member of an enumeration with this value. -/
def ofValue {α : Type} (members : List α) (value : α → String) (text : String) : Option α :=
  members.find? fun member => value member == text

/-- An enumeration dumps to its values. -/
def enumCodec {α : Type} (n : ℕ) (members : List α) (value : α → String)
    (h : ∀ member, ofValue members value (value member) = some member) : FieldCodec (UpTo n α) where
  dump members := .texts (members.val.map value)
  parse
    | .texts l => (parseAll (ofValue members value) l).bind (boundedBy n)
    | _ => none
  parse_dump := by
    intro l
    show (parseAll (ofValue members value) (l.val.map value)).bind (boundedBy n) = some l
    rw [parseAll_map h]
    exact boundedBy_val l

def workModeMembers : List WorkMode := [.remote, .hybrid, .onsite]

def seniorityMembers : List SeniorityLevel := [.intern, .junior, .mid, .senior, .staff, .principal]

def employmentMembers : List EmploymentType := [.fullTime, .partTime, .contract, .internship, .temporary]

theorem workMode_ofValue (member : WorkMode) :
    ofValue workModeMembers WorkMode.value member.value = some member := by
  cases member <;> decide +kernel

theorem seniority_ofValue (member : SeniorityLevel) :
    ofValue seniorityMembers SeniorityLevel.value member.value = some member := by
  cases member <;> decide +kernel

theorem employment_ofValue (member : EmploymentType) :
    ofValue employmentMembers EmploymentType.value member.value = some member := by
  cases member <;> decide +kernel

def workModesCodec : FieldCodec (UpTo 3 WorkMode) := enumCodec 3 workModeMembers WorkMode.value workMode_ofValue

def seniorityLevelsCodec : FieldCodec (UpTo 6 SeniorityLevel) :=
  enumCodec 6 seniorityMembers SeniorityLevel.value seniority_ofValue

def employmentTypesCodec : FieldCodec (UpTo 5 EmploymentType) :=
  enumCodec 5 employmentMembers EmploymentType.value employment_ofValue

def textsCodec : FieldCodec ProfileTexts where
  dump texts := .texts (texts.val.map (·.val))
  parse
    | .texts l => parseTexts l
    | _ => none
  parse_dump := parseTexts_val

def flagCodec : FieldCodec Bool where
  dump := .flag
  parse
    | .flag b => some b
    | _ => none
  parse_dump _ := rfl

/-- A whole number that is not negative. -/
def parseNat (q : ℚ) : Option ℕ := if q.den = 1 ∧ 0 ≤ q.num then some q.num.toNat else none

theorem parseNat_cast (n : ℕ) : parseNat n = some n := by
  unfold parseNat
  rw [if_pos ⟨Rat.den_natCast n, by rw [Rat.num_natCast]; exact Int.natCast_nonneg n⟩, Rat.num_natCast]
  rfl

def salaryCodec : FieldCodec (Option ℕ) where
  dump salary := salary.elim .null fun n => .number n
  parse
    | .null => some none
    | .number q => (parseNat q).map some
    | _ => none
  parse_dump := by
    intro salary
    cases salary with
    | none => rfl
    | some n =>
        show (parseNat n).map some = some (some n)
        rw [parseNat_cast]
        rfl

def scoreCodec : FieldCodec Share where
  dump score := .number score.val
  parse
    | .number q => if h : 0 ≤ q ∧ q ≤ 1 then some ⟨q, h⟩ else none
    | _ => none
  parse_dump score := dif_pos score.property

def shortlistCodec : FieldCodec ShortlistSize where
  dump size := .number (size.val : ℚ)
  parse
    | .number q => (parseNat q).bind fun n => if h : 1 ≤ n ∧ n ≤ maxShortlistSize then some ⟨n, h⟩ else none
    | _ => none
  parse_dump := by
    intro size
    show (parseNat (size.val : ℚ)).bind _ = some size
    rw [parseNat_cast]
    exact dif_pos size.property

/-! ### Rows -/

/-- The keys of the stored preferences that a reader knows, and any other. -/
inductive PreferenceKey where
  | workModes
  | seniorityLevels
  | employmentTypes
  | requiresVisaSponsorship
  | constraints
  | keywords
  | mustHaveSkills
  | excludedCompanies
  | salaryMin
  | salaryMax
  | minScore
  | maxShortlist
  | remoteOnly
  | other (name : String)
deriving DecidableEq, Repr

abbrev Preferences := List (PreferenceKey × PreferenceValue)

/-- `preferences.get(key)`. -/
def Preferences.get (key : PreferenceKey) (preferences : Preferences) : Option PreferenceValue :=
  (Keyed.lookup (·.1) key preferences).map (·.2)

/-- A row of `candidate_profiles`. -/
structure CandidateProfileRow where
  userId : UUID
  profileVersion : ℕ
  targetRoles : List String
  targetLocations : List String
  preferences : Preferences
  createdAt : Time
deriving DecidableEq

/-- What is stored of a profile beside roles and locations. -/
def storedPreferences (profile : CandidateProfileInput) : Preferences :=
  [(.workModes, workModesCodec.dump profile.workModes),
   (.seniorityLevels, seniorityLevelsCodec.dump profile.seniorityLevels),
   (.employmentTypes, employmentTypesCodec.dump profile.employmentTypes),
   (.requiresVisaSponsorship, flagCodec.dump profile.requiresVisaSponsorship),
   (.constraints, textsCodec.dump profile.constraints),
   (.keywords, textsCodec.dump profile.keywords),
   (.mustHaveSkills, textsCodec.dump profile.mustHaveSkills),
   (.excludedCompanies, textsCodec.dump profile.excludedCompanies),
   (.salaryMin, salaryCodec.dump profile.salaryMin),
   (.salaryMax, salaryCodec.dump profile.salaryMax),
   (.minScore, scoreCodec.dump profile.minScore),
   (.maxShortlist, shortlistCodec.dump profile.maxShortlist)]

/-- The row that is written for a version of a profile. -/
def toRow (userId : UUID) (profileVersion : ℕ) (profile : CandidateProfileInput) (now : Time) :
    CandidateProfileRow where
  userId := userId
  profileVersion := profileVersion
  targetRoles := profile.targetRoles.val.map (·.val)
  targetLocations := profile.targetLocations.val.map (·.val)
  preferences := storedPreferences profile
  createdAt := now

def PreferenceValue.truthy : PreferenceValue → Bool
  | .null => false
  | .flag b => b
  | .number q => decide (q ≠ 0)
  | .texts l => !l.isEmpty
  | .other truthy => truthy

/-- The row's preferences, with `remote_only` read off its work modes; rows from before work modes existed
say it directly. -/
def readPreferences (row : CandidateProfileRow) : Preferences :=
  let preferences := row.preferences
  let workModes := preferences.get .workModes
  if workModes = some (.texts [WorkMode.remote.value]) then
    if (preferences.get .remoteOnly).isNone then preferences ++ [(.remoteOnly, .flag true)] else preferences
  else if ((preferences.get .remoteOnly).any PreferenceValue.truthy && workModes.isNone) = true then
    preferences ++ [(.workModes, .texts [WorkMode.remote.value])]
  else preferences

/-- Why a row cannot be read. -/
inductive ProfileRowError where
  | targetRoles
  | targetLocations
  | preference (key : PreferenceKey)
  /-- `salary_max cannot be below salary_min`. -/
  | salaryRange
deriving DecidableEq, Repr

/-- A field of the preferences, with its default when it is missing. -/
def readField {α : Type} (key : PreferenceKey) (parse : PreferenceValue → Option α) (default : α)
    (preferences : Preferences) : Except ProfileRowError α :=
  match preferences.get key with
  | none => .ok default
  | some value => (parse value).elim (.error (.preference key)) .ok

def noTexts : ProfileTexts := ⟨[], Nat.zero_le _⟩

def noPreference {n : ℕ} {α : Type} : UpTo n α := ⟨[], Nat.zero_le _⟩

theorem half_mem_share : (0 : ℚ) ≤ 1 / 2 ∧ (1 / 2 : ℚ) ≤ 1 := ⟨by decide +kernel, by decide +kernel⟩

/-- The least score of a profile that states none. -/
def defaultMinScore : Share := ⟨1 / 2, half_mem_share⟩

/-- The shortlist of a profile that states no size. -/
def defaultShortlist : ShortlistSize := ⟨5, by decide⟩

/-- The profile of one stored version. -/
def profileFromRow (row : CandidateProfileRow) : Except ProfileRowError CandidateProfileInput := do
  let preferences := readPreferences row
  let targetRoles ← (parseTexts row.targetRoles).elim (.error .targetRoles) .ok
  let targetLocations ← (parseTexts row.targetLocations).elim (.error .targetLocations) .ok
  let workModes ← readField .workModes workModesCodec.parse noPreference preferences
  let seniorityLevels ← readField .seniorityLevels seniorityLevelsCodec.parse noPreference preferences
  let employmentTypes ← readField .employmentTypes employmentTypesCodec.parse noPreference preferences
  let requiresVisaSponsorship ← readField .requiresVisaSponsorship flagCodec.parse false preferences
  let constraints ← readField .constraints textsCodec.parse noTexts preferences
  let keywords ← readField .keywords textsCodec.parse noTexts preferences
  let mustHaveSkills ← readField .mustHaveSkills textsCodec.parse noTexts preferences
  let excludedCompanies ← readField .excludedCompanies textsCodec.parse noTexts preferences
  let salaryMin ← readField .salaryMin salaryCodec.parse none preferences
  let salaryMax ← readField .salaryMax salaryCodec.parse none preferences
  let minScore ← readField .minScore scoreCodec.parse defaultMinScore preferences
  let maxShortlist ← readField .maxShortlist shortlistCodec.parse defaultShortlist preferences
  if salaryRange : SalaryInOrder salaryMin salaryMax then
    return { targetRoles, targetLocations, workModes, seniorityLevels, employmentTypes, requiresVisaSponsorship,
             constraints, keywords, mustHaveSkills, excludedCompanies, salaryMin, salaryMax, minScore,
             maxShortlist, salaryRange }
  else .error .salaryRange

theorem readField_of_get {α : Type} {key : PreferenceKey} {parse : PreferenceValue → Option α} {default a : α}
    {preferences : Preferences} {value : PreferenceValue} (h : preferences.get key = some value)
    (hparse : parse value = some a) : readField key parse default preferences = .ok a := by
  unfold readField
  rw [h]
  simp only [hparse]
  rfl

theorem get_append {key : PreferenceKey} {preferences : Preferences} {value : PreferenceValue} (more : Preferences)
    (h : preferences.get key = some value) : Preferences.get key (preferences ++ more) = some value := by
  unfold Preferences.get Keyed.lookup at h ⊢
  obtain ⟨entry, hentry, hvalue⟩ := Option.map_eq_some_iff.mp h
  rw [List.find?_append, hentry]
  exact congrArg some hvalue

/-- What a row was written with is what its readers find. -/
theorem get_readPreferences {row : CandidateProfileRow} {key : PreferenceKey} {value : PreferenceValue}
    (h : row.preferences.get key = some value) : (readPreferences row).get key = some value := by
  simp only [readPreferences]
  split
  · split
    · exact get_append _ h
    · exact h
  · split
    · exact get_append _ h
    · exact h

/-- Every field that was stored is read back. -/
theorem readField_toRow (userId : UUID) (profileVersion : ℕ) (profile : CandidateProfileInput) (now : Time)
    {α : Type} (key : PreferenceKey) (codec : FieldCodec α) (a : α)
    (h : (storedPreferences profile).get key = some (codec.dump a)) (default : α) :
    readField key codec.parse default (readPreferences (toRow userId profileVersion profile now)) = .ok a :=
  readField_of_get (get_readPreferences h) (codec.parse_dump a)

/-- A profile that was written is read back. -/
theorem profileFromRow_toRow (userId : UUID) (profileVersion : ℕ) (profile : CandidateProfileInput) (now : Time) :
    profileFromRow (toRow userId profileVersion profile now) = .ok profile := by
  have hroles : parseTexts (toRow userId profileVersion profile now).targetRoles = some profile.targetRoles :=
    parseTexts_val _
  have hlocations : parseTexts (toRow userId profileVersion profile now).targetLocations =
      some profile.targetLocations := parseTexts_val _
  have hread := @readField_toRow userId profileVersion profile now
  have hworkModes := hread .workModes workModesCodec profile.workModes rfl
  have hseniorityLevels := hread .seniorityLevels seniorityLevelsCodec profile.seniorityLevels rfl
  have hemploymentTypes := hread .employmentTypes employmentTypesCodec profile.employmentTypes rfl
  have hrequiresVisaSponsorship := hread .requiresVisaSponsorship flagCodec profile.requiresVisaSponsorship rfl
  have hconstraints := hread .constraints textsCodec profile.constraints rfl
  have hkeywords := hread .keywords textsCodec profile.keywords rfl
  have hmustHaveSkills := hread .mustHaveSkills textsCodec profile.mustHaveSkills rfl
  have hexcludedCompanies := hread .excludedCompanies textsCodec profile.excludedCompanies rfl
  have hsalaryMin := hread .salaryMin salaryCodec profile.salaryMin rfl
  have hsalaryMax := hread .salaryMax salaryCodec profile.salaryMax rfl
  have hminScore := hread .minScore scoreCodec profile.minScore rfl
  have hmaxShortlist := hread .maxShortlist shortlistCodec profile.maxShortlist rfl
  simp only [profileFromRow, hroles, hlocations, hworkModes, hseniorityLevels, hemploymentTypes,
    hrequiresVisaSponsorship, hconstraints, hkeywords, hmustHaveSkills, hexcludedCompanies, hsalaryMin,
    hsalaryMax, hminScore, hmaxShortlist]
  exact dif_pos profile.salaryRange

end PersonalOS
