import PersonalOS.Texts

/-! # References to credentials

`personalos.domain.credentials`: the names under which credentials are kept, `cred://<provider>/<name>`.

* **Patterns.** A part of a reference is matched by `^[first][rest]{0,most}$`.  A `$` also matches before
  one line break at the end of the text, so such a pattern accepts two texts for each that it
  describes (`accepts_iff`).
* **References.** A `CredentialRef` is what its constructor accepts; `parse` takes a string apart and
  `str` puts it together again (`parse_eq_ok`).
* **Line breaks.** `references_exact_iff`: the strings that are no references, but are accepted, are
  those with a line break behind the provider or the name. -/

namespace PersonalOS.Credentials

/-! ### Patterns -/

/-- `^[first][rest]{0,most}$`. -/
structure PartPattern where
  first : Char → Bool
  rest : Char → Bool
  most : ℕ
  newline_not_first : first '\n' = false
  newline_not_rest : rest '\n' = false

namespace PartPattern

variable (p : PartPattern)

/-- `$`: the end, or one line break before it. -/
def atEnd (text : List Char) : Bool := text == [] || text == ['\n']

/-- `match`: after the first character, some number of further ones up to the end. -/
def accepts : List Char → Bool
  | [] => false
  | c :: text => p.first c && (List.range (p.most + 1)).any fun n =>
      decide (n ≤ text.length) && (text.take n).all p.rest && atEnd (text.drop n)

/-- The text is one first character and at most so many further ones. -/
def Describes (text : List Char) : Prop :=
  ∃ c body, text = c :: body ∧ p.first c = true ∧ body.length ≤ p.most ∧ ∀ d ∈ body, p.rest d = true

/-- The text without a line break at its end. -/
def chomp (text : List Char) : List Char := if text.getLast? = some '\n' then text.dropLast else text

theorem chomp_concat (text : List Char) : chomp (text ++ ['\n']) = text := by
  rw [chomp, if_pos List.getLast?_concat, List.dropLast_concat]

theorem chomp_of_getLast?_ne {text : List Char} (h : text.getLast? ≠ some '\n') : chomp text = text :=
  if_neg h

/-- A text is what is left of it, with or without a line break behind it. -/
theorem eq_chomp_or (text : List Char) : text = chomp text ∨ text = chomp text ++ ['\n'] := by
  by_cases h : text.getLast? = some '\n'
  · obtain ⟨front, rfl⟩ := List.getLast?_eq_some_iff.mp h
    rw [chomp_concat]
    exact Or.inr rfl
  · rw [chomp_of_getLast?_ne h]
    exact Or.inl rfl

variable {p} {text : List Char}

theorem Describes.newline_not_mem (h : p.Describes text) : '\n' ∉ text := by
  obtain ⟨c, body, rfl, hc, -, hbody⟩ := h
  intro hmem
  rcases List.mem_cons.mp hmem with rfl | hmem
  · exact Bool.noConfusion (p.newline_not_first.symm.trans hc)
  · exact Bool.noConfusion (p.newline_not_rest.symm.trans (hbody _ hmem))

theorem Describes.chomp_eq (h : p.Describes text) : chomp text = text :=
  chomp_of_getLast?_ne fun hlast => h.newline_not_mem (List.mem_of_getLast? hlast)

/-- A described text is accepted, with a line break behind it or without. -/
theorem Describes.accepts {back : List Char} (h : p.Describes text) (hback : atEnd back = true) :
    p.accepts (text ++ back) = true := by
  obtain ⟨c, body, rfl, hc, hlen, hbody⟩ := h
  rw [List.cons_append, PartPattern.accepts, hc, Bool.true_and, List.any_eq_true]
  refine ⟨body.length, List.mem_range.mpr (Nat.lt_succ_of_le hlen), ?_⟩
  rw [List.take_left, List.drop_left, hback, Bool.and_true, Bool.and_eq_true, List.all_eq_true]
  exact ⟨decide_eq_true (List.length_append ▸ Nat.le_add_right _ _), hbody⟩

/-- What a pattern accepts is what it describes, up to a line break at the end. -/
theorem accepts_iff : p.accepts text = true ↔ p.Describes (chomp text) := by
  constructor
  · intro h
    cases text with
    | nil => cases h
    | cons c text =>
        rw [PartPattern.accepts, Bool.and_eq_true, List.any_eq_true] at h
        obtain ⟨hc, n, hn, h⟩ := h
        rw [Bool.and_eq_true, Bool.and_eq_true, List.all_eq_true] at h
        obtain ⟨⟨-, hbody⟩, hend⟩ := h
        have hdescribes : p.Describes (c :: text.take n) :=
          ⟨c, text.take n, rfl, hc, Nat.le_trans (List.length_take_le n text)
            (Nat.le_of_lt_succ (List.mem_range.mp hn)), hbody⟩
        have htext : c :: text = (c :: text.take n) ++ text.drop n := by
          rw [List.cons_append, List.take_append_drop]
        rw [atEnd, Bool.or_eq_true, beq_iff_eq, beq_iff_eq] at hend
        rcases hend with hend | hend
        · rw [htext, hend, List.append_nil, hdescribes.chomp_eq]
          exact hdescribes
        · rw [htext, hend, chomp_concat]
          exact hdescribes
  · intro h
    rcases eq_chomp_or text with heq | heq
    · rw [heq, ← List.append_nil (chomp text)]
      exact h.accepts rfl
    · rw [heq]
      exact h.accepts rfl

theorem describes_iff : p.Describes text ↔ p.accepts text = true ∧ text.getLast? ≠ some '\n' := by
  rw [accepts_iff]
  constructor
  · intro h
    rw [h.chomp_eq]
    exact ⟨h, fun hlast => h.newline_not_mem (List.mem_of_getLast? hlast)⟩
  · rintro ⟨h, hlast⟩
    rwa [chomp_of_getLast?_ne hlast] at h

end PartPattern

/-- The first part of a reference. -/
def providerPattern : PartPattern where
  first := Char.isLower
  rest c := c.isLower || c.isDigit || c == '_' || c == '-'
  most := 62
  newline_not_first := rfl
  newline_not_rest := rfl

/-- The second part of a reference. -/
def namePattern : PartPattern where
  first := Char.isAlphanum
  rest c := c.isAlphanum || c == '.' || c == '_' || c == '@' || c == '+' || c == '-'
  most := 199
  newline_not_first := rfl
  newline_not_rest := rfl

/-! ### References -/

/-- A string was offered as a credential reference and is not one. -/
inductive InvalidCredentialRef where
  | scheme
  | shape
  | provider (provider : String)
  | name
deriving DecidableEq, Repr

/-- The words of a refusal; `printed` is how a text is printed. -/
def InvalidCredentialRef.message (printed : String → String) : InvalidCredentialRef → String
  | scheme => "a credential reference starts with 'cred://'"
  | shape => "a credential reference is cred://<provider>/<name>"
  | provider text => s!"invalid credential provider: {printed text}"
  | name => "invalid credential name"

/-- The name of a credential. -/
@[ext] structure CredentialRef where
  provider : List Char
  name : List Char
  provider_ok : providerPattern.accepts provider = true
  name_ok : namePattern.accepts name = true

/-- `str.partition`: what is before and behind the first separator, if there is one. -/
def partition (sep : Char) : List Char → Option (List Char × List Char)
  | [] => none
  | c :: text =>
      if c = sep then some ([], text)
      else (partition sep text).map fun parts => (c :: parts.1, parts.2)

theorem partition_eq_some {sep : Char} {text front back : List Char} :
    partition sep text = some (front, back) ↔ text = front ++ sep :: back ∧ sep ∉ front := by
  induction text generalizing front with
  | nil => simp [partition]
  | cons c text ih =>
      rw [partition]
      split
      · rename_i hsep
        rw [Option.some_inj, Prod.mk.injEq, hsep]
        constructor
        · rintro ⟨rfl, rfl⟩
          exact ⟨rfl, List.not_mem_nil⟩
        · rintro ⟨heq, hfree⟩
          cases front with
          | nil => exact ⟨rfl, (List.cons.inj heq).2⟩
          | cons d front => exact absurd ((List.cons.inj heq).1 ▸ List.mem_cons_self) hfree
      · rename_i hsep
        rw [Option.map_eq_some_iff]
        constructor
        · rintro ⟨⟨front', back'⟩, hparts, heq⟩
          obtain ⟨rfl, rfl⟩ := Prod.mk.inj heq
          obtain ⟨rfl, hfree⟩ := ih.mp hparts
          refine ⟨rfl, fun hmem => ?_⟩
          rcases List.mem_cons.mp hmem with rfl | hmem
          · exact hsep rfl
          · exact hfree hmem
        · rintro ⟨heq, hfree⟩
          cases front with
          | nil => exact absurd (List.cons.inj heq).1 hsep
          | cons d front =>
              obtain ⟨rfl, htext⟩ := List.cons.inj heq
              exact ⟨(front, back), ih.mpr ⟨htext, fun hmem => hfree (List.mem_cons_of_mem c hmem)⟩, rfl⟩

/-- `f"{CREDENTIAL_REF_SCHEME}://"`. -/
def schemePrefix : List Char := "cred://".toList

namespace CredentialRef

/-- The constructor, with what `__post_init__` rejects. -/
def make (provider name : List Char) : Except InvalidCredentialRef CredentialRef :=
  if hprovider : providerPattern.accepts provider = true then
    if hname : namePattern.accepts name = true then .ok ⟨provider, name, hprovider, hname⟩
    else .error .name
  else .error (.provider (String.ofList provider))

/-- Build a reference from its string form. -/
def parse (value : String) : Except InvalidCredentialRef CredentialRef :=
  if schemePrefix.isPrefixOf value.toList then
    match partition '/' (value.toList.drop schemePrefix.length) with
    | some (provider, name) => make provider name
    | none => .error .shape
  else .error .scheme

def str (ref : CredentialRef) : String :=
  String.ofList (schemePrefix ++ (ref.provider ++ '/' :: ref.name))

end CredentialRef

open PartPattern CredentialRef

theorem not_mem_of_accepts {p : PartPattern} {text : List Char} {c : Char} (h : p.accepts text = true)
    (hfirst : p.first c = false) (hrest : p.rest c = false) (hbreak : c ≠ '\n') : c ∉ text := by
  obtain ⟨d, body, hchomp, hd, -, hbody⟩ := accepts_iff.mp h
  have hmem : c ∉ chomp text := by
    rw [hchomp]
    intro hmem
    rcases List.mem_cons.mp hmem with rfl | hmem
    · exact Bool.noConfusion (hfirst.symm.trans hd)
    · exact Bool.noConfusion (hrest.symm.trans (hbody c hmem))
  rcases eq_chomp_or text with heq | heq
  · rwa [heq]
  · rw [heq, List.mem_append, List.mem_singleton, not_or]
    exact ⟨hmem, hbreak⟩

/-- The first slash is the one behind the provider. -/
theorem CredentialRef.slash_not_mem (ref : CredentialRef) : '/' ∉ ref.provider :=
  not_mem_of_accepts ref.provider_ok rfl rfl (by decide)

theorem make_eq_ok {provider name : List Char} {ref : CredentialRef} :
    make provider name = .ok ref ↔ ref.provider = provider ∧ ref.name = name := by
  unfold make
  constructor
  · intro h
    split at h
    · split at h
      · obtain rfl := Except.ok.inj h
        exact ⟨rfl, rfl⟩
      · cases h
    · cases h
  · rintro ⟨rfl, rfl⟩
    rw [dif_pos ref.provider_ok, dif_pos ref.name_ok]

theorem CredentialRef.toList_str (ref : CredentialRef) :
    ref.str.toList = schemePrefix ++ (ref.provider ++ '/' :: ref.name) :=
  String.toList_ofList

/-- **Parsing** is the inverse of `str`. -/
theorem parse_eq_ok {s : String} {ref : CredentialRef} : parse s = .ok ref ↔ s = ref.str := by
  constructor
  · intro h
    unfold parse at h
    split at h
    · rename_i hscheme
      obtain ⟨rest, hrest⟩ := List.isPrefixOf_iff_prefix.mp hscheme
      rw [← hrest, List.drop_left] at h
      split at h
      · rename_i provider name hparts
        obtain ⟨rfl, rfl⟩ := make_eq_ok.mp h
        rw [(partition_eq_some.mp hparts).1] at hrest
        rw [CredentialRef.str, hrest, String.ofList_toList]
      · cases h
    · cases h
  · rintro rfl
    have hscheme : schemePrefix.isPrefixOf ref.str.toList = true := by
      rw [ref.toList_str]
      exact List.isPrefixOf_iff_prefix.mpr (List.prefix_append _ _)
    have hparts : partition '/' (ref.str.toList.drop schemePrefix.length) =
        some (ref.provider, ref.name) := by
      rw [ref.toList_str, List.drop_left]
      exact partition_eq_some.mpr ⟨rfl, ref.slash_not_mem⟩
    rw [parse, if_pos hscheme, hparts]
    exact make_eq_ok.mpr ⟨rfl, rfl⟩

/-! ### The grammar -/

/-- The string is the scheme with a provider and a name, and nothing else. -/
def Grammatical (s : String) : Prop := ∃ provider name, providerPattern.Describes provider ∧
  namePattern.Describes name ∧ s.toList = schemePrefix ++ (provider ++ '/' :: name)

/-- The string would be a reference without a line break behind its provider or its name. -/
def BreaksLine (s : String) : Prop := ∃ provider name, providerPattern.Describes (chomp provider) ∧
  namePattern.Describes (chomp name) ∧ s.toList = schemePrefix ++ (provider ++ '/' :: name) ∧
    (provider.getLast? = some '\n' ∨ name.getLast? = some '\n')

/-- `parse` takes the string exactly if it is in the grammar, and `str` gives it back. -/
structure Exact (s : String) : Prop where
  accepted : (∃ ref, parse s = .ok ref) ↔ Grammatical s
  back : ∀ ref, parse s = .ok ref → ref.str = s

/-- The reference is read from its string, which has no whitespace in it. -/
structure Clean (ref : CredentialRef) : Prop where
  again : parse ref.str = .ok ref
  solid : ∀ c ∈ ref.str.toList, isSpace c = false

/-- Two references with one string are the same. -/
theorem str_injective {ref ref' : CredentialRef} (h : ref.str = ref'.str) : ref = ref' := by
  have hparsed := parse_eq_ok.mpr h
  rw [parse_eq_ok.mpr rfl] at hparsed
  exact Except.ok.inj hparsed

/-- Two accepted parts make a reference. -/
theorem exists_ref {s : String} {provider name : List Char} (hprovider : providerPattern.accepts provider = true)
    (hname : namePattern.accepts name = true)
    (hs : s.toList = schemePrefix ++ (provider ++ '/' :: name)) :
    ∃ ref : CredentialRef, s = ref.str ∧ ref.provider = provider ∧ ref.name = name :=
  ⟨⟨provider, name, hprovider, hname⟩, by rw [CredentialRef.str, ← hs, String.ofList_toList], rfl, rfl⟩

section strings

variable (ref : CredentialRef)

/-- A line break behind one of the parts. -/
def CredentialRef.Broken : Prop := ref.provider.getLast? = some '\n' ∨ ref.name.getLast? = some '\n'

theorem grammatical_str : Grammatical ref.str ↔ ¬ref.Broken := by
  unfold CredentialRef.Broken
  rw [not_or]
  constructor
  · rintro ⟨provider, name, hprovider, hname, hstr⟩
    obtain ⟨hprovider, hlast⟩ := describes_iff.mp hprovider
    obtain ⟨hname, hlast'⟩ := describes_iff.mp hname
    obtain ⟨other, hother, rfl, rfl⟩ := exists_ref hprovider hname hstr
    rw [str_injective hother]
    exact ⟨hlast, hlast'⟩
  · rintro ⟨hlast, hlast'⟩
    exact ⟨ref.provider, ref.name, describes_iff.mpr ⟨ref.provider_ok, hlast⟩,
      describes_iff.mpr ⟨ref.name_ok, hlast'⟩, ref.toList_str⟩

theorem breaksLine_str : BreaksLine ref.str ↔ ref.Broken := by
  constructor
  · rintro ⟨provider, name, hprovider, hname, hstr, hbroken⟩
    obtain ⟨other, hother, rfl, rfl⟩ :=
      exists_ref (accepts_iff.mpr hprovider) (accepts_iff.mpr hname) hstr
    rw [str_injective hother]
    exact hbroken
  · intro hbroken
    exact ⟨ref.provider, ref.name, accepts_iff.mp ref.provider_ok, accepts_iff.mp ref.name_ok,
      ref.toList_str, hbroken⟩

end strings

theorem exact_iff (s : String) : Exact s ↔ ¬BreaksLine s := by
  constructor
  · rintro hexact hbreaks
    obtain ⟨provider, name, hprovider, hname, hs, -⟩ := id hbreaks
    obtain ⟨ref, rfl, -, -⟩ := exists_ref (accepts_iff.mpr hprovider) (accepts_iff.mpr hname) hs
    have hgrammatical := hexact.accepted.mp ⟨ref, parse_eq_ok.mpr rfl⟩
    exact (grammatical_str ref).mp hgrammatical ((breaksLine_str ref).mp hbreaks)
  · intro hbreaks
    refine ⟨⟨?_, ?_⟩, fun ref hparse => (parse_eq_ok.mp hparse).symm⟩
    · rintro ⟨ref, hparse⟩
      obtain rfl := parse_eq_ok.mp hparse
      exact (grammatical_str ref).mpr fun hbroken => hbreaks ((breaksLine_str ref).mpr hbroken)
    · rintro ⟨provider, name, hprovider, hname, hs⟩
      obtain ⟨ref, href, -, -⟩ :=
        exists_ref (describes_iff.mp hprovider).1 (describes_iff.mp hname).1 hs
      exact ⟨ref, parse_eq_ok.mpr href⟩

/-! ### Whitespace -/

theorem isSpace_of_isAlphanum {c : Char} (h : c.isAlphanum = true) : isSpace c = false := by
  have hrange := toNat_of_isAlphanum h
  refine decide_eq_false ?_
  omega

/-- Neither pattern has whitespace in it. -/
theorem providerPattern_solid (c : Char) (h : providerPattern.first c = true ∨ providerPattern.rest c = true) :
    isSpace c = false := by
  simp only [providerPattern, Bool.or_eq_true, beq_iff_eq] at h
  rcases h with h | ((h | h) | rfl) | rfl
  · exact isSpace_of_isAlphanum (isAlphanum_iff.mpr (Or.inl (Or.inr h)))
  · exact isSpace_of_isAlphanum (isAlphanum_iff.mpr (Or.inl (Or.inr h)))
  · exact isSpace_of_isAlphanum (isAlphanum_iff.mpr (Or.inr h))
  · rfl
  · rfl

theorem namePattern_solid (c : Char) (h : namePattern.first c = true ∨ namePattern.rest c = true) :
    isSpace c = false := by
  simp only [namePattern, Bool.or_eq_true, beq_iff_eq] at h
  rcases h with h | ((((h | rfl) | rfl) | rfl) | rfl) | rfl
  · exact isSpace_of_isAlphanum h
  · exact isSpace_of_isAlphanum h
  · rfl
  · rfl
  · rfl
  · rfl
  · rfl

theorem PartPattern.Describes.solid {p : PartPattern} {text : List Char} (h : p.Describes text)
    (hsolid : ∀ c, p.first c = true ∨ p.rest c = true → isSpace c = false) :
    ∀ c ∈ text, isSpace c = false := by
  obtain ⟨c, body, rfl, hc, -, hbody⟩ := h
  exact List.forall_mem_cons.mpr ⟨hsolid c (Or.inl hc), fun d hd => hsolid d (Or.inr (hbody d hd))⟩

theorem clean_iff (ref : CredentialRef) : Clean ref ↔ ¬ref.Broken := by
  constructor
  · rintro hclean (hlast | hlast)
    · have hmem : '\n' ∈ ref.str.toList := by
        rw [ref.toList_str]
        exact List.mem_append_right _ (List.mem_append_left _ (List.mem_of_getLast? hlast))
      exact absurd (hclean.solid _ hmem) (by decide)
    · have hmem : '\n' ∈ ref.str.toList := by
        rw [ref.toList_str]
        exact List.mem_append_right _
          (List.mem_append_right _ (List.mem_cons_of_mem _ (List.mem_of_getLast? hlast)))
      exact absurd (hclean.solid _ hmem) (by decide)
  · intro hbroken
    obtain ⟨hlast, hlast'⟩ := not_or.mp hbroken
    have hprovider := (describes_iff.mpr ⟨ref.provider_ok, hlast⟩).solid providerPattern_solid
    have hname := (describes_iff.mpr ⟨ref.name_ok, hlast'⟩).solid namePattern_solid
    have hscheme : schemePrefix.any isSpace = false := by decide
    refine ⟨parse_eq_ok.mpr rfl, fun c hc => ?_⟩
    rw [ref.toList_str] at hc
    rcases List.mem_append.mp hc with hc | hc
    · exact Bool.eq_false_iff.mpr fun hspace =>
        Bool.noConfusion (hscheme.symm.trans (List.any_eq_true.mpr ⟨c, hc, hspace⟩))
    · rcases List.mem_append.mp hc with hc | hc
      · exact hprovider c hc
      · rcases List.mem_cons.mp hc with rfl | hc
        · rfl
        · exact hname c hc

/-- **References**: a string is parsed exactly as the grammar says, and a reference has a string without
whitespace from which it is read again, unless there is a line break behind the provider or the name. -/
theorem references_exact_iff (s : String) (ref : CredentialRef) :
    (Exact s ↔ ¬BreaksLine s) ∧ (Clean ref ↔ ¬BreaksLine ref.str) :=
  ⟨exact_iff s, (clean_iff ref).trans (not_congr (breaksLine_str ref)).symm⟩

/-- A reference with a line break at its end is taken. -/
theorem line_break_accepted :
    ¬((∀ s, Exact s) ∧ ∀ ref : CredentialRef, Clean ref) := by
  rintro ⟨hexact, -⟩
  have hbreaks : BreaksLine (String.ofList "cred://google/alice\n".toList) := by
    refine ⟨"google".toList, "alice\n".toList, accepts_iff.mp (by decide), accepts_iff.mp (by decide), ?_,
      Or.inr (by decide)⟩
    rw [String.toList_ofList]
    decide
  exact (exact_iff _).mp (hexact _) hbreaks

end PersonalOS.Credentials
