import Mathlib.Data.List.TakeWhile
import DocumentTables.Config.ConnectionParameters
import DocumentTables.Config.RetryPolicy

/-!
# Settings in variables

Which texts of variables make settings is said here without the functions that read them.  A text
spells a number if it is a numeral with white space around; a connection is given by five variables
that are all set and not blank, of which the port's spells a number of 16 bits; and a retry policy by
two that may be missing.

**Results.**

* `Numeral.read_eq_ok_iff`, `Numeral.spells_iff`: which texts are numerals of a width.
* `ConnectionParameters.ofEnvironment_cases`: the parameters of a connection, or the first variable
  in the order of reading that is not acceptable.
* `RetryPolicy.ofEnvironment_eq_ok_iff`: the policy.
* `Environment.settings_read`: all of it.
-/

namespace DocumentTables

/-! ## Texts -/

namespace Text

variable {before cs after : List Char}

theorem dropWhile_isBlank
    (h : ∀ c ∈ cs, isBlank c = false) :
    cs.dropWhile isBlank = cs := by
  cases cs with
  | nil =>
      rfl
  | cons c cs =>
      exact List.dropWhile_cons_of_neg (by simp [h c List.mem_cons_self])

/-- White space around a text that has none is trimmed. -/
theorem trimChars_append
    (hbefore : ∀ c ∈ before, isBlank c = true) (hafter : ∀ c ∈ after, isBlank c = true)
    (hcs : ∀ c ∈ cs, isBlank c = false) (hne : cs ≠ []) :
    trimChars (before ++ cs ++ after) = cs := by
  obtain ⟨c, rest, rfl⟩ := List.exists_cons_of_ne_nil hne
  have hstart : (c :: rest ++ after).dropWhile isBlank = c :: rest ++ after :=
    List.dropWhile_cons_of_neg (by simp [hcs c List.mem_cons_self])
  have hend : ∀ d ∈ after.reverse, isBlank d = true := fun d hd =>
    hafter d (List.mem_reverse.mp hd)
  have hmiddle : ∀ d ∈ (c :: rest).reverse, isBlank d = false := fun d hd =>
    hcs d (List.mem_reverse.mp hd)
  rw [trimChars, List.append_assoc, List.dropWhile_append_of_pos hbefore, hstart,
    List.reverse_append, List.dropWhile_append_of_pos hend, dropWhile_isBlank hmiddle,
    List.reverse_reverse]

/-- A text is its trimmed form with white space around. -/
theorem exists_trimChars
    (cs : List Char) :
    ∃ before after, cs = before ++ trimChars cs ++ after ∧ (∀ c ∈ before, isBlank c = true) ∧
      ∀ c ∈ after, isBlank c = true := by
  refine ⟨cs.takeWhile isBlank, ((cs.dropWhile isBlank).reverse.takeWhile isBlank).reverse, ?_,
    fun c hc => List.mem_takeWhile_imp hc,
    fun c hc => List.mem_takeWhile_imp (List.mem_reverse.mp hc)⟩
  rw [trimChars, List.append_assoc, ← List.reverse_append, List.takeWhile_append_dropWhile,
    List.reverse_reverse, List.takeWhile_append_dropWhile]

/-- Only letters become capital letters. -/
theorem toUpper_eq_iff
    {c d : Char} (hd : d.toNat < 'A'.toNat) :
    c.toUpper = d ↔ c = d := by
  by_cases hlower : 'a'.val ≤ c.val ∧ c.val ≤ 'z'.val
  · have hrange : 97 ≤ c.toNat ∧ c.toNat ≤ 122 := hlower
    have hupper : c.toUpper.toNat = c.toNat - 32 := by
      have hshift : ('A'.val - 'a'.val).toNat = 4294967264 := by decide
      delta Char.toUpper
      rw [dif_pos hlower]
      change (c.val + ('A'.val - 'a'.val)).toNat = c.toNat - 32
      rw [UInt32.toNat_add, hshift]
      change (c.toNat + 4294967264) % 4294967296 = c.toNat - 32
      omega
    change d.toNat < 65 at hd
    constructor
    · rintro rfl
      omega
    · rintro rfl
      omega
  · have hsame : c.toUpper = c := dif_neg hlower
    rw [hsame]

end Text

/-! ## Numerals -/

namespace Numeral

variable {limit n m : Nat} {cs : List Char} {text : String}

/-- A numeral for a number: an optional plus sign, and one or more digits that denote it. -/
def Denotes (cs : List Char) (n : Nat) : Prop :=
  ∃ ds, (cs = ds ∨ cs = '+' :: ds) ∧ ds ≠ [] ∧ (∀ c ∈ ds, c.isDigit = true) ∧
    Nat.ofDigitChars 10 ds 0 = n

/-- A text that is, between white space, a numeral for a number. -/
def Spells (text : String) (n : Nat) : Prop :=
  ∃ before cs after, text.toList = before ++ cs ++ after ∧
    (∀ c ∈ before, Text.isBlank c = true) ∧ (∀ c ∈ after, Text.isBlank c = true) ∧ Denotes cs n

/-- A number grows with its digits. -/
theorem le_ofDigitChars
    (cs : List Char) (n : Nat) :
    n ≤ Nat.ofDigitChars 10 cs n := by
  induction cs generalizing n with
  | nil =>
      exact Nat.le_refl n
  | cons c cs ih =>
      rw [Nat.ofDigitChars_cons]
      exact Nat.le_trans (by omega) (ih _)

/-- Since a number grows with its digits, it fits after each of them if it fits in the end. -/
theorem appendDigits_eq_ok_iff
    (h : n ≤ limit) :
    appendDigits limit n cs = .ok m ↔
      (∀ c ∈ cs, c.isDigit = true) ∧ Nat.ofDigitChars 10 cs n = m ∧ m ≤ limit := by
  induction cs generalizing n with
  | nil =>
      simp only [appendDigits, Except.ok.injEq, Nat.ofDigitChars_nil]
      constructor
      · rintro rfl
        exact ⟨by simp, rfl, h⟩
      · exact fun hm => hm.2.1
  | cons c cs ih =>
      rw [appendDigits, Nat.ofDigitChars_cons, List.forall_mem_cons]
      by_cases hc : c.isDigit = true
      · rw [if_pos hc]
        by_cases hfits : 10 * n + (c.toNat - '0'.toNat) ≤ limit
        · simp only [if_pos hfits, ih hfits, hc, true_and]
        · have hgrows := le_ofDigitChars cs (10 * n + (c.toNat - '0'.toNat))
          simp only [if_neg hfits, reduceCtorEq, false_iff]
          rintro ⟨-, rfl, hm⟩
          omega
      · rw [if_neg hc]
        simp [hc]

/-- The digits of a number that fits are read. -/
theorem appendDigits_zero_iff :
    appendDigits limit 0 cs = .ok n ↔
      (∀ c ∈ cs, c.isDigit = true) ∧ Nat.ofDigitChars 10 cs 0 = n ∧ n ≤ limit := by
  exact appendDigits_eq_ok_iff (Nat.zero_le limit)

theorem denotes_plus_iff :
    Denotes ('+' :: cs) n ↔
      cs ≠ [] ∧ (∀ c ∈ cs, c.isDigit = true) ∧ Nat.ofDigitChars 10 cs 0 = n := by
  constructor
  · rintro ⟨ds, hds | hds, hne, hdigits, hvalue⟩
    · -- a plus sign is no digit
      have hplus := hdigits '+' (by simp [← hds])
      cases hplus
    · cases hds
      exact ⟨hne, hdigits, hvalue⟩
  · exact fun h => ⟨cs, .inr rfl, h⟩

theorem denotes_iff_of_ne_plus
    (h : ∀ ds, cs ≠ '+' :: ds) :
    Denotes cs n ↔ cs ≠ [] ∧ (∀ c ∈ cs, c.isDigit = true) ∧ Nat.ofDigitChars 10 cs 0 = n := by
  constructor
  · rintro ⟨ds, rfl | hds, hne, hdigits, hvalue⟩
    · exact ⟨hne, hdigits, hvalue⟩
    · exact absurd hds (h ds)
  · exact fun hcs => ⟨cs, .inl rfl, hcs⟩

/-- Exactly the numerals of numbers up to the limit are read. -/
theorem read_eq_ok_iff :
    read limit cs = .ok n ↔ Denotes cs n ∧ n ≤ limit := by
  unfold read
  split
  · simp [Denotes]
  · simp [denotes_plus_iff]
  · next ds hds =>
      rw [appendDigits_zero_iff, denotes_plus_iff]
      have hne : ds ≠ [] := by
        rintro rfl
        exact hds rfl
      simp [hne, and_assoc]
  · next hne hplus hother =>
      have hnil : cs ≠ [] := hne
      rw [appendDigits_zero_iff, denotes_iff_of_ne_plus hother]
      simp [hnil, and_assoc]

/-- White space is no part of a numeral. -/
theorem Denotes.not_blank
    (h : Denotes cs n) :
    (∀ c ∈ cs, Text.isBlank c = false) ∧ cs ≠ [] := by
  obtain ⟨ds, hcs, hne, hdigits, -⟩ := h
  have hdigit : ∀ c ∈ ds, Text.isBlank c = false := by
    intro c hc
    have hrange := Char.isDigit_iff_toNat.mp (hdigits c hc)
    change 48 ≤ c.toNat ∧ c.toNat ≤ 57 at hrange
    simp only [Text.isBlank, Bool.or_eq_false_iff, Bool.and_eq_false_iff, decide_eq_false_iff_not,
      beq_eq_false_iff_ne]
    omega
  rcases hcs with rfl | rfl
  · exact ⟨hdigit, hne⟩
  · exact ⟨List.forall_mem_cons.mpr ⟨by decide, hdigit⟩, by simp⟩

theorem spells_iff :
    Spells text n ↔ Denotes (Text.trimChars text.toList) n := by
  constructor
  · rintro ⟨before, cs, after, htext, hbefore, hafter, hcs⟩
    rwa [htext, Text.trimChars_append hbefore hafter hcs.not_blank.1 hcs.not_blank.2]
  · intro h
    obtain ⟨before, after, htext, hbefore, hafter⟩ := Text.exists_trimChars text.toList
    exact ⟨before, _, after, htext, hbefore, hafter, h⟩

/-- A text spells one number at most. -/
theorem Spells.unique
    (h : Spells text n) (h' : Spells text m) :
    n = m := by
  have hread := read_eq_ok_iff.mpr ⟨spells_iff.mp h, Nat.le_max_left n m⟩
  have hread' := read_eq_ok_iff.mpr ⟨spells_iff.mp h', Nat.le_max_right n m⟩
  exact Except.ok.inj (hread.symm.trans hread')

end Numeral

/-! ## Variables -/

namespace Environment

variable {env : Environment} {name text : String} {limit default n : Nat}

/-- A variable is set to a text that is not blank. -/
def IsSet (env : Environment) (name text : String) : Prop :=
  env name = some text ∧ ∃ c ∈ text.toList, Text.isBlank c = false

theorem allBlank_eq_false_iff :
    Text.allBlank text = false ↔ ∃ c ∈ text.toList, Text.isBlank c = false := by
  simp [Text.allBlank]

theorem IsSet.unique
    {other : String} (h : env.IsSet name text) (h' : env.IsSet name other) :
    text = other := by
  exact Option.some.inj (h.1.symm.trans h'.1)

/-- A required variable is reported if it is not set or blank, and otherwise gives its text. -/
theorem required_cases
    (env : Environment) (name : String) :
    ((∀ text, ¬ env.IsSet name text) ∧ env.required name = .error (.missingRequired name)) ∨
      ∃ text, env.IsSet name text ∧ env.required name = .ok text := by
  rw [required]
  cases hname : env name with
  | none =>
      refine .inl ⟨fun text hset => ?_, rfl⟩
      rw [IsSet, hname] at hset
      cases hset.1
  | some text =>
      cases hblank : Text.allBlank text with
      | false =>
          exact .inr ⟨text, ⟨hname, allBlank_eq_false_iff.mp hblank⟩, by simp [hblank]⟩
      | true =>
          refine .inl ⟨fun other hset => ?_, by simp [hblank]⟩
          obtain rfl : text = other := Option.some.inj (hname.symm.trans hset.1)
          rw [allBlank_eq_false_iff.mpr hset.2] at hblank
          cases hblank

theorem readNumeral_eq_ok_iff :
    readNumeral name limit text = .ok n ↔ Numeral.Spells text n ∧ n ≤ limit := by
  rw [readNumeral, Numeral.spells_iff, ← Numeral.read_eq_ok_iff]
  split <;> simp_all

/-- A text is reported as it is if it spells no number up to the limit, and otherwise gives that. -/
theorem readNumeral_cases
    (name : String) (limit : Nat) (text : String) :
    ((∀ n, Numeral.Spells text n → limit < n) ∧
        ∃ reason, readNumeral name limit text = .error (.invalidValue name text reason)) ∨
      ∃ n, Numeral.Spells text n ∧ n ≤ limit ∧ readNumeral name limit text = .ok n := by
  cases hread : readNumeral name limit text with
  | ok n =>
      obtain ⟨hspells, hn⟩ := readNumeral_eq_ok_iff.mp hread
      exact .inr ⟨n, hspells, hn, rfl⟩
  | error e =>
      refine .inl ⟨fun n hspells => Nat.lt_of_not_le fun hn => ?_, ?_⟩
      · rw [readNumeral_eq_ok_iff.mpr ⟨hspells, hn⟩] at hread
        cases hread
      · rw [readNumeral] at hread
        split at hread
        · cases hread
        · cases hread
          exact ⟨_, rfl⟩

/-- The number that a variable gives: that which its text spells, or the default if it is not set. -/
def Gives (env : Environment) (name : String) (limit default n : Nat) : Prop :=
  env name = none ∧ n = default ∨
    ∃ text, env name = some text ∧ Numeral.Spells text n ∧ n ≤ limit

theorem numeralOr_eq_ok_iff :
    env.numeralOr name limit default = .ok n ↔ env.Gives name limit default n := by
  rw [numeralOr, Gives]
  cases env name with
  | none =>
      simp [eq_comm]
  | some text =>
      simp [readNumeral_eq_ok_iff]

end Environment

/-! ## The parameters of a connection -/

namespace ConnectionParameters

variable {application name : String} {env : Environment} {p q : ConnectionParameters}

/-- The part of a variable's name that stands for an application: in capital letters, and then with
an underscore for each dash, point and space. -/
def applicationPart (application : String) : String :=
  application.toUpper.map fun c => if c = '-' ∨ c = '.' ∨ c = ' ' then '_' else c

theorem applicationVariable_eq
    (application suffix : String) :
    applicationVariable application suffix =
      "TABULA_DB_" ++ applicationPart application ++ suffix := by
  have hpart : (applicationPart application).toList = application.toList.map variableChar := by
    rw [applicationPart, String.toUpper, String.toList_map, String.toList_map, List.map_map]
    refine List.map_congr_left fun c _ => ?_
    simp only [Function.comp_apply, variableChar, Text.toUpper_eq_iff (d := '-') (by decide),
      Text.toUpper_eq_iff (d := '.') (by decide), Text.toUpper_eq_iff (d := ' ') (by decide)]
  rw [applicationVariable, ← hpart, String.ofList_toList]

example : applicationPart "nc-animate v1.2" = "NC_ANIMATE_V1_2" := by
  cbv

/-- The variables that give the parameters of an application: all are set and not blank, the port's
spells a number of 16 bits, and the texts of the others are taken as they are. -/
structure GivenBy (application : String) (env : Environment) (p : ConnectionParameters) : Prop where
  port : ∃ text, env.IsSet "TABULA_DB_PORT" text ∧ Numeral.Spells text p.port ∧ p.port ≤ 65535
  host : env.IsSet "TABULA_DB_HOST" p.host
  database : env.IsSet "TABULA_DB_NAME" p.database
  username : env.IsSet ("TABULA_DB_" ++ applicationPart application ++ "_USER") p.username
  password : env.IsSet ("TABULA_DB_" ++ applicationPart application ++ "_PASSWORD") p.password

/-- A variable, and which texts will do for it besides not being blank. -/
structure Requirement where
  name : String
  suits : String → Prop

/-- What is required for an application's parameters, in the order in which it is looked at. -/
def requirements (application : String) : List Requirement :=
  [⟨"TABULA_DB_PORT", fun text => ∃ n, Numeral.Spells text n ∧ n ≤ 65535⟩,
    ⟨"TABULA_DB_HOST", fun _ => True⟩,
    ⟨"TABULA_DB_NAME", fun _ => True⟩,
    ⟨"TABULA_DB_" ++ applicationPart application ++ "_USER", fun _ => True⟩,
    ⟨"TABULA_DB_" ++ applicationPart application ++ "_PASSWORD", fun _ => True⟩]

/-- The variable is set to a text that will do. -/
def Requirement.Met (env : Environment) (r : Requirement) : Prop :=
  ∃ text, env.IsSet r.name text ∧ r.suits text

/-- What is said of a requirement that is not met: the variable is missing if it is not set or blank,
and otherwise its text is wrong. -/
inductive Complaint (env : Environment) (r : Requirement) : ConfigError → Prop
  | missing :
      (∀ text, ¬ env.IsSet r.name text) → Complaint env r (.missingRequired r.name)
  | unsuitable {text reason : String} :
      env.IsSet r.name text → ¬ r.suits text →
      Complaint env r (.invalidValue r.name text reason)

/-- The error is about the first requirement that is not met. -/
def FirstComplaint (application : String) (env : Environment) (e : ConfigError) : Prop :=
  ∃ before r after, requirements application = before ++ r :: after ∧
    (∀ other ∈ before, Requirement.Met env other) ∧ ¬ Requirement.Met env r ∧ Complaint env r e

theorem GivenBy.unique
    (hp : GivenBy application env p) (hq : GivenBy application env q) :
    p = q := by
  obtain ⟨text, hset, hspells, -⟩ := hp.port
  obtain ⟨other, hother, hspells', -⟩ := hq.port
  obtain rfl := hset.unique hother
  cases p
  cases q
  rw [mk.injEq]
  exact ⟨hp.host.unique hq.host, hspells.unique hspells', hp.database.unique hq.database,
    hp.username.unique hq.username, hp.password.unique hq.password⟩

/-- Where parameters are given all requirements are met. -/
theorem GivenBy.met
    (h : GivenBy application env p) :
    ∀ r ∈ requirements application, Requirement.Met env r := by
  obtain ⟨text, hset, hspells, hn⟩ := h.port
  simp only [requirements, List.forall_mem_cons, List.not_mem_nil, false_implies, implies_true,
    and_true]
  exact ⟨⟨text, hset, p.port, hspells, hn⟩, ⟨_, h.host, trivial⟩, ⟨_, h.database, trivial⟩,
    ⟨_, h.username, trivial⟩, ⟨_, h.password, trivial⟩⟩

/-- A variable that is not set, or blank, is complained about if the ones before it will do. -/
theorem FirstComplaint.of_missing
    (before : List Requirement) {after : List Requirement} {name : String} {suits : String → Prop}
    (hlist : requirements application = before ++ ⟨name, suits⟩ :: after)
    (hbefore : ∀ other ∈ before, Requirement.Met env other)
    (hmissing : ∀ text, ¬ env.IsSet name text) :
    FirstComplaint application env (.missingRequired name) := by
  refine ⟨before, ⟨name, suits⟩, after, hlist, hbefore, ?_, .missing hmissing⟩
  rintro ⟨text, hset, -⟩
  exact hmissing text hset

/-- Reading the variables one by one gives the parameters, or stops at the first requirement that is
not met. -/
theorem ofEnvironment_cases
    (application : String) (env : Environment) :
    (∃ p, GivenBy application env p ∧ ofEnvironment application env = .ok p) ∨
      ∃ e, FirstComplaint application env e ∧ ofEnvironment application env = .error e := by
  have huser : userVariable application = _ := applicationVariable_eq application "_USER"
  have hpassword : passwordVariable application = _ :=
    applicationVariable_eq application "_PASSWORD"
  have hmet {name text : String} (h : env.IsSet name text) :
      Requirement.Met env ⟨name, fun _ => True⟩ := ⟨text, h, trivial⟩
  simp only [ofEnvironment, huser, hpassword, portVariable, hostVariable, databaseVariable]
  -- at each variable the reading stops, or it goes on to the next one
  rcases Environment.required_cases env "TABULA_DB_PORT" with
    ⟨hmissing, hread⟩ | ⟨text, hset, hread⟩ <;> simp only [hread, bind, Except.bind]
  · exact .inr ⟨_, .of_missing [] rfl (by simp) hmissing, rfl⟩
  rcases Environment.readNumeral_cases "TABULA_DB_PORT" Numeral.max16 text with
    ⟨hspells, reason, hread⟩ | ⟨port, hspells, hfits, hread⟩ <;> simp only [hread]
  · have hunsuitable : ∀ other, env.IsSet "TABULA_DB_PORT" other →
        ¬ ∃ n, Numeral.Spells other n ∧ n ≤ 65535 := by
      rintro other hother ⟨n, hn, hfits⟩
      obtain rfl := hset.unique hother
      exact Nat.not_lt.mpr hfits (hspells n hn)
    refine .inr ⟨_, ⟨[], _, _, rfl, by simp, ?_, .unsuitable hset (hunsuitable text hset)⟩, rfl⟩
    rintro ⟨other, hother, hsuits⟩
    exact hunsuitable other hother hsuits
  have hport : Requirement.Met env
      ⟨"TABULA_DB_PORT", fun text => ∃ n, Numeral.Spells text n ∧ n ≤ 65535⟩ :=
    ⟨text, hset, port, hspells, hfits⟩
  rcases Environment.required_cases env "TABULA_DB_HOST" with
    ⟨hmissing, hread⟩ | ⟨host, hhost, hread⟩ <;> simp only [hread]
  · exact .inr ⟨_, .of_missing [_] rfl (by simpa using hport) hmissing, rfl⟩
  rcases Environment.required_cases env "TABULA_DB_NAME" with
    ⟨hmissing, hread⟩ | ⟨database, hdatabase, hread⟩ <;> simp only [hread]
  · exact .inr ⟨_, .of_missing [_, _] rfl
      (by simpa using ⟨hport, hmet hhost⟩) hmissing, rfl⟩
  rcases Environment.required_cases env
      ("TABULA_DB_" ++ applicationPart application ++ "_USER") with
    ⟨hmissing, hread⟩ | ⟨username, husername, hread⟩ <;> simp only [hread]
  · exact .inr ⟨_, .of_missing [_, _, _] rfl
      (by simpa using ⟨hport, hmet hhost, hmet hdatabase⟩) hmissing, rfl⟩
  rcases Environment.required_cases env
      ("TABULA_DB_" ++ applicationPart application ++ "_PASSWORD") with
    ⟨hmissing, hread⟩ | ⟨password, hsecret, hread⟩ <;> simp only [hread]
  · exact .inr ⟨_, .of_missing [_, _, _, _] rfl
      (by simpa using ⟨hport, hmet hhost, hmet hdatabase, hmet husername⟩) hmissing, rfl⟩
  exact .inl ⟨⟨host, port, database, username, password⟩,
    ⟨⟨text, hset, hspells, hfits⟩, hhost, hdatabase, husername, hsecret⟩, rfl⟩

/-- The parameters of an application are read exactly if the variables give them. -/
theorem ofEnvironment_eq_ok_iff :
    ofEnvironment application env = .ok p ↔ GivenBy application env p := by
  rcases ofEnvironment_cases application env with
    ⟨q, hgiven, hread⟩ | ⟨e, ⟨before, r, after, hlist, -, hunmet, -⟩, hread⟩
  · rw [hread, Except.ok.injEq]
    constructor
    · rintro rfl
      exact hgiven
    · exact hgiven.unique
  · rw [hread]
    refine ⟨fun h => (by cases h), fun h => absurd (h.met r ?_) hunmet⟩
    simp [hlist]

end ConnectionParameters

/-! ## The retry policy -/

namespace RetryPolicy

variable {env : Environment} {policy : RetryPolicy}

/-- The variables that give a policy: each one may be missing, or it spells a number of its width,
and there are an attempt and a second in the end. -/
def GivenBy (env : Environment) (policy : RetryPolicy) : Prop :=
  ∃ attempts seconds, env.Gives "TABULA_DB_RETRY_ATTEMPTS" 4294967295 15 attempts ∧
    env.Gives "TABULA_DB_RETRY_DELAY_SECS" 18446744073709551615 10 seconds ∧
    1 ≤ attempts ∧ 1 ≤ seconds ∧ policy = ⟨attempts, Duration.ofSeconds seconds⟩

theorem validate_ofSeconds_iff
    {attempts seconds : Nat} :
    (RetryPolicy.mk attempts (Duration.ofSeconds seconds)).validate = .ok () ↔
      1 ≤ attempts ∧ 1 ≤ seconds := by
  rw [validate_eq_ok_iff]
  simp only [Duration.ofSeconds, Duration.ofParts, Duration.perSecond]
  omega

/-- A policy is read exactly if the variables give it. -/
theorem ofEnvironment_eq_ok_iff :
    ofEnvironment env = .ok policy ↔ GivenBy env policy := by
  have hattempts {n : Nat} := @Environment.numeralOr_eq_ok_iff env attemptsVariable Numeral.max32
    default.maxAttempts n
  have hseconds {n : Nat} := @Environment.numeralOr_eq_ok_iff env delayVariable Numeral.max64
    default.initialDelay.seconds n
  constructor
  · intro h
    simp only [ofEnvironment, bind, Except.bind] at h
    split at h
    · cases h
    · next attempts hread =>
        split at h
        · cases h
        · next seconds hread' =>
            obtain ⟨hvalid, rfl⟩ := checked_eq_ok_iff.mp h
            obtain ⟨hone, hsecond⟩ := validate_ofSeconds_iff.mp hvalid
            exact ⟨attempts, seconds, hattempts.mp hread, hseconds.mp hread', hone, hsecond, rfl⟩
  · rintro ⟨attempts, seconds, hgives, hgives', hone, hsecond, rfl⟩
    have hread := hattempts.mpr hgives
    have hread' := hseconds.mpr hgives'
    simp only [ofEnvironment, bind, Except.bind, hread, hread']
    exact checked_eq_ok_iff.mpr ⟨validate_ofSeconds_iff.mpr ⟨hone, hsecond⟩, rfl⟩

end RetryPolicy

/-! ## All settings -/

namespace Environment

/-- Parameters are read exactly if the variables of the application give them; if not, the error is
about the first variable that is missing or wrong.  A retry policy is read exactly if its two
variables give it. -/
theorem settings_read
    (application : String) (env : Environment) :
    (∀ p, ConnectionParameters.ofEnvironment application env = .ok p ↔
        ConnectionParameters.GivenBy application env p) ∧
      (∀ e, ConnectionParameters.ofEnvironment application env = .error e →
        ConnectionParameters.FirstComplaint application env e) ∧
      ∀ policy, RetryPolicy.ofEnvironment env = .ok policy ↔ RetryPolicy.GivenBy env policy := by
  refine ⟨fun p => ConnectionParameters.ofEnvironment_eq_ok_iff, fun e herror => ?_,
    fun policy => RetryPolicy.ofEnvironment_eq_ok_iff⟩
  rcases ConnectionParameters.ofEnvironment_cases application env with
    ⟨p, -, hread⟩ | ⟨first, hfirst, hread⟩
  · rw [hread] at herror
    cases herror
  · rw [hread] at herror
    cases herror
    exact hfirst

/-- Variables of which the port's is written with a sign and white space, the host's is blank, and
the number of attempts begins with zeros. -/
def blankHost : Environment :=
  ofList [("TABULA_DB_PORT", " +27017\n"), ("TABULA_DB_HOST", "\t "),
    ("TABULA_DB_RETRY_ATTEMPTS", "003")]

/-- The port will do, so that the complaint is about the host; and there are three attempts. -/
theorem settings_read_blank_host :
    ConnectionParameters.ofEnvironment "nc-animate" blankHost =
        .error (.missingRequired "TABULA_DB_HOST") ∧
      ConnectionParameters.FirstComplaint "nc-animate" blankHost
        (.missingRequired "TABULA_DB_HOST") ∧
      RetryPolicy.GivenBy blankHost ⟨3, Duration.ofSeconds 10⟩ := by
  obtain ⟨-, hcomplaint, hpolicy⟩ := settings_read "nc-animate" blankHost
  have herror : ConnectionParameters.ofEnvironment "nc-animate" blankHost =
      .error (.missingRequired "TABULA_DB_HOST") := by
    rfl
  have hread : RetryPolicy.ofEnvironment blankHost = .ok ⟨3, Duration.ofSeconds 10⟩ := by
    rfl
  exact ⟨herror, hcomplaint _ herror, (hpolicy _).mp hread⟩

end Environment
end DocumentTables
