import DnServer.Lib.LuaFormat
import DnServer.Lib.MySql

/-!
# The safe box statement

`SQL_UPDATE_SAFE_BOX` puts question and answer into its statement as they come
from the client, and the driver formats the statement once more. What the server
reads is the intended statement exactly when both strings are plain: nothing in
them means anything to MySQL or to `string.format`.

* `readBack_of_lex`: if the literal is read as the string, then the body, formatted
  again and with its escapes undone, is the string.
* `plain_of_readBack`: what a special byte takes away is not made up for behind it, so
  such a string has none, and nothing was cut off.
* `readAsIntended_iff`: both strings by it, the statement around them being read as it
  stands; `question_sets_currency` is a question that closes its literal.
-/

namespace DnServer.Bullfight.Database

open DnServer.Lib
open DnServer.Lib.LuaFormat DnServer.Lib.MySql

/-! ## The code -/

/-- `"%02x"` of a byte. -/
def hex02 (b : UInt8) : Bytes :=
  let digit (n : UInt8) : UInt8 := if n < 10 then 48 + n else 87 + n
  [digit (b / 16), digit (b % 16)]

/-- What `myclib.md5` makes of a digest. -/
def md5 (digest : Bytes) : Bytes := digest.flatMap hex02

/-- `self.safebox`. -/
structure SafeBox where
  uid : ℤ
  money : ℤ
  upmoney : ℤ
  pwd : Bytes
  question : Bytes
  answer : Bytes
  deriving DecidableEq, Repr

/-- `CreatSafeBox`; `digest` is the MD5 digest of the password. -/
def CreatSafeBox (uid : ℤ) (digest question answer : Bytes) : SafeBox :=
  { money := 0, upmoney := 0, pwd := md5 digest, question := question, answer := answer,
    uid := uid }

/-- The format of `SQL_UPDATE_SAFE_BOX`. -/
def safeBoxFormat : Bytes :=
  ascii "insert into dt_safe_box set uid = %d" ++ (ascii ", gamecurrency = %d" ++
    (ascii ", pwd = '%s'" ++ (ascii ", question = '%s'" ++ (ascii ", answer = '%s'" ++
      (ascii ", atime = %d" ++ (ascii " ON DUPLICATE KEY UPDATE gamecurrency = gamecurrency + %d" ++
        (ascii ", pwd = '%s'" ++ (ascii ", question = '%s'" ++ ascii ", answer = '%s'"))))))))

/-- A C string, as far as it goes. -/
def cString (o : Bytes) : Bytes := o.takeWhile (· ≠ 0)

/-- `command:exec` formats what it is given once more, and `mysql_query` reads a C string. -/
def exec (sql : Bytes) : Option Bytes := (format sql []).map cString

/-- `SQL_UPDATE_SAFE_BOX`: what is sent to the server, if nothing raises. -/
def SQL_UPDATE_SAFE_BOX (msg : SafeBox) (time : ℤ) : Option Bytes :=
  (format safeBoxFormat [.int msg.uid, .int msg.money, .str msg.pwd, .str msg.question,
    .str msg.answer, .int time, .int msg.upmoney, .str msg.pwd, .str msg.question,
    .str msg.answer]).bind exec

/-! ## The intended statement -/

def words (l : List String) : List Token := l.map fun s => .word (ascii s)

def sign (c : UInt8) : List Token := [.punct c]

def quoted (text : Bytes) : List Token := [.string text]

def intTokens (n : ℤ) : List Token :=
  (if n < 0 then sign 45 else []) ++ [.word (decimal n.natAbs)]

/-- `pwd = …, question = …, answer = …`. -/
def boxTokens (msg : SafeBox) : List Token :=
  words ["pwd"] ++ sign 61 ++ quoted msg.pwd ++ sign 44 ++
    words ["question"] ++ sign 61 ++ quoted msg.question ++ sign 44 ++
    words ["answer"] ++ sign 61 ++ quoted msg.answer

/-- The tokens of the statement, whose literals are the strings themselves. -/
def intended (msg : SafeBox) (time : ℤ) : List Token :=
  words ["insert", "into", "dt_safe_box", "set", "uid"] ++ sign 61 ++ intTokens msg.uid ++
    sign 44 ++ words ["gamecurrency"] ++ sign 61 ++ intTokens msg.money ++ sign 44 ++
    boxTokens msg ++ sign 44 ++ words ["atime"] ++ sign 61 ++ intTokens time ++
    words ["ON", "DUPLICATE", "KEY", "UPDATE", "gamecurrency"] ++ sign 61 ++
    words ["gamecurrency"] ++ sign 43 ++ intTokens msg.upmoney ++ sign 44 ++ boxTokens msg

/-- The server reads the intended statement and nothing else. -/
def ReadAsIntended (msg : SafeBox) (time : ℤ) : Prop :=
  (SQL_UPDATE_SAFE_BOX msg time).bind lex = some (intended msg time)

instance (msg : SafeBox) (time : ℤ) : Decidable (ReadAsIntended msg time) :=
  inferInstanceAs (Decidable (_ = _))

/-! ## Plain strings -/

/-- No quote, no percent sign, no NUL, and every backslash before an underscore. -/
structure Plain (s : Bytes) : Prop where
  nul : 0 ∉ s
  percent : 37 ∉ s
  quote : 39 ∉ s
  backslash : ∀ i : ℕ, s[i]? = some 92 → s[i + 1]? = some 95

theorem Plain.tail {c : UInt8} {s : Bytes} (h : Plain (c :: s)) : Plain s where
  nul := fun hm => h.nul (List.mem_cons_of_mem _ hm)
  percent := fun hm => h.percent (List.mem_cons_of_mem _ hm)
  quote := fun hm => h.quote (List.mem_cons_of_mem _ hm)
  backslash i hi := h.backslash (i + 1) hi

theorem Plain.nil : Plain [] := ⟨by simp, by simp, by simp, by simp⟩

theorem Plain.cons {c : UInt8} {s : Bytes} (h : Plain s) (h0 : c ≠ 0) (h37 : c ≠ 37)
    (h39 : c ≠ 39) (h92 : c = 92 → s.head? = some 95) : Plain (c :: s) where
  nul := by simp [Ne.symm h0, h.nul]
  percent := by simp [Ne.symm h37, h.percent]
  quote := by simp [Ne.symm h39, h.quote]
  backslash i hi := by
    cases i with
    | zero =>
      simp only [List.getElem?_cons_zero, Option.some.injEq] at hi
      simpa [List.head?_eq_getElem?] using h92 hi
    | succ i => exact h.backslash i (by simpa using hi)

theorem Plain.of_forall {s : Bytes} (h : ∀ c ∈ s, c ≠ 0 ∧ c ≠ 37 ∧ c ≠ 39 ∧ c ≠ 92) : Plain s where
  nul := fun hm => (h 0 hm).1 rfl
  percent := fun hm => (h 37 hm).2.1 rfl
  quote := fun hm => (h 39 hm).2.2.1 rfl
  backslash _ hi := absurd rfl (h 92 (List.mem_of_getElem? hi)).2.2.2

/-- Hexadecimal digits. -/
theorem hex02_plain (b : UInt8) : ∀ c ∈ hex02 b, c ≠ 0 ∧ c ≠ 37 ∧ c ≠ 39 ∧ c ≠ 92 := by
  intro c hc
  simp only [hex02, List.mem_cons, List.not_mem_nil, or_false] at hc
  rcases hc with rfl | rfl <;> grind

theorem plain_md5 (digest : Bytes) : Plain (md5 digest) := by
  apply Plain.of_forall
  intro c hc
  obtain ⟨b, -, hb⟩ := List.mem_flatMap.mp hc
  exact hex02_plain b c hb

/-- Within quotes a plain string is read as it stands. -/
theorem Plain.runs {w : Bytes} (h : Plain w) (s : Bytes) :
    Runs (.quoted 39 s) w [] (.quoted 39 (s ++ w)) := by
  induction hn : w.length using Nat.strong_induction_on generalizing w s with
  | _ n ih =>
    cases w with
    | nil =>
      rw [List.append_nil]
      exact .nil _
    | cons c w =>
      have hc : c ≠ 39 := by
        rintro rfl
        exact h.quote List.mem_cons_self
      by_cases h92 : c = 92
      · subst h92
        have hnext := h.backslash 0 rfl
        cases w with
        | nil => simp at hnext
        | cons d w =>
          obtain rfl : d = 95 := by simpa using hnext
          have hrest := ih w.length (by rw [← hn]; simp) h.tail.tail (s ++ [92, 95]) rfl
          rw [List.append_assoc] at hrest
          exact .cons (m := .quoted 39 s) (.cons (m := .escaped 39 s) hrest)
      · have hstep : step (.quoted 39 s) c = ([], .quoted 39 (s ++ [c])) := by
          rw [step, if_neg hc, if_neg (by simp [h92])]
        have hrest := ih w.length (by rw [← hn]; simp) h.tail (s ++ [c]) rfl
        rw [List.append_assoc] at hrest
        have := Runs.cons (m := .quoted 39 s) (c := c) (by rw [hstep]; exact hrest)
        rwa [hstep] at this

/-! ## Reading a literal back -/

/-- The value of the literal that the server reads where `raw` is what the second
format is given; `none` when that raises or the literal does not end. -/
def readBack : Bytes → Option Bytes
  | [] => none
  | c :: l =>
    if c = 0 then none
    else if c = 37 then
      match l with
      | [] => none
      | d :: l => if d = 37 then (readBack l).map (37 :: ·) else none
    else if c = 39 then
      match l with
      | [] => some []
      | d :: l => if d = 39 then (readBack l).map (39 :: ·) else some []
    else if c = 92 then
      match l with
      | [] => none
      | d :: l =>
        if d = 0 then none
        else if d = 37 then
          match l with
          | [] => none
          | e :: l => if e = 37 then (readBack l).map ([92, 37] ++ ·) else none
        else (readBack l).map (unescape d ++ ·)
    else (readBack l).map (c :: ·)

/-- The equation of `readBack`, made once for the lemmas below. -/
alias readBack_eq := readBack.eq_def

theorem cString_nul (o : Bytes) : cString (0 :: o) = [] := by simp [cString]

theorem cString_cons {c : UInt8} (h : c ≠ 0) (o : Bytes) : cString (c :: o) = c :: cString o := by
  simp [cString, h]

theorem lexFrom_silent {m m' : Mode} {c : UInt8} {l : Bytes} {ts : List Token}
    (hstep : step m c = ([], m')) (h : lexFrom m (c :: l) = some ts) : lexFrom m' l = some ts := by
  rw [lexFrom, hstep] at h
  simpa using h

theorem format_cons_some {c : UInt8} (hc : c ≠ 37) {l o : Bytes}
    (h : format (c :: l) [] = some o) : ∃ o', format l [] = some o' ∧ o = c :: o' := by
  rw [format_cons hc] at h
  obtain ⟨o', ho', rfl⟩ := Option.map_eq_some_iff.mp h
  exact ⟨o', ho', rfl⟩

/-- One step of `readBack`: the raw text, and the value it has. -/
inductive ReadStep : Bytes → Bytes → Prop
  | closed {l} : l.head? ≠ some 39 → ReadStep (39 :: l) []
  | doubled {l v} : readBack l = some v → ReadStep (39 :: 39 :: l) (39 :: v)
  | percent {l v} : readBack l = some v → ReadStep (37 :: 37 :: l) (37 :: v)
  | escapedPercent {l v} : readBack l = some v → ReadStep (92 :: 37 :: 37 :: l) (92 :: 37 :: v)
  | escaped {d l v} : d ≠ 0 → d ≠ 37 → readBack l = some v →
      ReadStep (92 :: d :: l) (unescape d ++ v)
  | byte {c l v} : c ≠ 0 → c ≠ 37 → c ≠ 39 → c ≠ 92 → readBack l = some v →
      ReadStep (c :: l) (c :: v)

theorem readBack_nul (l : Bytes) : readBack (0 :: l) = none := by
  rw [readBack_eq]
  simp

theorem readBack_percent (l : Bytes) :
    readBack (37 :: 37 :: l) = (readBack l).map ([37] ++ ·) := by
  rw [readBack_eq]
  simp

theorem readBack_doubled (l : Bytes) :
    readBack (39 :: 39 :: l) = (readBack l).map ([39] ++ ·) := by
  rw [readBack_eq]
  simp

theorem readBack_escaped_percent (l : Bytes) :
    readBack (92 :: 37 :: 37 :: l) = (readBack l).map ([92, 37] ++ ·) := by
  rw [readBack_eq]
  simp

theorem readBack_escaped_nul (l : Bytes) : readBack (92 :: 0 :: l) = none := by
  rw [readBack_eq]
  simp

theorem readBack_closed {l : Bytes} (h : l.head? ≠ some 39) : readBack (39 :: l) = some [] := by
  cases l with
  | nil => rfl
  | cons d l =>
    have hd : d ≠ 39 := by simpa using h
    rw [readBack_eq]
    simp [hd]

theorem readBack_escaped {d : UInt8} (h0 : d ≠ 0) (h37 : d ≠ 37) (l : Bytes) :
    readBack (92 :: d :: l) = (readBack l).map (unescape d ++ ·) := by
  rw [readBack_eq]
  simp [h0, h37]

theorem readBack_byte {c : UInt8} (h0 : c ≠ 0) (h37 : c ≠ 37) (h39 : c ≠ 39) (h92 : c ≠ 92)
    (l : Bytes) : readBack (c :: l) = (readBack l).map ([c] ++ ·) := by
  rw [readBack_eq]
  simp [h0, h37, h39, h92]

theorem ReadStep.of_some {raw v : Bytes} (h : readBack raw = some v) : ReadStep raw v := by
  cases raw with
  | nil => cases h
  | cons c l =>
    by_cases h0 : c = 0
    · subst h0
      rw [readBack_nul] at h
      cases h
    by_cases h37 : c = 37
    · subst h37
      cases l with
      | nil => cases h
      | cons d l =>
        by_cases hd : d = 37
        · subst hd
          rw [readBack_percent] at h
          obtain ⟨x, hx, rfl⟩ := Option.map_eq_some_iff.mp h
          exact .percent hx
        · rw [readBack_eq] at h
          simp [hd] at h
    by_cases h39 : c = 39
    · subst h39
      by_cases hl : l.head? = some 39
      · cases l with
        | nil => cases hl
        | cons d l =>
          obtain rfl : d = 39 := by simpa using hl
          rw [readBack_doubled] at h
          obtain ⟨x, hx, rfl⟩ := Option.map_eq_some_iff.mp h
          exact .doubled hx
      · rw [readBack_closed hl] at h
        obtain rfl := Option.some.inj h
        exact .closed hl
    by_cases h92 : c = 92
    · subst h92
      cases l with
      | nil => cases h
      | cons d l =>
        by_cases hd0 : d = 0
        · subst hd0
          rw [readBack_escaped_nul] at h
          cases h
        by_cases hd37 : d = 37
        · subst hd37
          cases l with
          | nil => cases h
          | cons e l =>
            by_cases he : e = 37
            · subst he
              rw [readBack_escaped_percent] at h
              obtain ⟨x, hx, rfl⟩ := Option.map_eq_some_iff.mp h
              exact .escapedPercent hx
            · rw [readBack_eq] at h
              simp [he] at h
        · rw [readBack_escaped hd0 hd37] at h
          obtain ⟨x, hx, rfl⟩ := Option.map_eq_some_iff.mp h
          exact .escaped hd0 hd37 hx
    · rw [readBack_byte h0 h37 h39 h92] at h
      obtain ⟨x, hx, rfl⟩ := Option.map_eq_some_iff.mp h
      exact .byte h0 h37 h39 h92 hx

/-- A percent sign that did not raise is one of two. -/
theorem format_percent_some {l o : Bytes} (h : format (37 :: l) [] = some o) :
    ∃ l' o', l = 37 :: l' ∧ format l' [] = some o' ∧ o = 37 :: o' := by
  by_cases hl : l.head? = some 37
  · cases l with
    | nil => cases hl
    | cons d l' =>
      obtain rfl : d = 37 := by simpa using hl
      rw [format_percent] at h
      obtain ⟨o', ho', rfl⟩ := Option.map_eq_some_iff.mp h
      exact ⟨l', o', rfl, ho', rfl⟩
  · rw [format_lone hl] at h
    cases h

/-- Behind the quote that ends it the literal is complete, whatever comes. -/
theorem lexFrom_closing {s l o : Bytes} {ts : List Token} (hl : l.head? ≠ some 39)
    (hf : format l [] = some o) (h : lexFrom (.closing 39 s) (cString o) = some ts) :
    ∃ rest, ts = .string s :: rest := by
  have hout : ∀ x y : _, cString o = x :: y → x ≠ 39 := by
    rintro x y hxy rfl
    cases l with
    | nil =>
      obtain rfl := Option.some.inj hf
      cases hxy
    | cons d l =>
      by_cases hd : d = 37
      · subst hd
        obtain ⟨l', o', -, -, rfl⟩ := format_percent_some hf
        rw [cString_cons (by decide)] at hxy
        exact absurd (List.cons.inj hxy).1 (by decide)
      · obtain ⟨o', -, rfl⟩ := format_cons_some hd hf
        by_cases h0 : d = 0
        · rw [h0, cString_nul] at hxy
          cases hxy
        · rw [cString_cons h0] at hxy
          exact hl (by rw [(List.cons.inj hxy).1]; rfl)
  cases hc : cString o with
  | nil =>
    rw [hc] at h
    exact ⟨[], (Option.some.inj h).symm⟩
  | cons x y =>
    rw [hc, lexFrom, step, if_neg (hout x y hc)] at h
    obtain ⟨us, -, rfl⟩ := Option.map_eq_some_iff.mp h
    exact ⟨_, rfl⟩

/-- What the lexer makes of the literal is what `readBack` says. -/
theorem lexFrom_readBack {raw o s : Bytes} {ts : List Token} (hf : format raw [] = some o)
    (hl : lexFrom (.quoted 39 s) (cString o) = some ts) :
    ∃ v rest, readBack raw = some v ∧ ts = .string (s ++ v) :: rest := by
  induction hn : raw.length using Nat.strong_induction_on generalizing raw o s ts with
  | _ n ih =>
    -- what is left behind the bytes read, with what they stand for
    have hgo : ∀ {l o' x : Bytes}, l.length < n → format l [] = some o' →
        lexFrom (.quoted 39 (s ++ x)) (cString o') = some ts →
        ∃ v rest, (readBack l).map (x ++ ·) = some v ∧ ts = .string (s ++ v) :: rest := by
      intro l o' x hlen hf hl
      obtain ⟨v, rest, hv, hts⟩ := ih l.length hlen hf hl rfl
      exact ⟨x ++ v, rest, by rw [hv]; rfl, by rw [hts, List.append_assoc]⟩
    cases raw with
    | nil =>
      obtain rfl := Option.some.inj hf
      cases hl
    | cons c l =>
      rw [List.length_cons] at hn
      by_cases h37 : c = 37
      · subst h37
        obtain ⟨l', o', rfl, hf', rfl⟩ := format_percent_some hf
        rw [cString_cons (by decide)] at hl
        rw [List.length_cons] at hn
        rw [readBack_percent]
        exact hgo (by omega) hf' (lexFrom_silent rfl hl)
      · obtain ⟨o', hf', rfl⟩ := format_cons_some h37 hf
        by_cases h0 : c = 0
        · rw [h0, cString_nul] at hl
          cases hl
        · rw [cString_cons h0] at hl
          by_cases h39 : c = 39
          · subst h39
            have hclosing : lexFrom (.closing 39 s) (cString o') = some ts := lexFrom_silent rfl hl
            by_cases hd : l.head? = some 39
            · cases l with
              | nil => cases hd
              | cons d l' =>
                obtain rfl : d = 39 := by simpa using hd
                obtain ⟨o'', hf'', rfl⟩ := format_cons_some (by decide) hf'
                rw [cString_cons (by decide)] at hclosing
                rw [List.length_cons] at hn
                rw [readBack_doubled]
                exact hgo (by omega) hf'' (lexFrom_silent rfl hclosing)
            · obtain ⟨rest, rfl⟩ := lexFrom_closing hd hf' hclosing
              exact ⟨[], rest, readBack_closed hd, by rw [List.append_nil]⟩
          · by_cases h92 : c = 92
            · subst h92
              have hescaped : lexFrom (.escaped 39 s) (cString o') = some ts := lexFrom_silent rfl hl
              cases l with
              | nil =>
                obtain rfl := Option.some.inj hf'
                cases hescaped
              | cons d l' =>
                rw [List.length_cons] at hn
                by_cases hd37 : d = 37
                · subst hd37
                  obtain ⟨l'', o'', rfl, hf'', rfl⟩ := format_percent_some hf'
                  rw [cString_cons (by decide)] at hescaped
                  rw [List.length_cons] at hn
                  rw [readBack_escaped_percent]
                  exact hgo (by omega) hf'' (lexFrom_silent rfl hescaped)
                · obtain ⟨o'', hf'', rfl⟩ := format_cons_some hd37 hf'
                  by_cases hd0 : d = 0
                  · rw [hd0, cString_nul] at hescaped
                    cases hescaped
                  · rw [cString_cons hd0] at hescaped
                    rw [readBack_escaped hd0 hd37]
                    exact hgo (by omega) hf'' (lexFrom_silent rfl hescaped)
            · have hstep : step (.quoted 39 s) c = ([], .quoted 39 (s ++ [c])) := by
                rw [step, if_neg h39, if_neg (by simp [h92])]
              rw [readBack_byte h0 h37 h39 h92]
              exact hgo (by omega) hf' (lexFrom_silent hstep hl)

/-! ## Once behind, always behind -/

/-- The bytes of which two stand for one. -/
def Special (c : UInt8) : Prop := c = 37 ∨ c = 39 ∨ c = 92

theorem special_append {b b' : Bytes} (hb : ∀ c ∈ b, Special c) (hb' : ∀ c ∈ b', Special c) :
    ∀ c ∈ b ++ b', Special c := by
  intro c hc
  rcases List.mem_append.mp hc with hc | hc
  · exact hb c hc
  · exact hb' c hc

/-- What is due begins with a special byte. -/
theorem special_head {b t : Bytes} (hb : ∀ c ∈ b, Special c) {c : UInt8} (hc : Special c) {e : UInt8}
    {f : Bytes} (h : b ++ c :: t = e :: f) : Special e := by
  cases b with
  | nil =>
    rw [← (List.cons.inj h).1]
    exact hc
  | cons d b =>
    rw [← (List.cons.inj h).1]
    exact hb d List.mem_cons_self

/-- Escapes of one byte that stand for a special byte are that byte itself. -/
theorem unescape_special {d e : UInt8} {v t : Bytes} (hd : d ≠ 37) (he : Special e)
    (h : unescape d ++ v = e :: t) : (Special d ∧ v = t) ∨ (d = 95 ∧ t = 95 :: v) := by
  unfold unescape at h
  have hno : ∀ x : UInt8, ¬ Special x → [x] ++ v ≠ e :: t := by
    rintro x hx heq
    exact hx ((List.cons.inj heq).1 ▸ he)
  by_cases h95 : d = 95
  · subst h95
    exact .inr ⟨rfl, (List.cons.inj h).2.symm⟩
  · left
    simp only [if_neg hd, if_neg h95] at h
    split at h
    · exact absurd h (hno _ (by unfold Special; decide))
    split at h
    · exact absurd h (hno _ (by unfold Special; decide))
    split at h
    · exact absurd h (hno _ (by unfold Special; decide))
    split at h
    · exact absurd h (hno _ (by unfold Special; decide))
    split at h
    · exact absurd h (hno _ (by unfold Special; decide))
    split at h
    · exact absurd h (hno _ (by unfold Special; decide))
    · obtain ⟨rfl, rfl⟩ := List.cons.inj h
      exact ⟨he, rfl⟩

theorem not_special_comma : ¬ Special 44 := by unfold Special; decide

/-- Behind the closing quote the value would go on with a comma. -/
theorem readBack_comma {r v : Bytes} (h : readBack (44 :: r) = some v) : ∃ t, v = 44 :: t := by
  rw [readBack_byte (by decide) (by decide) (by decide) (by decide)] at h
  obtain ⟨t, -, rfl⟩ := Option.map_eq_some_iff.mp h
  exact ⟨t, rfl⟩

/-- The literal cannot make up for a special byte it has lost: whatever stands for one is
itself two special bytes that are due. -/
theorem readBack_behind {w b z r : Bytes} (hb : b ≠ []) (hs : ∀ c ∈ b, Special c) :
    readBack (w ++ 39 :: 44 :: r) ≠ some (b ++ w ++ z) := by
  induction hn : w.length using Nat.strong_induction_on generalizing w b with
  | _ n ih =>
    intro h
    obtain ⟨e, b, rfl⟩ := List.exists_cons_of_ne_nil hb
    have he := hs e List.mem_cons_self
    have hs' : ∀ c ∈ b, Special c := fun c hc => hs c (List.mem_cons_of_mem _ hc)
    -- the bytes of `w` that were read are due in their turn
    have hdue : ∀ (x w' : Bytes), w = x ++ w' → x ≠ [] → (∀ c ∈ x, Special c) →
        ∀ b', (∀ c ∈ b', Special c) → readBack (w' ++ 39 :: 44 :: r) ≠ some (b' ++ w ++ z) := by
      rintro x w' rfl hx hxs b' hb'
      have hlt : w'.length < n := by
        have := List.length_pos_iff.mpr hx
        rw [← hn, List.length_append]
        omega
      have := ih w'.length hlt (w := w') (b := b' ++ x) (by simp [hx]) (special_append hb' hxs) rfl
      rwa [List.append_assoc b'] at this
    have hstep := ReadStep.of_some h
    rw [List.cons_append, List.cons_append] at hstep
    generalize hraw : w ++ 39 :: 44 :: r = raw at hstep
    generalize hval : e :: (b ++ w ++ z) = v at hstep
    cases hstep with
    | closed hl => cases hval
    | doubled hv =>
      obtain ⟨-, rfl⟩ := List.cons.inj hval
      rcases w with _ | ⟨c, _ | ⟨d, w⟩⟩ <;>
        simp only [List.cons_append, List.nil_append, List.cons.injEq] at hraw
      · exact absurd hraw.2.1 (by decide)
      · obtain ⟨rfl, -, rfl⟩ := hraw
        obtain ⟨t, ht⟩ := readBack_comma hv
        rw [List.append_assoc] at ht
        exact not_special_comma (special_head hs' (.inr (.inl rfl)) ht)
      · obtain ⟨rfl, rfl, rfl⟩ := hraw
        exact hdue [39, 39] w rfl (by simp) (by simp [Special]) b hs' hv
    | percent hv =>
      obtain ⟨-, rfl⟩ := List.cons.inj hval
      rcases w with _ | ⟨c, _ | ⟨d, w⟩⟩ <;>
        simp only [List.cons_append, List.nil_append, List.cons.injEq] at hraw
      · exact absurd hraw.1 (by decide)
      · exact absurd hraw.2.1 (by decide)
      · obtain ⟨rfl, rfl, rfl⟩ := hraw
        exact hdue [37, 37] w rfl (by simp) (by simp [Special]) b hs' hv
    | escapedPercent hv =>
      have htail := (List.cons.inj hval).2
      rcases w with _ | ⟨c, _ | ⟨d, _ | ⟨x, w⟩⟩⟩ <;>
        simp only [List.cons_append, List.nil_append, List.cons.injEq] at hraw
      · exact absurd hraw.1 (by decide)
      · exact absurd hraw.2.1 (by decide)
      · exact absurd hraw.2.2.1 (by decide)
      · obtain ⟨rfl, rfl, rfl, rfl⟩ := hraw
        cases b with
        | nil => exact absurd (List.cons.inj htail).1 (by decide)
        | cons y b =>
          obtain ⟨-, rfl⟩ := List.cons.inj htail
          exact hdue [92, 37, 37] w rfl (by simp) (by simp [Special]) b
            (fun c hc => hs' c (List.mem_cons_of_mem _ hc)) hv
    | escaped h0 h37 hv =>
      rcases unescape_special h37 he hval.symm with ⟨hd, rfl⟩ | ⟨rfl, hdue95⟩
      · rcases w with _ | ⟨c, _ | ⟨d, w⟩⟩ <;>
          simp only [List.cons_append, List.nil_append, List.cons.injEq] at hraw
        · exact absurd hraw.1 (by decide)
        · obtain ⟨rfl, -, rfl⟩ := hraw
          obtain ⟨t, ht⟩ := readBack_comma hv
          rw [List.append_assoc] at ht
          exact not_special_comma (special_head hs' (.inr (.inr rfl)) ht)
        · obtain ⟨rfl, rfl, rfl⟩ := hraw
          exact hdue [92, d] w rfl (by simp) (by simp [Special]; exact hd) b hs' hv
      · cases w with
        | nil =>
          simp only [List.nil_append, List.cons.injEq] at hraw
          exact absurd hraw.1 (by decide)
        | cons c w =>
          simp only [List.cons_append, List.cons.injEq] at hraw
          obtain ⟨rfl, -⟩ := hraw
          rw [List.append_assoc] at hdue95
          have := special_head hs' (.inr (.inr rfl)) hdue95
          exact absurd this (by unfold Special; decide)
    | byte h0 h37 h39 h92 hv =>
      obtain ⟨rfl, -⟩ := List.cons.inj hval
      rcases he with he | he | he
      · exact h37 he
      · exact h39 he
      · exact h92 he

/-- A literal that has the value it should has lost nothing on the way: the string is
plain. `z` is what was cut off at a NUL. -/
theorem plain_of_readBack {w z r : Bytes} (hz : z.head?.getD 0 = 0)
    (h : readBack (w ++ 39 :: 44 :: r) = some (w ++ z)) : Plain w ∧ z = [] := by
  induction hn : w.length using Nat.strong_induction_on generalizing w with
  | _ n ih =>
    have hstep := ReadStep.of_some h
    generalize hraw : w ++ 39 :: 44 :: r = raw at hstep
    generalize hval : w ++ z = v at hstep
    -- a special byte is lost here, and it cannot be made up for
    have hlost : ∀ (w' b v' : Bytes), b ≠ [] → (∀ c ∈ b, Special c) → v' = b ++ w' ++ z →
        readBack (w' ++ 39 :: 44 :: r) = some v' → False := by
      rintro w' b v' hb hs rfl hv
      exact readBack_behind hb hs hv
    cases hstep with
    | closed hl =>
      obtain ⟨rfl, rfl⟩ := List.append_eq_nil_iff.mp hval
      exact ⟨.nil, rfl⟩
    | doubled hv =>
      exfalso
      rcases w with _ | ⟨c, _ | ⟨d, w⟩⟩ <;>
        simp only [List.cons_append, List.nil_append, List.cons.injEq] at hraw hval
      · exact absurd hraw.2.1 (by decide)
      · obtain ⟨t, ht⟩ := readBack_comma (hraw.2.2 ▸ hv)
        rw [hval.2, ht] at hz
        exact absurd hz (by simp)
      · obtain ⟨rfl, rfl, rfl⟩ := hraw
        exact hlost w [39] _ (by simp) (by simp [Special]) hval.2.symm hv
    | percent hv =>
      exfalso
      rcases w with _ | ⟨c, _ | ⟨d, w⟩⟩ <;>
        simp only [List.cons_append, List.nil_append, List.cons.injEq] at hraw hval
      · exact absurd hraw.1 (by decide)
      · exact absurd hraw.2.1 (by decide)
      · obtain ⟨rfl, rfl, rfl⟩ := hraw
        exact hlost w [37] _ (by simp) (by simp [Special]) hval.2.symm hv
    | escapedPercent hv =>
      exfalso
      rcases w with _ | ⟨c, _ | ⟨d, _ | ⟨e, w⟩⟩⟩ <;>
        simp only [List.cons_append, List.nil_append, List.cons.injEq] at hraw hval
      · exact absurd hraw.1 (by decide)
      · exact absurd hraw.2.1 (by decide)
      · exact absurd hraw.2.2.1 (by decide)
      · obtain ⟨rfl, rfl, rfl, rfl⟩ := hraw
        exact hlost w [37] _ (by simp) (by simp [Special]) hval.2.2.symm hv
    | @escaped e l v h0 h37 hv =>
      rcases w with _ | ⟨c, _ | ⟨d, w⟩⟩ <;>
        simp only [List.cons_append, List.nil_append, List.cons.injEq] at hraw hval
      · exact absurd hraw.1 (by decide)
      · -- the closing quote was escaped
        obtain ⟨rfl, rfl, -⟩ := hraw
        exact absurd (List.cons.inj hval).1 (by decide)
      · obtain ⟨rfl, rfl, rfl⟩ := hraw
        rcases unescape_special h37 (.inr (.inr rfl)) hval.symm with ⟨hd, rfl⟩ | ⟨rfl, hval⟩
        · exact (hlost w [d] _ (by simp) (by simpa using hd) rfl hv).elim
        · obtain rfl := (List.cons.inj hval).2
          obtain ⟨hplain, rfl⟩ := ih w.length (by rw [← hn]; simp) hv rfl
          have hunder : Plain (95 :: w) :=
            hplain.cons (by decide) (by decide) (by decide) (fun h => absurd h (by decide))
          exact ⟨hunder.cons (by decide) (by decide) (by decide) (fun _ => rfl), rfl⟩
    | byte h0 h37 h39 h92 hv =>
      rcases w with _ | ⟨c, w⟩ <;>
        simp only [List.cons_append, List.nil_append, List.cons.injEq] at hraw hval
      · exact absurd hraw.1.symm h39
      · obtain ⟨rfl, rfl⟩ := hraw
        obtain ⟨hplain, rfl⟩ := ih w.length (by rw [← hn]; simp) (by rw [hv, hval.2]) rfl
        exact ⟨hplain.cons h0 h37 h39 (fun h => absurd h h92), rfl⟩

/-! ## The statement piece by piece -/

/-- Neither a percent sign nor a NUL: both formats and the C string leave it as it is. -/
structure Clean (l : Bytes) : Prop where
  percent : 37 ∉ l
  nul : 0 ∉ l

theorem Clean.append {a b : Bytes} (ha : Clean a) (hb : Clean b) : Clean (a ++ b) :=
  ⟨by simp [ha.percent, hb.percent], by simp [ha.nul, hb.nul]⟩

theorem Plain.clean {s : Bytes} (h : Plain s) : Clean s := ⟨h.percent, h.nul⟩

theorem clean_decimal (n : ℕ) : Clean (decimal n) := by
  constructor <;> intro h <;> exact absurd (mem_decimal h) (by decide)

theorem clean_decimalInt (n : ℤ) : Clean (decimalInt n) := by
  unfold decimalInt
  split
  · have h : Clean [45] := ⟨by decide, by decide⟩
    exact h.append (clean_decimal _)
  · exact clean_decimal _

theorem cString_append {a : Bytes} (h : Clean a) (b : Bytes) : cString (a ++ b) = a ++ cString b := by
  unfold cString
  rw [List.takeWhile_append_of_pos]
  intro c hc
  simp only [ne_eq, decide_eq_true_eq]
  rintro rfl
  exact h.nul hc

/-- What stands before comes through `exec` as it is. -/
theorem exec_append {a : Bytes} (h : Clean a) (b : Bytes) :
    exec (a ++ b) = (exec b).map (a ++ ·) := by
  unfold exec
  rw [format_append h.percent, Option.map_map, Option.map_map]
  congr 1
  funext o
  exact cString_append h o

theorem exec_clean {a : Bytes} (h : Clean a) : exec a = some a := by
  have := exec_append h []
  rw [List.append_nil] at this
  rw [this]
  show some (a ++ []) = some a
  rw [List.append_nil]

/-- A literal that is plain, up to what stands behind it. -/
theorem runs_literal {w : Bytes} (hw : Plain w) {c : UInt8} {l : Bytes} {ts : List Token} {m : Mode}
    (hc : c ≠ 39) (h : Runs (.code []) (c :: l) ts m) :
    Runs (.quoted 39 []) (w ++ 39 :: c :: l) (quoted w ++ ts) m := by
  have hquoted := hw.runs []
  rw [List.nil_append] at hquoted
  exact hquoted.append (runs_close hc h)

theorem runs_dash {d : UInt8} {l : Bytes} {ts : List Token} {m : Mode} (hd : d ≠ 45)
    (h : Runs (.code []) (d :: l) ts m) : Runs .dash (d :: l) (.punct 45 :: ts) m := by
  refine .of_step ?_ h
  rw [step_code_nil, step, if_neg hd]

/-- A number, up to its last digit. -/
theorem runs_digits (n : ℤ) : Runs (.code []) (decimalInt n) (if n < 0 then sign 45 else [])
    (.code (decimal n.natAbs)) := by
  have hword : Runs (.code []) (decimal n.natAbs) [] (.code (decimal n.natAbs)) := by
    have hdigits : ∀ b ∈ decimal n.natAbs, isWord b = true := by
      intro b hb
      have := mem_decimal hb
      simp [isWord, this]
    exact runs_word hdigits []
  unfold decimalInt
  split
  · obtain ⟨d, ds, hds⟩ := List.exists_cons_of_ne_nil (decimal_ne_nil n.natAbs)
    have hd : d ≠ 45 := by
      rintro rfl
      have : (45 : UInt8) ∈ decimal n.natAbs := hds ▸ List.mem_cons_self
      exact absurd (mem_decimal this) (by decide)
    rw [hds] at hword ⊢
    exact .cons (m := .code []) (c := 45) (runs_dash hd hword)
  · exact hword

/-- A number, up to what stands behind it. -/
theorem runs_int (n : ℤ) {c : UInt8} {l : Bytes} {ts : List Token} {m : Mode}
    (hc : isWord c = false) (h : Runs (.code []) (c :: l) ts m) :
    Runs (.code []) (decimalInt n ++ c :: l) (intTokens n ++ ts) m := by
  have := (runs_digits n).append (runs_flush (decimal_ne_nil _) hc h)
  unfold intTokens
  rwa [List.append_assoc]

/-! ## When the statement is read as it is meant -/

theorem Clean.cons {c : UInt8} {l : Bytes} (h : Clean l) (h37 : c ≠ 37) (h0 : c ≠ 0) :
    Clean (c :: l) :=
  ⟨by simp [h.percent, h37.symm], by simp [h.nul, h0.symm]⟩

/-- The texts between the values. -/
theorem clean_texts :
    Clean (ascii "insert into dt_safe_box set uid = ") ∧ Clean (ascii " gamecurrency = ") ∧
    Clean (ascii "pwd = '") ∧ Clean (ascii " question = '") ∧ Clean (ascii " answer = '") ∧
    Clean (ascii " atime = ") ∧
    Clean (ascii "ON DUPLICATE KEY UPDATE gamecurrency = gamecurrency + ") := by
  refine ⟨⟨?_, ?_⟩, ⟨?_, ?_⟩, ⟨?_, ?_⟩, ⟨?_, ?_⟩, ⟨?_, ?_⟩, ⟨?_, ?_⟩, ⟨?_, ?_⟩⟩ <;> decide +kernel

/-- The pieces of the format are those texts, a comma or a blank before and `%d` or `%s'` behind
them. -/
theorem format_texts :
    ascii "insert into dt_safe_box set uid = %d" =
      ascii "insert into dt_safe_box set uid = " ++ [37, 100] ∧
    ascii ", gamecurrency = %d" = (44 :: ascii " gamecurrency = ") ++ [37, 100] ∧
    ascii ", pwd = '%s'" = (44 :: 32 :: ascii "pwd = '") ++ [37, 115, 39] ∧
    ascii ", question = '%s'" = (44 :: ascii " question = '") ++ [37, 115, 39] ∧
    ascii ", answer = '%s'" = (44 :: ascii " answer = '") ++ [37, 115, 39] ∧
    ascii ", atime = %d" = (44 :: ascii " atime = ") ++ [37, 100] ∧
    ascii " ON DUPLICATE KEY UPDATE gamecurrency = gamecurrency + %d" =
      (32 :: ascii "ON DUPLICATE KEY UPDATE gamecurrency = gamecurrency + ") ++ [37, 100] := by
  refine ⟨?_, ?_, ?_, ?_, ?_, ?_, ?_⟩ <;> decide +kernel

/-- How the texts are read. -/
theorem run_texts :
    run (.code []) (ascii "insert into dt_safe_box set uid = ") =
      (words ["insert", "into", "dt_safe_box", "set", "uid"] ++ sign 61, .code []) ∧
    run (.code []) (44 :: ascii " gamecurrency = ") =
      (sign 44 ++ words ["gamecurrency"] ++ sign 61, .code []) ∧
    run (.code []) (ascii "pwd = '") = (words ["pwd"] ++ sign 61, .quoted 39 []) ∧
    run (.code []) (44 :: ascii " question = '") =
      (sign 44 ++ words ["question"] ++ sign 61, .quoted 39 []) ∧
    run (.code []) (44 :: ascii " answer = '") =
      (sign 44 ++ words ["answer"] ++ sign 61, .quoted 39 []) ∧
    run (.code []) (44 :: ascii " atime = ") =
      (sign 44 ++ words ["atime"] ++ sign 61, .code []) ∧
    run (.code []) (32 :: ascii "ON DUPLICATE KEY UPDATE gamecurrency = gamecurrency + ") =
      (words ["ON", "DUPLICATE", "KEY", "UPDATE", "gamecurrency"] ++ sign 61 ++
        words ["gamecurrency"] ++ sign 43, .code []) := by
  refine ⟨?_, ?_, ?_, ?_, ?_, ?_, ?_⟩ <;> decide +kernel

/-- `pwd = '…', question = '…', answer = '…'` and what stands behind it. -/
def boxText (msg : SafeBox) (rest : Bytes) : Bytes :=
  ascii "pwd = '" ++ (ofString msg.pwd ++ 39 :: 44 :: (ascii " question = '" ++
    (ofString msg.question ++ 39 :: 44 :: (ascii " answer = '" ++
      (ofString msg.answer ++ 39 :: rest)))))

/-- From the second half of the statement on. -/
def updateText (msg : SafeBox) (time : ℤ) : Bytes :=
  44 :: (ascii " atime = " ++ (decimalInt time ++ 32 :: (ascii
    "ON DUPLICATE KEY UPDATE gamecurrency = gamecurrency + " ++
      (decimalInt msg.upmoney ++ 44 :: 32 :: boxText msg []))))

def headText (msg : SafeBox) : Bytes :=
  ascii "insert into dt_safe_box set uid = " ++ (decimalInt msg.uid ++ 44 :: (ascii
    " gamecurrency = " ++ (decimalInt msg.money ++ [44, 32])))

/-- A piece of the format that ends in `'%s'`. -/
theorem format_text {a : Bytes} {name : String} (ha : 37 ∉ a)
    (h : ascii name = a ++ [37, 115, 39]) (x l : Bytes) (args : List Arg) :
    format (ascii name ++ l) (.str x :: args) =
      (format l args).map (a ++ ofString x ++ 39 :: ·) := by
  rw [h, List.append_assoc, format_append ha]
  show (format (37 :: 115 :: 39 :: l) (.str x :: args)).map _ = _
  rw [format_str, format_cons (by decide), Option.map_map, Option.map_map]
  congr 1
  funext o
  simp

/-- A piece of the format that ends in `%d`. -/
theorem format_number {a : Bytes} {name : String} (ha : 37 ∉ a) (h : ascii name = a ++ [37, 100])
    (n : ℤ) (l : Bytes) (args : List Arg) :
    format (ascii name ++ l) (.int n :: args) = (format l args).map (a ++ decimalInt n ++ ·) := by
  rw [h, List.append_assoc, format_append ha]
  show (format (37 :: 100 :: l) (.int n :: args)).map _ = _
  rw [format_int, Option.map_map]
  congr 1
  funext o
  simp

theorem format_safeBox (msg : SafeBox) (time : ℤ) :
    format safeBoxFormat [.int msg.uid, .int msg.money, .str msg.pwd, .str msg.question,
      .str msg.answer, .int time, .int msg.upmoney, .str msg.pwd, .str msg.question,
      .str msg.answer] = some (headText msg ++ boxText msg (updateText msg time)) := by
  obtain ⟨hinsert, hcurrency, hpwd, hquestion, hanswer, hatime, hupdate⟩ := format_texts
  obtain ⟨cinsert, ccurrency, cpwd, cquestion, canswer, catime, cupdate⟩ := clean_texts
  have hinsert' := cinsert.percent
  have hcurrency' := (ccurrency.cons (c := 44) (by decide) (by decide)).percent
  have hpwd' := ((cpwd.cons (c := 32) (by decide) (by decide)).cons (c := 44) (by decide)
    (by decide)).percent
  have hquestion' := (cquestion.cons (c := 44) (by decide) (by decide)).percent
  have hanswer' := (canswer.cons (c := 44) (by decide) (by decide)).percent
  have hatime' := (catime.cons (c := 44) (by decide) (by decide)).percent
  have hupdate' := (cupdate.cons (c := 32) (by decide) (by decide)).percent
  have hlast := format_text hanswer' hanswer msg.answer [] []
  rw [List.append_nil] at hlast
  unfold safeBoxFormat
  rw [format_number hinsert' hinsert, format_number hcurrency' hcurrency, format_text hpwd' hpwd,
    format_text hquestion' hquestion, format_text hanswer' hanswer, format_number hatime' hatime,
    format_number hupdate' hupdate, format_text hpwd' hpwd, format_text hquestion' hquestion, hlast,
    format_nil]
  unfold headText boxText updateText boxText
  simp only [Option.map_some, List.append_assoc, List.cons_append, List.nil_append]

theorem sent_eq (msg : SafeBox) (time : ℤ) :
    SQL_UPDATE_SAFE_BOX msg time = exec (headText msg ++ boxText msg (updateText msg time)) := by
  rw [SQL_UPDATE_SAFE_BOX, format_safeBox, Option.bind_some]

/-- The literal that was begun has the value that is read back from the text behind it. -/
theorem readBack_of_lex {pre raw w : Bytes} {ts ts' : List Token} (hpre : Clean pre)
    (hruns : Runs (.code []) pre ts (.quoted 39 []))
    (h : (exec (pre ++ raw)).bind lex = some (ts ++ .string w :: ts')) :
    readBack raw = some w := by
  rw [exec_append hpre, Option.bind_eq_some_iff] at h
  obtain ⟨sql, hsql, hlex⟩ := h
  obtain ⟨o, ho, rfl⟩ := Option.map_eq_some_iff.mp hsql
  obtain ⟨out, hout, rfl⟩ := Option.map_eq_some_iff.mp ho
  -- what the lexer reads from the quote on
  unfold lex at hlex
  rw [hruns (cString out)] at hlex
  obtain ⟨us, hus, heq⟩ := Option.map_eq_some_iff.mp hlex
  obtain rfl := List.append_cancel_left heq
  obtain ⟨v, rest, hv, htoken⟩ := lexFrom_readBack hout hus
  obtain ⟨hw, -⟩ := List.cons.inj htoken
  rw [Token.string.injEq, List.nil_append] at hw
  rw [hv, hw]

/-- The literal that was begun is the string: the string is plain. -/
theorem plain_of_lex {pre w rest : Bytes} {ts ts' : List Token} (hpre : Clean pre)
    (hruns : Runs (.code []) pre ts (.quoted 39 []))
    (h : (exec (pre ++ (ofString w ++ 39 :: 44 :: rest))).bind lex =
      some (ts ++ .string w :: ts')) : Plain w := by
  have hw := readBack_of_lex hpre hruns h
  obtain ⟨z, hcut, hz⟩ := ofString_cut w
  obtain ⟨hplain, rfl⟩ := plain_of_readBack hz (hw.trans (congrArg some hcut))
  rw [hcut, List.append_nil]
  exact hplain

/-- From one literal to the beginning of the next. -/
theorem runs_field {w piece l : Bytes} {ts₀ ts : List Token} {m : Mode} (hw : Plain w)
    (hpiece : run (.code []) (44 :: piece) = (ts₀, .quoted 39 []))
    (h : Runs (.quoted 39 []) l ts m) :
    Runs (.quoted 39 []) (w ++ 39 :: 44 :: (piece ++ l)) (quoted w ++ (ts₀ ++ ts)) m := by
  apply runs_literal hw (by decide)
  exact (runs_of_run hpiece).append h

/-- The tokens before `pwd`. -/
def headTokens (msg : SafeBox) : List Token :=
  words ["insert", "into", "dt_safe_box", "set", "uid"] ++ sign 61 ++ (intTokens msg.uid ++
    (sign 44 ++ words ["gamecurrency"] ++ sign 61 ++ (intTokens msg.money ++ sign 44)))

theorem runs_headText (msg : SafeBox) :
    Runs (.code []) (headText msg) (headTokens msg) (.code []) := by
  obtain ⟨hhead, hcurrency, -⟩ := run_texts
  have hcomma : run (.code []) [44, 32] = (sign 44, .code []) := by decide
  have hmoney := runs_int msg.money (by decide) (runs_of_run hcomma)
  have hrest := (runs_of_run hcurrency).append hmoney
  rw [List.cons_append] at hrest
  have := (runs_of_run hhead).append (runs_int msg.uid (by decide) hrest)
  unfold headText headTokens
  simpa only [List.append_assoc, List.cons_append, List.nil_append] using this

/-- `pwd = '…', question = '`. -/
def pwdText (msg : SafeBox) : Bytes :=
  ascii "pwd = '" ++ (msg.pwd ++ 39 :: 44 :: ascii " question = '")

def pwdTokens (msg : SafeBox) : List Token :=
  words ["pwd"] ++ sign 61 ++ (quoted msg.pwd ++ (sign 44 ++ words ["question"] ++ sign 61))

theorem runs_pwdText {msg : SafeBox} (hpwd : Plain msg.pwd) :
    Runs (.code []) (pwdText msg) (pwdTokens msg) (.quoted 39 []) := by
  obtain ⟨-, -, hbegin, hquestion, -⟩ := run_texts
  have := (runs_of_run hbegin).append (runs_field hpwd hquestion (.nil _))
  unfold pwdText pwdTokens
  simpa only [List.append_assoc, List.append_nil] using this

/-- `…', answer = '`. -/
def questionText (msg : SafeBox) : Bytes := msg.question ++ 39 :: 44 :: ascii " answer = '"

def questionTokens (msg : SafeBox) : List Token :=
  quoted msg.question ++ (sign 44 ++ words ["answer"] ++ sign 61)

theorem runs_questionText {msg : SafeBox} (hquestion : Plain msg.question) :
    Runs (.quoted 39 []) (questionText msg) (questionTokens msg) (.quoted 39 []) := by
  obtain ⟨-, -, -, -, hanswer, -⟩ := run_texts
  have := runs_field hquestion hanswer (.nil _)
  unfold questionText questionTokens
  simpa only [List.append_nil] using this

/-- From the end of the first answer to the second `pwd`. -/
def atimeText (msg : SafeBox) (time : ℤ) : Bytes :=
  ascii " atime = " ++ (decimalInt time ++ 32 :: (ascii
    "ON DUPLICATE KEY UPDATE gamecurrency = gamecurrency + " ++ (decimalInt msg.upmoney ++ [44, 32])))

def atimeTokens (msg : SafeBox) (time : ℤ) : List Token :=
  sign 44 ++ words ["atime"] ++ sign 61 ++ (intTokens time ++
    (words ["ON", "DUPLICATE", "KEY", "UPDATE", "gamecurrency"] ++ sign 61 ++
      words ["gamecurrency"] ++ sign 43 ++ (intTokens msg.upmoney ++ sign 44)))

theorem runs_atimeText (msg : SafeBox) (time : ℤ) :
    Runs (.code []) (44 :: atimeText msg time) (atimeTokens msg time) (.code []) := by
  obtain ⟨-, -, -, -, -, hatime, hupdate⟩ := run_texts
  have hcomma : run (.code []) [44, 32] = (sign 44, .code []) := by decide
  have hupmoney := runs_int msg.upmoney (by decide) (runs_of_run hcomma)
  have hrest := (runs_of_run hupdate).append hupmoney
  rw [List.cons_append] at hrest
  have := (runs_of_run hatime).append (runs_int time (by decide) hrest)
  unfold atimeText atimeTokens
  simpa only [List.append_assoc, List.cons_append, List.nil_append] using this

/-- The pieces around the strings make up the statement. -/
theorem intended_eq (msg : SafeBox) (time : ℤ) :
    intended msg time = headTokens msg ++ pwdTokens msg ++ questionTokens msg ++
      (quoted msg.answer ++ (atimeTokens msg time ++
        (pwdTokens msg ++ questionTokens msg ++ quoted msg.answer))) := by
  unfold intended boxTokens headTokens pwdTokens questionTokens atimeTokens
  simp only [List.append_assoc]

theorem clean_headText (msg : SafeBox) : Clean (headText msg) := by
  obtain ⟨hhead, hcurrency, -⟩ := clean_texts
  have hcomma : Clean [44, 32] := ⟨by decide, by decide⟩
  exact hhead.append ((clean_decimalInt _).append
    ((hcurrency.cons (by decide) (by decide)).append ((clean_decimalInt _).append hcomma)))

theorem clean_pwdText {msg : SafeBox} (hpwd : Plain msg.pwd) : Clean (pwdText msg) := by
  obtain ⟨-, -, hbegin, hquestion, -⟩ := clean_texts
  exact hbegin.append (hpwd.clean.append
    ((hquestion.cons (by decide) (by decide)).cons (by decide) (by decide)))

theorem clean_questionText {msg : SafeBox} (hquestion : Plain msg.question) :
    Clean (questionText msg) := by
  obtain ⟨-, -, -, -, hanswer, -⟩ := clean_texts
  exact hquestion.clean.append
    ((hanswer.cons (by decide) (by decide)).cons (by decide) (by decide))

theorem clean_atimeText (msg : SafeBox) (time : ℤ) : Clean (atimeText msg time) := by
  obtain ⟨-, -, -, -, -, hatime, hupdate⟩ := clean_texts
  have hcomma : Clean [44, 32] := ⟨by decide, by decide⟩
  exact hatime.append ((clean_decimalInt _).append
    ((hupdate.cons (by decide) (by decide)).append ((clean_decimalInt _).append hcomma)))

theorem text_upto_question {msg : SafeBox} (hpwd : Plain msg.pwd) (rest : Bytes) :
    headText msg ++ boxText msg rest = (headText msg ++ pwdText msg) ++
      (ofString msg.question ++ 39 :: 44 ::
        (ascii " answer = '" ++ (ofString msg.answer ++ 39 :: rest))) := by
  unfold boxText pwdText
  rw [ofString_of_no_nul hpwd.nul]
  simp only [List.append_assoc, List.cons_append]

theorem text_upto_answer {msg : SafeBox} (hpwd : Plain msg.pwd) (hquestion : Plain msg.question)
    (rest : Bytes) :
    headText msg ++ boxText msg rest = (headText msg ++ pwdText msg ++ questionText msg) ++
      (ofString msg.answer ++ 39 :: rest) := by
  rw [text_upto_question hpwd, ofString_of_no_nul hquestion.nul]
  unfold questionText
  simp only [List.append_assoc, List.cons_append]

theorem updateText_eq (msg : SafeBox) (time : ℤ) : updateText msg time =
    44 :: (ascii " atime = " ++ (decimalInt time ++ 32 :: (ascii
      "ON DUPLICATE KEY UPDATE gamecurrency = gamecurrency + " ++
        (decimalInt msg.upmoney ++ 44 :: 32 :: boxText msg [])))) := rfl

/-- With plain strings the second half is the first half's strings once more. -/
theorem update_eq {msg : SafeBox} (time : ℤ) (hpwd : Plain msg.pwd)
    (hquestion : Plain msg.question) (hanswer : Plain msg.answer) :
    updateText msg time = 44 :: atimeText msg time ++
      (pwdText msg ++ (questionText msg ++ (msg.answer ++ [39]))) := by
  rw [updateText_eq]
  unfold boxText atimeText pwdText questionText
  rw [ofString_of_no_nul hpwd.nul, ofString_of_no_nul hquestion.nul, ofString_of_no_nul hanswer.nul]
  simp only [List.append_assoc, List.cons_append, List.nil_append]

/-- Plain strings are read back from the statement. -/
theorem readAsIntended_of_plain {msg : SafeBox} (time : ℤ) (hpwd : Plain msg.pwd)
    (hquestion : Plain msg.question) (hanswer : Plain msg.answer) : ReadAsIntended msg time := by
  have hclean : Clean (headText msg ++ boxText msg (updateText msg time)) := by
    have hquote : Clean [39] := ⟨by decide, by decide⟩
    have hcomma : Clean [39, 44] := ⟨by decide, by decide⟩
    rw [text_upto_answer hpwd hquestion, update_eq time hpwd hquestion hanswer,
      ofString_of_no_nul hanswer.nul]
    have hrest := (clean_pwdText hpwd).append ((clean_questionText hquestion).append
      (hanswer.clean.append hquote))
    have hmiddle := hanswer.clean.append (hcomma.append ((clean_atimeText msg time).append hrest))
    exact (((clean_headText msg).append (clean_pwdText hpwd)).append
      (clean_questionText hquestion)).append hmiddle
  -- one pass over the statement up to the last answer
  have hrest := ((runs_pwdText hpwd).append (runs_questionText hquestion)).append (hanswer.runs [])
  have hatime := (runs_atimeText msg time).append hrest
  rw [List.cons_append] at hatime
  have hmiddle := runs_literal hanswer (by decide) hatime
  have hall := (((runs_headText msg).append (runs_pwdText hpwd)).append
    (runs_questionText hquestion)).append hmiddle
  have hlex := hall [39]
  unfold ReadAsIntended
  rw [sent_eq, exec_clean hclean, Option.bind_some, text_upto_answer hpwd hquestion,
    update_eq time hpwd hquestion hanswer, ofString_of_no_nul hanswer.nul, intended_eq]
  unfold lex
  rw [List.nil_append, lexFrom_quoted_end, Option.map_some] at hlex
  change _ = some (_ ++ quoted msg.answer) at hlex
  simpa only [List.append_assoc, List.cons_append, List.nil_append] using hlex

/-- The server reads the intended statement exactly when question and answer are plain. -/
theorem readAsIntended_iff (uid money upmoney : ℤ) (digest question answer : Bytes) (time : ℤ) :
    ReadAsIntended { CreatSafeBox uid digest question answer with money, upmoney } time ↔
      Plain question ∧ Plain answer := by
  generalize hmsg : { CreatSafeBox uid digest question answer with money, upmoney } = msg
  have hpwd : Plain msg.pwd := by
    rw [← hmsg]
    exact plain_md5 digest
  obtain ⟨rfl, rfl⟩ : msg.question = question ∧ msg.answer = answer := by
    rw [← hmsg]
    exact ⟨rfl, rfl⟩
  constructor
  · intro h
    unfold ReadAsIntended at h
    rw [sent_eq, intended_eq] at h
    -- the question first: up to the answer the statement depends on it
    have hquestion : Plain msg.question := by
      rw [text_upto_question hpwd] at h
      apply plain_of_lex ((clean_headText msg).append (clean_pwdText hpwd))
        ((runs_headText msg).append (runs_pwdText hpwd))
      rw [h]
      unfold questionTokens
      simp only [List.append_assoc]
      rfl
    refine ⟨hquestion, ?_⟩
    rw [text_upto_answer hpwd hquestion, updateText_eq] at h
    exact plain_of_lex (((clean_headText msg).append (clean_pwdText hpwd)).append
      (clean_questionText hquestion)) (((runs_headText msg).append (runs_pwdText hpwd)).append
      (runs_questionText hquestion)) h
  · rintro ⟨hquestion, hanswer⟩
    exact readAsIntended_of_plain time hpwd hquestion hanswer

/-- A quote in the question lets the client set the currency of its own safe. -/
theorem question_sets_currency :
    ¬ ReadAsIntended (CreatSafeBox 1 [0] (ascii "x', gamecurrency = 1000000, question = 'x")
      (ascii "y")) 0 := by
  decide +kernel

end DnServer.Bullfight.Database
