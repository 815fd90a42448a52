import DnServer.Bullfight.Database.SafeBox

/-!
# Escaped strings

`AddSlashes` puts a backslash before backslashes and quotes, and the server reads a
literal with such a body as the string itself, whatever the string. The driver formats
the finished statement once more, though: a percent sign of the string raises there or is
halved, and a NUL ends the statement.

* `lexFrom_literal`: the lexer undoes the backslashes byte by byte, and no quote of the
  body ends it.
* `readBack_addSlashes`: what the second format makes of the body, byte by byte; it is
  the body itself just without `%` and NUL.
* `addSlashes_iff`: both, around them any statement, and the one of `SQL_BLOCKED_PLAYER`
  (`intended_iff`).
-/

namespace DnServer.Bullfight.Database

open DnServer.Lib
open DnServer.Lib.LuaFormat DnServer.Lib.MySql

/-! ## The code -/

/-- `string.gsub` for a pattern of one byte that stands for itself. -/
def gsub (s : Bytes) (pattern : UInt8) (repl : Bytes) : Bytes :=
  s.flatMap fun c => if c = pattern then repl else [c]

def AddSlashes (str : Bytes) : Bytes :=
  let new := gsub str 92 [92, 92]
  let new := gsub new 39 [92, 39]
  gsub new 34 [92, 34]

/-- What `SQL_BLOCKED_PLAYER` is given. -/
structure BlockedPlayer where
  uid : ℤ
  starttime : ℤ
  endtime : ℤ
  resean : Bytes
  state : ℤ
  adminid : ℤ
  deriving DecidableEq, Repr

/-- The format of `SQL_BLOCKED_PLAYER`. -/
def blockedFormat : Bytes :=
  ascii "insert into dt_member_blacklist set uid = %d" ++ (ascii ", stime = %d" ++
    (ascii ", etime = %d" ++ (ascii ", remark = '%s'" ++ (ascii ", isstop = %d" ++
      (ascii ", adminid = %d" ++ (ascii ", atime = %d" ++
        (ascii " ON DUPLICATE KEY UPDATE stime = %d" ++ (ascii ", etime = %d" ++
          (ascii ", remark = '%s'" ++ (ascii ", isstop = %d" ++ (ascii ", adminid = %d" ++
            ascii ", atime = %d")))))))))))

/-- `SQL_BLOCKED_PLAYER`: what is sent to the server, if nothing raises; `os.time` is asked
twice. -/
def SQL_BLOCKED_PLAYER (msg : BlockedPlayer) (time time' : ℤ) : Option Bytes :=
  let msg := { msg with resean := AddSlashes msg.resean }
  (format blockedFormat [.int msg.uid, .int msg.starttime, .int msg.endtime, .str msg.resean,
    .int msg.state, .int msg.adminid, .int time, .int msg.starttime, .int msg.endtime,
    .str msg.resean, .int msg.state, .int msg.adminid, .int time']).bind exec

/-! ## The intended statement -/

/-- A column that is set to a number, behind a comma. -/
def column (name : String) (n : ℤ) : List Token :=
  sign 44 ++ words [name] ++ sign 61 ++ intTokens n

/-- `, remark = …`. -/
def remarkTokens (remark : Bytes) : List Token :=
  sign 44 ++ words ["remark"] ++ sign 61 ++ quoted remark

namespace BlockedPlayer

/-- The tokens of the statement, whose literals are the string itself. -/
def intended (msg : BlockedPlayer) (time time' : ℤ) : List Token :=
  words ["insert", "into", "dt_member_blacklist", "set", "uid"] ++ sign 61 ++ intTokens msg.uid ++
    column "stime" msg.starttime ++ column "etime" msg.endtime ++ remarkTokens msg.resean ++
    column "isstop" msg.state ++ column "adminid" msg.adminid ++ column "atime" time ++
    words ["ON", "DUPLICATE", "KEY", "UPDATE", "stime"] ++ sign 61 ++ intTokens msg.starttime ++
    column "etime" msg.endtime ++ remarkTokens msg.resean ++
    column "isstop" msg.state ++ column "adminid" msg.adminid ++ column "atime" time'

/-- The server reads the intended statement and nothing else. -/
def ReadAsIntended (msg : BlockedPlayer) (time time' : ℤ) : Prop :=
  (SQL_BLOCKED_PLAYER msg time time').bind lex = some (msg.intended time time')

instance (msg : BlockedPlayer) (time time' : ℤ) : Decidable (msg.ReadAsIntended time time') :=
  inferInstanceAs (Decidable (_ = _))

end BlockedPlayer

/-! ## One byte after the other -/

/-- What a byte becomes. -/
def slash (c : UInt8) : Bytes := if c = 92 ∨ c = 39 ∨ c = 34 then [92, c] else [c]

/-- No replacement touches what an earlier one has put in. -/
theorem addSlashes_eq (s : Bytes) : AddSlashes s = s.flatMap slash := by
  unfold AddSlashes gsub
  rw [List.flatMap_assoc, List.flatMap_assoc]
  congr 1
  funext c
  unfold slash
  by_cases h92 : c = 92
  · subst h92
    rfl
  by_cases h39 : c = 39
  · subst h39
    rfl
  by_cases h34 : c = 34
  · subst h34
    rfl
  · simp [h92, h39, h34]

theorem addSlashes_nil : AddSlashes [] = [] := rfl

theorem addSlashes_cons (c : UInt8) (s : Bytes) :
    AddSlashes (c :: s) = slash c ++ AddSlashes s := by
  rw [addSlashes_eq, addSlashes_eq, List.flatMap_cons]

theorem slash_special {c : UInt8} (h : c = 92 ∨ c = 39 ∨ c = 34) : slash c = [92, c] := if_pos h

theorem slash_byte {c : UInt8} (h : ¬(c = 92 ∨ c = 39 ∨ c = 34)) : slash c = [c] := if_neg h

theorem mem_slash {b c : UInt8} (h : b ∈ slash c) : b = 92 ∨ b = c := by
  unfold slash at h
  split at h
  · simpa using h
  · exact .inr (List.mem_singleton.mp h)

/-- A byte that is no backslash is in the escaped string just when it is in the string. -/
theorem not_mem_addSlashes {b : UInt8} {s : Bytes} (hb : b ≠ 92) (h : b ∉ s) :
    b ∉ AddSlashes s := by
  rw [addSlashes_eq, List.mem_flatMap]
  rintro ⟨c, hc, hm⟩
  rcases mem_slash hm with rfl | rfl
  · exact hb rfl
  · exact h hc

/-- A C string is cut at the same byte before and after. -/
theorem cut_addSlashes (s : Bytes) :
    (AddSlashes s).takeWhile (· ≠ 0) = AddSlashes (s.takeWhile (· ≠ 0)) := by
  induction s with
  | nil => rfl
  | cons c s ih =>
    rw [addSlashes_cons]
    by_cases h0 : c = 0
    · subst h0
      rfl
    · have hslash : ∀ b ∈ slash c, decide (b ≠ 0) = true := by
        intro b hb
        rcases mem_slash hb with rfl | rfl
        · rfl
        · exact decide_eq_true h0
      rw [List.takeWhile_append_of_pos hslash, List.takeWhile_cons_of_pos (by simpa using h0),
        addSlashes_cons, ih]

/-! ## Reading the literal -/

/-- A byte that was escaped is not among those that escapes stand for. -/
theorem unescape_slashed {c : UInt8} (h : c = 92 ∨ c = 39 ∨ c = 34) : unescape c = [c] := by
  rcases h with rfl | rfl | rfl <;> rfl

/-- Within quotes an escaped string is read as the string. -/
theorem runs_addSlashes (s v : Bytes) :
    Runs (.quoted 39 v) (AddSlashes s) [] (.quoted 39 (v ++ s)) := by
  induction s generalizing v with
  | nil =>
    rw [List.append_nil]
    exact .nil _
  | cons c s ih =>
    have hrest := ih (v ++ [c])
    rw [List.append_assoc] at hrest
    rw [addSlashes_cons]
    by_cases hc : c = 92 ∨ c = 39 ∨ c = 34
    · rw [slash_special hc]
      have hstep : step (.escaped 39 v) c = ([], .quoted 39 (v ++ [c])) := by
        rw [step, unescape_slashed hc]
      have := Runs.cons (m := .escaped 39 v) (c := c) (by rw [hstep]; exact hrest)
      rw [hstep] at this
      exact .cons (m := .quoted 39 v) this
    · rw [slash_byte hc]
      have hstep : step (.quoted 39 v) c = ([], .quoted 39 (v ++ [c])) := by
        rw [step, if_neg fun h => hc (.inr (.inl h)), if_neg fun h => hc (.inl h.1)]
      have := Runs.cons (m := .quoted 39 v) (c := c) (by rw [hstep]; exact hrest)
      rwa [hstep] at this

/-- Behind the quote the literal is complete. -/
theorem lexFrom_closed {s post : Bytes} (hpost : post.head? ≠ some 39) :
    lexFrom (.quoted 39 s) (39 :: post) = (lexFrom (.code []) post).map (.string s :: ·) := by
  cases post with
  | nil => rfl
  | cons c post =>
    have hc : c ≠ 39 := by simpa using hpost
    have hcode := runs_run (.code []) (c :: post)
    have hend := hcode []
    have hclosed := runs_close (s := s) hc hcode []
    rw [List.append_nil] at hend hclosed
    rw [hclosed, hend, Option.map_map]
    rfl

/-- The literal is the string, and what follows is read as it would be alone. -/
theorem lexFrom_literal (s : Bytes) {post : Bytes} (hpost : post.head? ≠ some 39) :
    lexFrom (.quoted 39 []) (AddSlashes s ++ 39 :: post) =
      (lexFrom (.code []) post).map (.string s :: ·) := by
  rw [runs_addSlashes s [], List.nil_append, lexFrom_closed hpost]
  exact congrFun Option.map_id _

/-- The second format takes a percent sign of the string for the first of two. -/
theorem readBack_percent_addSlashes {t post v : Bytes}
    (h : readBack (37 :: (AddSlashes t ++ 39 :: post)) = some v) :
    ∃ t' w, t = 37 :: t' ∧ readBack (AddSlashes t' ++ 39 :: post) = some w ∧ v = 37 :: w := by
  generalize hraw : AddSlashes t ++ 39 :: post = raw at h
  cases ReadStep.of_some h with
  | byte _ hne => exact absurd rfl hne
  | @percent l w hw =>
    cases t with
    | nil => cases hraw
    | cons d t =>
      rw [addSlashes_cons, List.append_assoc] at hraw
      by_cases hd : d = 92 ∨ d = 39 ∨ d = 34
      · rw [slash_special hd] at hraw
        cases hraw
      · rw [slash_byte hd, List.singleton_append] at hraw
        obtain ⟨rfl, rfl⟩ := List.cons.inj hraw
        exact ⟨t, w, rfl, hw, rfl⟩

/-- The value that the server reads, if the second format lets the statement through: it is
no longer than the string, and shorter when a percent sign was halved. -/
theorem readBack_addSlashes {t post v : Bytes} (hpost : post.head? ≠ some 39)
    (h : readBack (AddSlashes t ++ 39 :: post) = some v) :
    v.length ≤ t.length ∧ (v.length = t.length → v = t ∧ 0 ∉ t ∧ 37 ∉ t) := by
  induction hn : t.length using Nat.strong_induction_on generalizing t v with
  | _ n ih =>
    cases t with
    | nil =>
      rw [addSlashes_nil, List.nil_append, readBack_closed hpost] at h
      obtain rfl := Option.some.inj h
      exact ⟨Nat.zero_le _, fun _ => ⟨rfl, List.not_mem_nil, List.not_mem_nil⟩⟩
    | cons c t =>
      rw [List.length_cons] at hn
      rw [addSlashes_cons, List.append_assoc] at h
      -- a byte that stands for itself
      have hbyte : c ≠ 0 → c ≠ 37 →
          (readBack (AddSlashes t ++ 39 :: post)).map ([c] ++ ·) = some v →
            v.length ≤ n ∧ (v.length = n → v = c :: t ∧ 0 ∉ c :: t ∧ 37 ∉ c :: t) := by
        intro h0 h37 hv
        obtain ⟨w, hw, rfl⟩ := Option.map_eq_some_iff.mp hv
        obtain ⟨hle, heq⟩ := ih t.length (by omega) hw rfl
        rw [List.singleton_append, List.length_cons]
        refine ⟨by omega, fun hlen => ?_⟩
        obtain ⟨rfl, hnul, hpercent⟩ := heq (by omega)
        exact ⟨rfl, by simp [Ne.symm h0, hnul], by simp [Ne.symm h37, hpercent]⟩
      by_cases hc : c = 92 ∨ c = 39 ∨ c = 34
      · have h0 : c ≠ 0 := by rintro rfl; simp at hc
        have h37 : c ≠ 37 := by rintro rfl; simp at hc
        rw [slash_special hc] at h
        change readBack (92 :: c :: _) = some v at h
        rw [readBack_escaped h0 h37, unescape_slashed hc] at h
        exact hbyte h0 h37 h
      · rw [slash_byte hc, List.singleton_append] at h
        by_cases h0 : c = 0
        · rw [h0, readBack_nul] at h
          cases h
        by_cases h37 : c = 37
        · -- the second format takes a percent sign for the first of two
          subst h37
          obtain ⟨t, w, rfl, hw, rfl⟩ := readBack_percent_addSlashes h
          rw [List.length_cons] at hn
          obtain ⟨hle, -⟩ := ih t.length (by omega) hw rfl
          rw [List.length_cons]
          exact ⟨by omega, fun hlen => absurd hlen (by omega)⟩
        · have h39 : c ≠ 39 := fun h => hc (.inr (.inl h))
          have h92 : c ≠ 92 := fun h => hc (.inl h)
          rw [readBack_byte h0 h37 h39 h92] at h
          exact hbyte h0 h37 h

theorem clean_addSlashes {s : Bytes} (h0 : 0 ∉ s) (h37 : 37 ∉ s) : Clean (AddSlashes s) :=
  ⟨not_mem_addSlashes (by decide) h37, not_mem_addSlashes (by decide) h0⟩

/-- The string that `%s` writes is cut before the escaping or not at all. -/
theorem ofString_addSlashes (s : Bytes) :
    ∃ t, ofString (AddSlashes s) = AddSlashes t ∧ t.length ≤ s.length := by
  unfold ofString
  split
  · exact ⟨_, cut_addSlashes s, (List.takeWhile_sublist _).length_le⟩
  · exact ⟨s, rfl, le_rfl⟩

/-- A string that is read back from its escaped text, or from the beginning of it. -/
theorem clean_of_readBack {s t post : Bytes} (ht : t.length ≤ s.length)
    (hpost : post.head? ≠ some 39) (h : readBack (AddSlashes t ++ 39 :: post) = some s) :
    0 ∉ s ∧ 37 ∉ s := by
  obtain ⟨hle, heq⟩ := readBack_addSlashes hpost h
  obtain ⟨rfl, hclean⟩ := heq (by omega)
  exact hclean

/-- In a statement that is harmless around it, the literal comes through the second format when
neither a percent sign nor a NUL is in the string, and only then. -/
theorem exec_literal_iff (s : Bytes) {pre post : Bytes} {ts ts' : List Token} (hpre : Clean pre)
    (hclean : Clean post) (hruns : Runs (.code []) pre ts (.code []))
    (hlex : lex post = some ts') (hpost : post.head? ≠ some 39) :
    (exec (pre ++ 39 :: (AddSlashes s ++ 39 :: post))).bind lex =
      some (ts ++ .string s :: ts') ↔ 0 ∉ s ∧ 37 ∉ s := by
  have hquote : Clean [39] := ⟨by decide, by decide⟩
  have hopen : Runs (.code []) (pre ++ [39]) ts (.quoted 39 []) := by
    have hbegin : run (.code []) [39] = ([], .quoted 39 []) := rfl
    have := hruns.append (runs_of_run hbegin)
    rwa [List.append_nil] at this
  rw [show pre ++ 39 :: (AddSlashes s ++ 39 :: post) =
    (pre ++ [39]) ++ (AddSlashes s ++ 39 :: post) by simp]
  constructor
  · intro h
    exact clean_of_readBack le_rfl hpost (readBack_of_lex (hpre.append hquote) hopen h)
  · rintro ⟨h0, h37⟩
    have hbody := (clean_addSlashes h0 h37).append
      (hclean.cons (c := 39) (by decide) (by decide))
    have hall := (hpre.append hquote).append hbody
    rw [exec_clean hall]
    show lexFrom _ _ = _
    rw [hopen, lexFrom_literal s hpost]
    change ((lex post).map _).map _ = _
    rw [hlex]
    rfl

/-! ## The statement piece by piece -/

/-- A column that is set to a number: the text before the number and how it is read. -/
structure Column where
  text : Bytes
  tokens : List Token
  value : ℤ

/-- The pieces of the format for columns. -/
def columnsFormat (texts : List Bytes) : Bytes := texts.flatMap (· ++ [37, 100])

def columnsText (l : List Column) : Bytes := l.flatMap fun c => c.text ++ decimalInt c.value

def columnsTokens (l : List Column) : List Token := l.flatMap fun c => c.tokens ++ intTokens c.value

/-- The text is harmless, is read as it is said, and ends the value before it. -/
structure Column.Proper (c : Column) : Prop where
  clean : Clean c.text
  run : run (.code []) c.text = (c.tokens, .code [])
  apart : ∃ b ∈ c.text.head?, isWord b = false ∧ b ≠ 39

/-- Neither a number nor a literal goes on in the text. -/
def Apart (post : Bytes) : Prop := ∀ b ∈ post.head?, isWord b = false ∧ b ≠ 39

theorem Apart.quote {post : Bytes} (h : Apart post) : post.head? ≠ some 39 :=
  fun hq => (h 39 hq).2 rfl

theorem lexFrom_int (n : ℤ) {post : Bytes} (h : Apart post) :
    lexFrom (.code []) (decimalInt n ++ post) =
      (lexFrom (.code []) post).map (intTokens n ++ ·) := by
  cases post with
  | nil =>
    rw [runs_digits n]
    unfold intTokens
    show some (_ ++ flush (decimal n.natAbs)) = some (_ ++ [])
    rw [flush, if_neg (decimal_ne_nil _), List.append_nil]
  | cons c post =>
    have hcode := runs_run (.code []) (c :: post)
    have hnumber := runs_int n (h c rfl).1 hcode []
    have hend := hcode []
    rw [List.append_nil] at hnumber hend
    rw [hnumber, hend, Option.map_map]
    congr 1
    funext x
    exact List.append_assoc _ _ _

/-- Columns, up to what stands behind them. -/
theorem lexFrom_columns {l : List Column} (h : ∀ c ∈ l, c.Proper) {post : Bytes}
    (hpost : Apart post) : Apart (columnsText l ++ post) ∧
      lexFrom (.code []) (columnsText l ++ post) =
        (lexFrom (.code []) post).map (columnsTokens l ++ ·) := by
  induction l with
  | nil => exact ⟨hpost, (congrFun Option.map_id _).symm⟩
  | cons c l ih =>
    obtain ⟨-, hrun, b, hb, hword⟩ := h c List.mem_cons_self
    obtain ⟨hapart, hlex⟩ := ih fun x hx => h x (List.mem_cons_of_mem _ hx)
    have htext : columnsText (c :: l) ++ post =
        c.text ++ (decimalInt c.value ++ (columnsText l ++ post)) := by
      simp [columnsText]
    rw [htext]
    constructor
    · intro x hx
      obtain ⟨y, hy⟩ := List.head?_eq_some_iff.mp hb
      rw [hy] at hx
      obtain rfl := Option.some.inj hx
      exact hword
    · rw [runs_of_run hrun, lexFrom_int _ hapart, hlex, Option.map_map, Option.map_map]
      congr 1
      funext x
      simp [columnsTokens]

theorem clean_columns {l : List Column} (h : ∀ c ∈ l, c.Proper) : Clean (columnsText l) := by
  induction l with
  | nil => exact ⟨List.not_mem_nil, List.not_mem_nil⟩
  | cons c l ih =>
    exact ((h c List.mem_cons_self).clean.append (clean_decimalInt c.value)).append
      (ih fun x hx => h x (List.mem_cons_of_mem _ hx))

/-- What the format makes of the columns' pieces. -/
theorem format_columns {l : List Column} (h : ∀ c ∈ l, c.Proper) (rest : Bytes)
    (args : List Arg) :
    format (columnsFormat (l.map Column.text) ++ rest) (l.map (fun c => .int c.value) ++ args) =
      (format rest args).map (columnsText l ++ ·) := by
  induction l with
  | nil => exact (congrFun Option.map_id _).symm
  | cons c l ih =>
    have htext : columnsFormat ((c :: l).map Column.text) ++ rest =
        c.text ++ (37 :: 100 :: (columnsFormat (l.map Column.text) ++ rest)) := by
      simp [columnsFormat]
    rw [htext, List.map_cons, List.cons_append,
      format_append (h c List.mem_cons_self).clean.percent, format_int,
      ih fun x hx => h x (List.mem_cons_of_mem _ hx), Option.map_map, Option.map_map]
    congr 1
    funext x
    simp [columnsText]

/-! ## The statement of `SQL_BLOCKED_PLAYER` -/

/-- A column behind a comma. -/
def commaColumn (name : String) (n : ℤ) : Column :=
  ⟨ascii (", " ++ name ++ " = "), sign 44 ++ words [name] ++ sign 61, n⟩

theorem commaColumn_proper {name : String}
    (hname : name ∈ ["stime", "etime", "isstop", "adminid", "atime"]) (n : ℤ) :
    (commaColumn name n).Proper := by
  have hall : ∀ name ∈ ["stime", "etime", "isstop", "adminid", "atime"],
      37 ∉ ascii (", " ++ name ++ " = ") ∧ 0 ∉ ascii (", " ++ name ++ " = ") ∧
        run (.code []) (ascii (", " ++ name ++ " = ")) =
          (sign 44 ++ words [name] ++ sign 61, .code []) ∧
        (ascii (", " ++ name ++ " = ")).head? = some 44 := by
    decide +kernel
  obtain ⟨h37, h0, hrun, hhead⟩ := hall name hname
  exact ⟨⟨h37, h0⟩, hrun, 44, hhead, rfl, by decide⟩

/-- The first column behind the keywords. -/
def updateColumn (n : ℤ) : Column :=
  ⟨ascii " ON DUPLICATE KEY UPDATE stime = ",
    words ["ON", "DUPLICATE", "KEY", "UPDATE", "stime"] ++ sign 61, n⟩

theorem updateColumn_proper (n : ℤ) : (updateColumn n).Proper := by
  have hall : 37 ∉ ascii " ON DUPLICATE KEY UPDATE stime = " ∧
      0 ∉ ascii " ON DUPLICATE KEY UPDATE stime = " ∧
        run (.code []) (ascii " ON DUPLICATE KEY UPDATE stime = ") =
          (words ["ON", "DUPLICATE", "KEY", "UPDATE", "stime"] ++ sign 61, .code []) := by
    decide +kernel
  exact ⟨⟨hall.1, hall.2.1⟩, hall.2.2, 32, rfl, rfl, by decide⟩

def insertText : Bytes := ascii "insert into dt_member_blacklist set uid = "

def remarkText : Bytes := ascii ", remark = '"

theorem blocked_texts : Clean insertText ∧ Clean remarkText ∧
    run (.code []) insertText =
      (words ["insert", "into", "dt_member_blacklist", "set", "uid"] ++ sign 61, .code []) ∧
    run (.code []) remarkText = (sign 44 ++ words ["remark"] ++ sign 61, .quoted 39 []) ∧
    ∀ rest, Apart (remarkText ++ rest) := by
  have hapart : ∀ rest, Apart (remarkText ++ rest) := by
    intro rest b hb
    obtain rfl := Option.some.inj hb
    exact ⟨rfl, by decide⟩
  exact ⟨⟨by decide +kernel, by decide +kernel⟩, ⟨by decide +kernel, by decide +kernel⟩,
    by decide +kernel, by decide +kernel, hapart⟩

namespace BlockedPlayer

variable (msg : BlockedPlayer) (time time' : ℤ)

/-- The columns before the first literal. -/
def headColumns : List Column :=
  [commaColumn "stime" msg.starttime, commaColumn "etime" msg.endtime]

/-- The columns behind the second literal. -/
def endColumns : List Column :=
  [commaColumn "isstop" msg.state, commaColumn "adminid" msg.adminid, commaColumn "atime" time]

/-- The columns between the literals. -/
def middleColumns : List Column :=
  msg.endColumns time ++ [updateColumn msg.starttime, commaColumn "etime" msg.endtime]

theorem columns_proper : (∀ c ∈ msg.headColumns, c.Proper) ∧
    (∀ c ∈ msg.middleColumns time, c.Proper) ∧ ∀ c ∈ msg.endColumns time', c.Proper := by
  have hend : ∀ time, ∀ c ∈ msg.endColumns time, c.Proper := by
    intro time c hc
    simp only [endColumns, List.mem_cons, List.not_mem_nil, or_false] at hc
    rcases hc with rfl | rfl | rfl <;> exact commaColumn_proper (by simp) _
  refine ⟨fun c hc => ?_, fun c hc => ?_, hend time'⟩
  · simp only [headColumns, List.mem_cons, List.not_mem_nil, or_false] at hc
    rcases hc with rfl | rfl <;> exact commaColumn_proper (by simp) _
  · rcases List.mem_append.mp hc with hc | hc
    · exact hend time c hc
    · simp only [List.mem_cons, List.not_mem_nil, or_false] at hc
      rcases hc with rfl | rfl
      · exact updateColumn_proper _
      · exact commaColumn_proper (by simp) _

/-- The statement up to the first literal. -/
def headText : Bytes :=
  insertText ++ (decimalInt msg.uid ++ (columnsText msg.headColumns ++ remarkText))

/-- What stands between the literals, and behind them. -/
def middleText : Bytes := columnsText (msg.middleColumns time) ++ remarkText

def headTokens : List Token :=
  words ["insert", "into", "dt_member_blacklist", "set", "uid"] ++ sign 61 ++
    (intTokens msg.uid ++
      (columnsTokens msg.headColumns ++ (sign 44 ++ words ["remark"] ++ sign 61)))

def middleTokens : List Token :=
  columnsTokens (msg.middleColumns time) ++ (sign 44 ++ words ["remark"] ++ sign 61)

theorem intended_eq : msg.intended time time' = msg.headTokens ++ .string msg.resean ::
    (msg.middleTokens time ++ .string msg.resean :: columnsTokens (msg.endColumns time')) := by
  unfold intended headTokens middleTokens remarkTokens column columnsTokens headColumns
    middleColumns endColumns commaColumn updateColumn quoted
  simp only [List.flatMap_cons, List.flatMap_nil, List.append_assoc, List.cons_append,
    List.nil_append, List.append_nil]

/-- The format, piece by piece. -/
theorem format_eq : blockedFormat =
    insertText ++ 37 :: 100 :: (columnsFormat (msg.headColumns.map Column.text) ++
      (remarkText ++ 37 :: 115 :: 39 ::
        (columnsFormat ((msg.middleColumns time).map Column.text) ++
          (remarkText ++ 37 :: 115 :: 39 ::
            (columnsFormat ((msg.endColumns time').map Column.text) ++ []))))) := by
  -- the numbers are not in it
  have hblank : blockedFormat =
      insertText ++ 37 :: 100 ::
        (columnsFormat ((headColumns ⟨0, 0, 0, [], 0, 0⟩).map Column.text) ++
          (remarkText ++ 37 :: 115 :: 39 ::
            (columnsFormat ((middleColumns ⟨0, 0, 0, [], 0, 0⟩ 0).map Column.text) ++
              (remarkText ++ 37 :: 115 :: 39 ::
                (columnsFormat ((endColumns ⟨0, 0, 0, [], 0, 0⟩ 0).map Column.text) ++ []))))) := by
    decide +kernel
  exact hblank

/-- What is given to the driver. -/
theorem sent_eq : SQL_BLOCKED_PLAYER msg time time' =
    exec (msg.headText ++ (ofString (AddSlashes msg.resean) ++ 39 ::
      (msg.middleText time ++ (ofString (AddSlashes msg.resean) ++ 39 ::
        columnsText (msg.endColumns time'))))) := by
  obtain ⟨hhead, hmiddle, hend⟩ := msg.columns_proper time time'
  obtain ⟨hinsert, hremark, -⟩ := blocked_texts
  have hformat : format blockedFormat [.int msg.uid, .int msg.starttime, .int msg.endtime,
      .str (AddSlashes msg.resean), .int msg.state, .int msg.adminid, .int time,
      .int msg.starttime, .int msg.endtime, .str (AddSlashes msg.resean), .int msg.state,
      .int msg.adminid, .int time'] = some (msg.headText ++
        (ofString (AddSlashes msg.resean) ++ 39 :: (msg.middleText time ++
          (ofString (AddSlashes msg.resean) ++ 39 :: columnsText (msg.endColumns time'))))) := by
    have hfirst : ∀ rest args, format (columnsFormat (msg.headColumns.map Column.text) ++ rest)
        (.int msg.starttime :: .int msg.endtime :: args) =
          (format rest args).map (columnsText msg.headColumns ++ ·) := format_columns hhead
    have hsecond : ∀ rest args,
        format (columnsFormat ((msg.middleColumns time).map Column.text) ++ rest)
          (.int msg.state :: .int msg.adminid :: .int time :: .int msg.starttime ::
            .int msg.endtime :: args) =
          (format rest args).map (columnsText (msg.middleColumns time) ++ ·) :=
      format_columns hmiddle
    have hthird : format (columnsFormat ((msg.endColumns time').map Column.text) ++ [])
        [.int msg.state, .int msg.adminid, .int time'] =
          (format [] []).map (columnsText (msg.endColumns time') ++ ·) := format_columns hend [] []
    have hliteral : ∀ rest args, format (remarkText ++ 37 :: 115 :: 39 :: rest)
        (.str (AddSlashes msg.resean) :: args) = (format rest args).map
          fun o => remarkText ++ (ofString (AddSlashes msg.resean) ++ 39 :: o) := by
      intro rest args
      rw [format_append hremark.percent, format_str, format_cons (by decide), Option.map_map,
        Option.map_map]
      rfl
    rw [msg.format_eq time time', format_append hinsert.percent, format_int, hfirst, hliteral,
      hsecond, hliteral, hthird, format_nil]
    unfold headText middleText
    simp only [Option.map_some, List.append_assoc, List.append_nil]
  unfold SQL_BLOCKED_PLAYER
  exact (congrArg (Option.bind · exec) hformat).trans (Option.bind_some ..)

/-- The columns before a literal, up to its quote. -/
theorem runs_columns {l : List Column} (h : ∀ c ∈ l, c.Proper) :
    (∀ rest, Apart (columnsText l ++ (remarkText ++ rest))) ∧
      Runs (.code []) (columnsText l ++ remarkText)
        (columnsTokens l ++ (sign 44 ++ words ["remark"] ++ sign 61)) (.quoted 39 []) := by
  obtain ⟨-, -, -, hrun, hapart⟩ := blocked_texts
  refine ⟨fun rest => (lexFrom_columns h (hapart rest)).1, fun rest => ?_⟩
  rw [List.append_assoc, (lexFrom_columns h (hapart rest)).2, runs_of_run hrun, Option.map_map]
  congr 1
  funext x
  exact (List.append_assoc _ _ _).symm

/-- The statement up to the first literal. -/
theorem runs_headText : Runs (.code []) msg.headText msg.headTokens (.quoted 39 []) := by
  obtain ⟨hapart, hcolumns⟩ := runs_columns (msg.columns_proper 0 0).1
  obtain ⟨-, -, hrun, -⟩ := blocked_texts
  intro rest
  have htext : msg.headText ++ rest = insertText ++ (decimalInt msg.uid ++
      (columnsText msg.headColumns ++ (remarkText ++ rest))) := by
    unfold headText
    simp only [List.append_assoc]
  have hrest := hcolumns rest
  rw [List.append_assoc] at hrest
  rw [htext, runs_of_run hrun, lexFrom_int _ (hapart rest), hrest, Option.map_map, Option.map_map]
  congr 1
  funext x
  unfold headTokens
  simp only [Function.comp, List.append_assoc]

/-- From the first literal to the second. -/
theorem runs_middleText : Runs (.code []) (msg.middleText time) (msg.middleTokens time)
    (.quoted 39 []) := (runs_columns (msg.columns_proper time 0).2.1).2

theorem lex_endColumns : Apart (columnsText (msg.endColumns time')) ∧
    lex (columnsText (msg.endColumns time')) = some (columnsTokens (msg.endColumns time')) := by
  have hnil : Apart [] := nofun
  obtain ⟨hapart, hlex⟩ := lexFrom_columns (msg.columns_proper 0 time').2.2 hnil
  rw [List.append_nil] at hapart hlex
  refine ⟨hapart, hlex.trans ?_⟩
  show some (_ ++ []) = _
  rw [List.append_nil]

theorem clean_headText : Clean msg.headText := by
  obtain ⟨hinsert, hremark, -⟩ := blocked_texts
  exact hinsert.append ((clean_decimalInt _).append
    ((clean_columns (msg.columns_proper 0 0).1).append hremark))

/-- The server reads the intended statement exactly when there is neither a percent sign nor a
NUL in the string. -/
theorem intended_iff : msg.ReadAsIntended time time' ↔ 0 ∉ msg.resean ∧ 37 ∉ msg.resean := by
  obtain ⟨-, hmiddle, hend⟩ := msg.columns_proper time time'
  obtain ⟨-, hremark, -⟩ := blocked_texts
  obtain ⟨happart, hlex⟩ := msg.lex_endColumns time'
  have hmid : ∀ rest, Apart (msg.middleText time ++ rest) := by
    intro rest
    unfold middleText
    rw [List.append_assoc]
    exact (runs_columns hmiddle).1 rest
  unfold ReadAsIntended
  rw [sent_eq, intended_eq]
  constructor
  · intro h
    obtain ⟨t, ht, hlen⟩ := ofString_addSlashes msg.resean
    have hread := readBack_of_lex msg.clean_headText msg.runs_headText h
    rw [ht] at hread
    exact clean_of_readBack hlen (hmid _).quote hread
  · rintro ⟨h0, h37⟩
    have hbody := clean_addSlashes h0 h37
    have hlast := hbody.append ((clean_columns hend).cons (c := 39) (by decide) (by decide))
    have hmiddleText : Clean (msg.middleText time) := (clean_columns hmiddle).append hremark
    have hrest := hmiddleText.append hlast
    have hall := msg.clean_headText.append
      (hbody.append (hrest.cons (c := 39) (by decide) (by decide)))
    rw [ofString_of_no_nul hbody.nul, exec_clean hall]
    show lexFrom _ _ = _
    rw [msg.runs_headText, lexFrom_literal _ (hmid _).quote, msg.runs_middleText time,
      lexFrom_literal _ happart.quote]
    change ((((lex _).map _).map _).map _).map _ = _
    rw [hlex]
    rfl

end BlockedPlayer

/-- **Escaping.** For every string the server reads a literal whose body is the escaped string as
the string, and reads on behind it. Put into a statement that is harmless around it, or into that
of `SQL_BLOCKED_PLAYER`, it is read so behind the second format just when there is neither a
percent sign nor a NUL in the string. -/
theorem addSlashes_iff (s : Bytes) :
    (∀ post : Bytes, post.head? ≠ some 39 →
      lex (39 :: (AddSlashes s ++ 39 :: post)) = (lex post).map (.string s :: ·)) ∧
    (∀ (pre post : Bytes) (ts ts' : List Token), Clean pre → Clean post →
      Runs (.code []) pre ts (.code []) → lex post = some ts' → post.head? ≠ some 39 →
        ((exec (pre ++ 39 :: (AddSlashes s ++ 39 :: post))).bind lex =
          some (ts ++ .string s :: ts') ↔ 0 ∉ s ∧ 37 ∉ s)) ∧
    ∀ (msg : BlockedPlayer) (time time' : ℤ),
      { msg with resean := s }.ReadAsIntended time time' ↔ 0 ∉ s ∧ 37 ∉ s := by
  refine ⟨fun post hpost => ?_, fun pre post ts ts' hpre hclean hruns hlex hpost =>
    exec_literal_iff s hpre hclean hruns hlex hpost, fun msg time time' =>
    BlockedPlayer.intended_iff { msg with resean := s } time time'⟩
  have hbegin : Runs (.code []) [39] [] (.quoted 39 []) := runs_of_run rfl
  have hall := hbegin (AddSlashes s ++ 39 :: post)
  rw [lexFrom_literal s hpost, Option.map_map] at hall
  exact hall

/-- The reason for a ban ends in a percent sign: the second format raises, and nothing is sent. -/
theorem percent_not_sent :
    SQL_BLOCKED_PLAYER ⟨7, 0, 0, ascii "cheats: 100%", 1, 1⟩ 0 0 = none ∧
      ¬BlockedPlayer.ReadAsIntended ⟨7, 0, 0, ascii "cheats: 100%", 1, 1⟩ 0 0 := by
  decide +kernel

end DnServer.Bullfight.Database
