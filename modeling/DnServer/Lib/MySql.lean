import DnServer.Lib.Numeral

/-!
# The lexical syntax of MySQL

Words, punctuation, string literals, quoted identifiers and comments, as the
server reads a statement with backslash escapes on. The lexer is an automaton
that takes a byte at a time; a statement that ends within a literal or a comment
is no statement. The text between `/*!` and the end of that comment is code.
-/

namespace DnServer.Lib

namespace MySql

inductive Token
  | word (s : Bytes)
  | punct (c : UInt8)
  | string (s : Bytes)
  | ident (s : Bytes)
  deriving DecidableEq, Repr

/-- Where the lexer is. -/
inductive Mode
  /-- Between tokens, or in a word. -/
  | code (word : Bytes)
  /-- Within quotes `q`. -/
  | quoted (q : UInt8) (s : Bytes)
  /-- Behind a backslash within quotes. -/
  | escaped (q : UInt8) (s : Bytes)
  /-- Behind a quote within quotes: it ends the literal, unless it is doubled. -/
  | closing (q : UInt8) (s : Bytes)
  | dash
  | dashes
  | slash
  | comment
  /-- In a comment, and whether it has just begun or a star was the last byte. -/
  | block (fresh star : Bool)
  deriving DecidableEq, Repr

def isSpace (c : UInt8) : Bool := c = 32 || (9 ≤ c && c ≤ 13)

/-- Letters, digits, `_`, `$` and what is not ASCII. -/
def isWord (c : UInt8) : Bool :=
  (48 ≤ c && c ≤ 57) || (65 ≤ c && c ≤ 90) || (97 ≤ c && c ≤ 122) || c = 95 || c = 36 || 128 ≤ c

/-- The bytes an escape stands for; `\%` and `\_` stand for themselves. -/
def unescape (c : UInt8) : Bytes :=
  if c = 48 then [0]
  else if c = 98 then [8]
  else if c = 110 then [10]
  else if c = 114 then [13]
  else if c = 116 then [9]
  else if c = 90 then [26]
  else if c = 37 then [92, 37]
  else if c = 95 then [92, 95]
  else [c]

def literal (q : UInt8) (s : Bytes) : Token := if q = 96 then .ident s else .string s

def flush (word : Bytes) : List Token := if word = [] then [] else [.word word]

/-- A byte where no token is under way. -/
def begin (c : UInt8) : List Token × Mode :=
  if isWord c then ([], .code [c])
  else if isSpace c then ([], .code [])
  else if c = 39 ∨ c = 34 ∨ c = 96 then ([], .quoted c [])
  else if c = 35 then ([], .comment)
  else if c = 45 then ([], .dash)
  else if c = 47 then ([], .slash)
  else ([.punct c], .code [])

def step : Mode → UInt8 → List Token × Mode
  | .code word, c =>
    if isWord c then ([], .code (word ++ [c]))
    else (flush word ++ (begin c).1, (begin c).2)
  | .quoted q s, c =>
    if c = q then ([], .closing q s)
    else if c = 92 ∧ q ≠ 96 then ([], .escaped q s)
    else ([], .quoted q (s ++ [c]))
  | .escaped q s, c => ([], .quoted q (s ++ unescape c))
  | .closing q s, c =>
    if c = q then ([], .quoted q (s ++ [q])) else (literal q s :: (begin c).1, (begin c).2)
  | .dash, c => if c = 45 then ([], .dashes) else (.punct 45 :: (begin c).1, (begin c).2)
  | .dashes, c =>
    if isSpace c ∨ c < 32 then ([], if c = 10 then .code [] else .comment)
    else (.punct 45 :: .punct 45 :: (begin c).1, (begin c).2)
  | .slash, c => if c = 42 then ([], .block true false) else (.punct 47 :: (begin c).1, (begin c).2)
  | .comment, c => ([], if c = 10 then .code [] else .comment)
  | .block fresh star, c =>
    if fresh ∧ c = 33 then ([.word [47, 42, 33]], .code [])
    else if star ∧ c = 47 then ([], .code [])
    else ([], .block false (c = 42))

/-- What the end of the statement completes. -/
def finish : Mode → Option (List Token)
  | .code word => some (flush word)
  | .closing q s => some [literal q s]
  | .dash => some [.punct 45]
  | .slash => some [.punct 47]
  | .dashes | .comment => some []
  | .quoted _ _ | .escaped _ _ | .block _ _ => none

/-- The tokens from a mode on; `none` when the text ends within one. -/
def lexFrom (m : Mode) : Bytes → Option (List Token)
  | [] => finish m
  | c :: l => (lexFrom (step m c).2 l).map ((step m c).1 ++ ·)

/-- The tokens of a statement. -/
def lex (l : Bytes) : Option (List Token) := lexFrom (.code []) l

/-! ## Runs of the lexer -/

/-- The lexer goes from `m` over `l` to `m'` and puts out `ts`. -/
def Runs (m : Mode) (l : Bytes) (ts : List Token) (m' : Mode) : Prop :=
  ∀ rest, lexFrom m (l ++ rest) = (lexFrom m' rest).map (ts ++ ·)

theorem Runs.nil (m : Mode) : Runs m [] [] m := by
  intro rest
  simp

theorem Runs.cons {m m' : Mode} {c : UInt8} {l : Bytes} {ts : List Token}
    (h : Runs (step m c).2 l ts m') : Runs m (c :: l) ((step m c).1 ++ ts) m' := by
  intro rest
  rw [List.cons_append, lexFrom, h rest, Option.map_map]
  congr 1
  funext x
  exact (List.append_assoc _ _ _).symm

theorem Runs.append {m m' m'' : Mode} {l l' : Bytes} {ts ts' : List Token} (h : Runs m l ts m')
    (h' : Runs m' l' ts' m'') : Runs m (l ++ l') (ts ++ ts') m'' := by
  intro rest
  rw [List.append_assoc, h, h', Option.map_map]
  congr 1
  funext x
  exact (List.append_assoc _ _ _).symm

/-- Runs of closed text by evaluation. -/
def run : Mode → Bytes → List Token × Mode
  | m, [] => ([], m)
  | m, c :: l => ((step m c).1 ++ (run (step m c).2 l).1, (run (step m c).2 l).2)

theorem runs_run (m : Mode) (l : Bytes) : Runs m l (run m l).1 (run m l).2 := by
  induction l generalizing m with
  | nil => exact .nil m
  | cons c l ih => exact .cons (ih (step m c).2)

theorem runs_of_run {m m' : Mode} {l : Bytes} {ts : List Token} (h : run m l = (ts, m')) :
    Runs m l ts m' := by
  have := runs_run m l
  rwa [h] at this

/-- A word goes on. -/
theorem runs_word {l : Bytes} (h : ∀ c ∈ l, isWord c = true) (word : Bytes) :
    Runs (.code word) l [] (.code (word ++ l)) := by
  induction l generalizing word with
  | nil =>
    rw [List.append_nil]
    exact .nil _
  | cons c l ih =>
    have hstep : step (.code word) c = ([], .code (word ++ [c])) := by
      rw [step, if_pos (h c List.mem_cons_self)]
    have hrest := ih (fun x hx => h x (List.mem_cons_of_mem _ hx)) (word ++ [c])
    rw [List.append_assoc] at hrest
    have := Runs.cons (m := .code word) (c := c) (by rw [hstep]; exact hrest)
    rwa [hstep] at this

/-- Two modes that a byte leaves alike, but for one token that the first puts out before. -/
theorem Runs.of_step {m n m' : Mode} {c : UInt8} {l : Bytes} {t : Token} {ts : List Token}
    (hstep : step m c = (t :: (step n c).1, (step n c).2)) (h : Runs n (c :: l) ts m') :
    Runs m (c :: l) (t :: ts) m' := by
  intro rest
  have hrest := h rest
  rw [List.cons_append, lexFrom] at hrest
  rw [List.cons_append, lexFrom, hstep]
  calc (lexFrom (step n c).2 (l ++ rest)).map (t :: (step n c).1 ++ ·)
      = ((lexFrom (step n c).2 (l ++ rest)).map ((step n c).1 ++ ·)).map (t :: ·) := by
        rw [Option.map_map]
        rfl
    _ = ((lexFrom m' rest).map (ts ++ ·)).map (t :: ·) := by rw [hrest]
    _ = (lexFrom m' rest).map (t :: ts ++ ·) := by
        rw [Option.map_map]
        rfl

theorem step_code_nil (c : UInt8) : step (.code []) c = begin c := by
  rw [step, begin]
  by_cases h : isWord c = true
  · rw [if_pos h, if_pos h]
    rfl
  · rw [if_neg h, if_neg h]
    rfl

/-- A byte that is not of the word ends it. -/
theorem runs_flush {word l : Bytes} {c : UInt8} {ts : List Token} {m : Mode} (hw : word ≠ [])
    (hc : isWord c = false) (h : Runs (.code []) (c :: l) ts m) :
    Runs (.code word) (c :: l) (.word word :: ts) m := by
  refine .of_step ?_ h
  rw [step_code_nil, step, hc, flush, if_neg hw]
  rfl

/-- A quote that is not doubled ends the literal. -/
theorem runs_close {s l : Bytes} {c : UInt8} {ts : List Token} {m : Mode} (hc : c ≠ 39)
    (h : Runs (.code []) (c :: l) ts m) : Runs (.quoted 39 s) (39 :: c :: l) (.string s :: ts) m := by
  have hclose : Runs (.closing 39 s) (c :: l) (.string s :: ts) m := by
    refine .of_step ?_ h
    rw [step_code_nil, step, if_neg hc]
    rfl
  exact .cons (m := .quoted 39 s) (c := 39) hclose

theorem lexFrom_quoted_end (s : Bytes) : lexFrom (.quoted 39 s) [39] = some [.string s] := rfl

end MySql

end DnServer.Lib
