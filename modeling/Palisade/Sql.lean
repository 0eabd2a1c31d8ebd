import Mathlib.Data.List.Basic

/-! A fragment of the SQL of PostgreSQL: the `UPDATE` statement with parameters for its values
and a condition on two of its columns. Names are sequences of identifiers with dots between
them, bare or in double quotes, and are kept as they are written. -/
namespace Sql

inductive Token where
  /-- A name or a keyword. -/
  | name (text : List Char)
  | param (n : Nat)
  | comma
  | equals
  | greater
  deriving DecidableEq

/-- Where the lexer stands. The text is that of the name it is in. -/
inductive Mode where
  | between
  | word (text : List Char)
  /-- After a dot, where an identifier has to begin. -/
  | dotted (text : List Char)
  /-- Between double quotes, with something in them or not. -/
  | quoted (text : List Char) (filled : Bool)
  /-- After a double quote that closes the identifier, or is the first of two in it. -/
  | closed (text : List Char) (filled : Bool)
  | dollar
  | param (n : Nat)
  deriving DecidableEq

def isBlank (c : Char) : Bool := decide (c ∈ [' ', '\t', '\n', '\r', '\x0b', '\x0c'])

def starts (c : Char) : Bool := c.isAlpha || decide (c = '_' ∨ 128 ≤ c.toNat)

def continues (c : Char) : Bool := starts c || c.isDigit || decide (c = '$')

def digit (c : Char) : Nat := c.toNat - '0'.toNat

/-- The first character of a token, or a blank. -/
def begin (c : Char) : Option (List Token × Mode) :=
  if isBlank c then some ([], .between)
  else if starts c then some ([], .word [c])
  else if c = '"' then some ([], .quoted [c] false)
  else if c = '$' then some ([], .dollar)
  else if c = ',' then some ([.comma], .between)
  else if c = '=' then some ([.equals], .between)
  else if c = '>' then some ([.greater], .between)
  else none

/-- A token that ends where `c` begins the next. -/
def endBefore (token : Token) (c : Char) : Option (List Token × Mode) :=
  (begin c).map fun (tokens, mode) => (token :: tokens, mode)

/-- The next character: the tokens that it completes and where the lexer stands then. -/
def step (mode : Mode) (c : Char) : Option (List Token × Mode) :=
  match mode with
  | .between => begin c
  | .word text =>
    if continues c then some ([], .word (text ++ [c]))
    else if c = '.' then some ([], .dotted (text ++ [c]))
    else endBefore (.name text) c
  | .dotted text =>
    if starts c then some ([], .word (text ++ [c]))
    else if c = '"' then some ([], .quoted (text ++ [c]) false)
    else none
  | .quoted text filled =>
    if c = '"' then some ([], .closed (text ++ [c]) filled) else some ([], .quoted (text ++ [c]) true)
  | .closed text filled =>
    if c = '"' then some ([], .quoted (text ++ [c]) true)
    else if !filled then none
    else if c = '.' then some ([], .dotted (text ++ [c]))
    else endBefore (.name text) c
  | .dollar => if c.isDigit then some ([], .param (digit c)) else none
  | .param n =>
    if c.isDigit then some ([], .param (10 * n + digit c))
    else if starts c then none
    else endBefore (.param n) c

/-- The token that the end of the text completes. -/
def finish : Mode → Option (List Token)
  | .between => some []
  | .word text | .closed text true => some [.name text]
  | .param n => some [.param n]
  | .dotted _ | .quoted _ _ | .closed _ false | .dollar => none

def run (mode : Mode) : List Char → Option (List Token × Mode)
  | [] => some ([], mode)
  | c :: rest => (step mode c).bind fun (tokens, next) =>
    (run next rest).map fun (more, last) => (tokens ++ more, last)

def lexFrom (mode : Mode) (text : List Char) : Option (List Token) :=
  (run mode text).bind fun (tokens, last) => (finish last).map (tokens ++ ·)

def lex (text : List Char) : Option (List Token) := lexFrom .between text

/-- The words that PostgreSQL reserves, those it allows for functions and types included. -/
def reserved : List String :=
  ["all", "analyse", "analyze", "and", "any", "array", "as", "asc", "asymmetric", "authorization", "binary", "both",
    "case", "cast", "check", "collate", "collation", "column", "concurrently", "constraint", "create", "cross",
    "current_catalog", "current_date", "current_role", "current_schema", "current_time", "current_timestamp",
    "current_user", "default", "deferrable", "desc", "distinct", "do", "else", "end", "except", "false", "fetch", "for",
    "foreign", "freeze", "from", "full", "grant", "group", "having", "ilike", "in", "initially", "inner", "intersect",
    "into", "is", "isnull", "join", "lateral", "leading", "left", "like", "limit", "localtime", "localtimestamp",
    "natural", "not", "notnull", "null", "offset", "on", "only", "or", "order", "outer", "overlaps", "placing", "primary",
    "references", "returning", "right", "select", "session_user", "similar", "some", "symmetric", "system_user", "table",
    "tablesample", "then", "to", "trailing", "true", "union", "unique", "user", "using", "variadic", "verbose", "when",
    "where", "window", "with"]

def isKeyword (word : String) (text : List Char) : Bool := decide (text.map Char.toLower = word.toList)

/-- The first identifier of the name is not reserved. One in quotes never is. -/
def allowed (text : List Char) : Bool := reserved.all fun word => !isKeyword word (text.takeWhile (· ≠ '.'))

/-- The lexer reads the text as one name. -/
def lexesAsName (text : List Char) : Bool :=
  match run .between text with
  | some ([], mode) => decide (finish mode = some [.name text])
  | _ => false

/-- A name may have any number of dotted parts, while PostgreSQL takes a table with at most
three. -/
def isName (text : List Char) : Bool := lexesAsName text && allowed text

/-- The statement `UPDATE table SET assignments WHERE key = $keyParam AND $boundParam > bound`. -/
structure Update where
  table : List Char
  assignments : List (List Char × Nat)
  key : List Char
  keyParam : Nat
  boundParam : Nat
  bound : List Char
  deriving DecidableEq

def Update.placeholders (u : Update) : List Nat := u.assignments.map Prod.snd ++ [u.keyParam, u.boundParam]

/-- Assignments with commas between them, and what follows. -/
def setList : List Token → Option (List (List Char × Nat) × List Token)
  | .name column :: .equals :: .param n :: .comma :: rest =>
    if allowed column then (setList rest).map fun (others, rest) => ((column, n) :: others, rest) else none
  | .name column :: .equals :: .param n :: rest => if allowed column then some ([(column, n)], rest) else none
  | _ => none

def whereClause (table : List Char) (assignments : List (List Char × Nat)) : List Token → Option Update
  | [.name first, .name key, .equals, .param keyParam, .name second, .param boundParam, .greater, .name bound] =>
    if isKeyword "where" first ∧ allowed key ∧ isKeyword "and" second ∧ allowed bound then
      some ⟨table, assignments, key, keyParam, boundParam, bound⟩
    else none
  | _ => none

def parse : List Token → Option Update
  | .name first :: .name table :: .name second :: rest =>
    if isKeyword "update" first ∧ allowed table ∧ isKeyword "set" second then
      (setList rest).bind fun (assignments, rest) => whereClause table assignments rest
    else none
  | _ => none

/-- The statement that the whole text is. -/
def readUpdate (text : List Char) : Option Update := (lex text).bind parse

/-! The lexer on a text in parts. -/

theorem run_cons {mode next : Mode} {c : Char} {tokens : List Token} (stepped : step mode c = some (tokens, next))
    (rest : List Char) : run mode (c :: rest) = (run next rest).map fun (more, last) => (tokens ++ more, last) := by
  rw [run, stepped, Option.bind_some]

theorem run_append {mode middle : Mode} {first : List Char} {tokens : List Token}
    (begun : run mode first = some (tokens, middle)) (second : List Char) :
    run mode (first ++ second) = (run middle second).map fun (more, last) => (tokens ++ more, last) := by
  induction first generalizing mode tokens with
  | nil =>
    cases begun
    simp
  | cons c first ih =>
    obtain ⟨⟨head, next⟩, stepped, left⟩ := Option.bind_eq_some_iff.mp begun
    obtain ⟨⟨tail, last⟩, left, finished⟩ := Option.map_eq_some_iff.mp left
    cases finished
    rw [List.cons_append, run_cons stepped, ih left]
    cases run middle second with
    | none => rfl
    | some rest => simp [List.append_assoc]

theorem lexFrom_append {mode middle : Mode} {first : List Char} {tokens : List Token}
    (begun : run mode first = some (tokens, middle)) (second : List Char) :
    lexFrom mode (first ++ second) = (lexFrom middle second).map (tokens ++ ·) := by
  rw [lexFrom, lexFrom, run_append begun]
  cases run middle second with
  | none => rfl
  | some rest =>
    obtain ⟨more, last⟩ := rest
    cases ended : finish last <;> simp [ended]

theorem lexFrom_cons {mode next : Mode} {c : Char} {tokens : List Token} (stepped : step mode c = some (tokens, next))
    (rest : List Char) : lexFrom mode (c :: rest) = (lexFrom next rest).map (tokens ++ ·) := by
  have begun : run mode [c] = some (tokens, next) := by
    rw [run_cons stepped, run]
    simp
  exact lexFrom_append begun rest

theorem lexesAsName_iff {text : List Char} : lexesAsName text = true ↔
    ∃ mode, run .between text = some ([], mode) ∧ finish mode = some [.name text] := by
  unfold lexesAsName
  split
  · next mode reads => simp [reads]
  · next other =>
    simp only [Bool.false_eq_true, false_iff, not_exists, not_and]
    exact fun mode reads => absurd reads (other mode)

/-- A character that no name goes on with. -/
def breaks (c : Char) : Bool := !continues c && decide (c ≠ '.' ∧ c ≠ '"')

theorem step_finished {mode : Mode} {text : List Char} {c : Char} (ended : finish mode = some [.name text])
    (break_ : breaks c = true) : step mode c = endBefore (.name text) c := by
  simp only [breaks, Bool.and_eq_true, Bool.not_eq_true', decide_eq_true_eq] at break_
  obtain ⟨other, undotted, unquoted⟩ := break_
  cases mode with
  | word =>
    cases ended
    simp [step, other, undotted]
  | closed text filled =>
    cases filled with
    | true =>
      cases ended
      simp [step, undotted, unquoted]
    | false => cases ended
  | between | dotted | quoted | dollar | param => cases ended

/-- A name before a blank. -/
theorem lex_name {text : List Char} (named : lexesAsName text = true) (rest : List Char) :
    lex (text ++ ' ' :: rest) = (lex rest).map (.name text :: ·) := by
  obtain ⟨mode, reads, ended⟩ := lexesAsName_iff.mp named
  have stepped : step mode ' ' = some ([.name text], .between) := step_finished ended (by decide)
  rw [lex, lexFrom_append reads, lexFrom_cons stepped]
  cases lexed : lexFrom .between rest <;> simp [lex, lexed]

theorem run_digits (n : Nat) {digits : List Char} (all : ∀ c ∈ digits, c.isDigit = true) :
    run (.param n) digits = some ([], .param (Nat.ofDigitChars 10 digits n)) := by
  induction digits generalizing n with
  | nil => rfl
  | cons c digits ih =>
    have here := all c List.mem_cons_self
    have stepped : step (.param n) c = some ([], .param (10 * n + digit c)) := by simp [step, here]
    rw [run_cons stepped, ih _ fun c later => all c (List.mem_cons_of_mem _ later), Nat.ofDigitChars_cons]
    rfl

/-- A parameter before a character that ends it. -/
theorem lex_param (n : Nat) {c : Char} {tokens : List Token} (ends : step (.param n) c = some (.param n :: tokens, .between))
    (rest : List Char) : lex ('$' :: (Nat.toDigits 10 n ++ c :: rest)) = (lex rest).map (.param n :: tokens ++ ·) := by
  have reads : run .dollar (Nat.toDigits 10 n) = some ([], .param n) := by
    have all : ∀ c ∈ Nat.toDigits 10 n, c.isDigit = true := fun c member =>
      Nat.isDigit_of_mem_toDigits (by decide) (by decide) member
    have whole : Nat.ofDigitChars 10 (Nat.toDigits 10 n) 0 = n := Nat.ofDigitChars_ten_toDigits
    cases digits : Nat.toDigits 10 n with
    | nil => exact absurd digits Nat.toDigits_ne_nil
    | cons c digits =>
      rw [digits] at all whole
      have stepped : step .dollar c = some ([], .param (digit c)) := by simp [step, all c List.mem_cons_self]
      rw [run_cons stepped, run_digits _ fun c later => all c (List.mem_cons_of_mem _ later)]
      rw [Nat.ofDigitChars_cons] at whole
      rw [Nat.mul_zero, Nat.zero_add] at whole
      rw [digit, whole]
      rfl
  have dollar : step .between '$' = some ([], .dollar) := by decide
  rw [lex, lexFrom_cons dollar, lexFrom_append reads, lexFrom_cons ends]
  cases lexed : lexFrom .between rest <;> simp [lex, lexed]

/-- A symbol or a blank on its own. -/
theorem lex_symbol {c : Char} {tokens : List Token} (symbol : step .between c = some (tokens, .between)) (rest : List Char) :
    lex (c :: rest) = (lex rest).map (tokens ++ ·) := lexFrom_cons symbol rest

/-- A name at the end. -/
theorem lex_last {text : List Char} (named : lexesAsName text = true) : lex text = some [.name text] := by
  obtain ⟨mode, reads, ended⟩ := lexesAsName_iff.mp named
  simp [lex, lexFrom, reads, ended]

/-! What is read as a name is one. -/

/-- The lexer gets where it stands from the text of the name it is in. -/
def Mode.Consistent (mode : Mode) : Prop :=
  match mode with
  | .between | .dollar | .param _ => True
  | .word text | .dotted text | .quoted text _ | .closed text _ => run .between text = some ([], mode)

def Named (tokens : List Token) : Prop := ∀ text, .name text ∈ tokens → lexesAsName text = true

theorem run_single {mode next : Mode} {c : Char} (stepped : step mode c = some ([], next)) : run mode [c] = some ([], next) := by
  rw [run_cons stepped]
  rfl

theorem run_extend {mode next : Mode} {text : List Char} {c : Char} (reads : run .between text = some ([], mode))
    (stepped : step mode c = some ([], next)) : run .between (text ++ [c]) = some ([], next) := by
  rw [run_append reads, run_single stepped]
  rfl

theorem begin_consistent {c : Char} {tokens : List Token} {next : Mode} (begun : begin c = some (tokens, next)) :
    Named tokens ∧ next.Consistent := by
  have first : step .between c = some (tokens, next) := begun
  unfold begin at begun
  repeat' split at begun
  all_goals cases begun
  all_goals refine ⟨by simp [Named], ?_⟩
  all_goals first | trivial | exact run_single first

/-- A name that ends here. -/
theorem endBefore_consistent {text : List Char} {c : Char} {tokens : List Token} {next : Mode}
    (named : lexesAsName text = true) (ends : endBefore (.name text) c = some (tokens, next)) :
    Named tokens ∧ next.Consistent := by
  obtain ⟨⟨more, after⟩, begun, same⟩ := Option.map_eq_some_iff.mp ends
  cases same
  obtain ⟨others, consistent⟩ := begin_consistent begun
  refine ⟨fun other member => ?_, consistent⟩
  obtain ⟨⟨⟩⟩ | later := List.mem_cons.mp member
  · exact named
  · exact others other later

theorem step_consistent {mode next : Mode} {c : Char} {tokens : List Token} (consistent : mode.Consistent)
    (stepped : step mode c = some (tokens, next)) : Named tokens ∧ next.Consistent := by
  have quiet : Named [] := by simp [Named]
  have whole := stepped
  cases mode with
  | between => exact begin_consistent stepped
  | word text =>
    simp only [step] at stepped
    split at stepped
    · cases stepped
      exact ⟨quiet, run_extend consistent whole⟩
    · split at stepped
      · cases stepped
        exact ⟨quiet, run_extend consistent whole⟩
      · exact endBefore_consistent (lexesAsName_iff.mpr ⟨_, consistent, rfl⟩) stepped
  | dotted text =>
    simp only [step] at stepped
    split at stepped
    · cases stepped
      exact ⟨quiet, run_extend consistent whole⟩
    · obtain ⟨_, ⟨⟩⟩ := Option.ite_none_right_eq_some.mp stepped
      exact ⟨quiet, run_extend consistent whole⟩
  | quoted text filled =>
    simp only [step] at stepped
    split at stepped
    · cases stepped
      exact ⟨quiet, run_extend consistent whole⟩
    · cases stepped
      exact ⟨quiet, run_extend consistent whole⟩
  | closed text filled =>
    simp only [step] at stepped
    split at stepped
    · cases stepped
      exact ⟨quiet, run_extend consistent whole⟩
    · cases filled with
      | false => cases stepped
      | true =>
        simp only [Bool.not_true, Bool.false_eq_true, if_false] at stepped
        split at stepped
        · cases stepped
          exact ⟨quiet, run_extend consistent whole⟩
        · exact endBefore_consistent (lexesAsName_iff.mpr ⟨_, consistent, rfl⟩) stepped
  | dollar =>
    obtain ⟨_, ⟨⟩⟩ := Option.ite_none_right_eq_some.mp stepped
    exact ⟨quiet, trivial⟩
  | param n =>
    simp only [step] at stepped
    split at stepped
    · cases stepped
      exact ⟨quiet, trivial⟩
    · obtain ⟨_, stepped⟩ := Option.ite_none_left_eq_some.mp stepped
      obtain ⟨⟨more, after⟩, begun, same⟩ := Option.map_eq_some_iff.mp stepped
      cases same
      obtain ⟨others, consistent⟩ := begin_consistent begun
      exact ⟨fun other member => others other (by simpa using member), consistent⟩

theorem Named.append {first second : List Token} (left : Named first) (right : Named second) : Named (first ++ second) := by
  intro text member
  exact (List.mem_append.mp member).elim (left text) (right text)

theorem run_consistent {mode last : Mode} {text : List Char} {tokens : List Token} (consistent : mode.Consistent)
    (reads : run mode text = some (tokens, last)) : Named tokens ∧ last.Consistent := by
  induction text generalizing mode tokens with
  | nil =>
    cases reads
    exact ⟨by simp [Named], consistent⟩
  | cons c text ih =>
    obtain ⟨⟨head, next⟩, stepped, reads⟩ := Option.bind_eq_some_iff.mp reads
    obtain ⟨⟨tail, after⟩, reads, same⟩ := Option.map_eq_some_iff.mp reads
    cases same
    obtain ⟨first, consistent⟩ := step_consistent consistent stepped
    obtain ⟨others, consistent⟩ := ih consistent reads
    exact ⟨first.append others, consistent⟩

theorem finish_named {mode : Mode} {tokens : List Token} (consistent : mode.Consistent)
    (ended : finish mode = some tokens) : Named tokens := by
  intro text member
  cases mode with
  | word other =>
    cases ended
    obtain ⟨⟩ := List.mem_singleton.mp member
    exact lexesAsName_iff.mpr ⟨_, consistent, rfl⟩
  | closed other filled =>
    cases filled with
    | true =>
      cases ended
      obtain ⟨⟩ := List.mem_singleton.mp member
      exact lexesAsName_iff.mpr ⟨_, consistent, rfl⟩
    | false => cases ended
  | between =>
    cases ended
    cases member
  | param n =>
    cases ended
    cases List.mem_singleton.mp member
  | dotted | quoted | dollar => cases ended

theorem lex_named {text : List Char} {tokens : List Token} (lexed : lex text = some tokens) : Named tokens := by
  obtain ⟨⟨head, last⟩, reads, lexed⟩ := Option.bind_eq_some_iff.mp lexed
  obtain ⟨tail, ended, rfl⟩ := Option.map_eq_some_iff.mp lexed
  have start : Mode.Consistent .between := trivial
  obtain ⟨first, consistent⟩ := run_consistent start reads
  exact first.append (finish_named consistent ended)

/-- The names of an assignment list, and the tokens behind it. -/
theorem setList_names {tokens rest : List Token} {assignments : List (List Char × Nat)}
    (named : Named tokens) (read : setList tokens = some (assignments, rest)) :
    (∀ assignment ∈ assignments, isName assignment.1 = true) ∧ Named rest := by
  fun_induction setList tokens generalizing assignments rest with
  | case1 column n more allows ih =>
    obtain ⟨⟨others, left⟩, again, same⟩ := Option.map_eq_some_iff.mp read
    cases same
    have later : Named more := fun text member => named text (by simp [member])
    obtain ⟨names, behind⟩ := ih later again
    refine ⟨List.forall_mem_cons.mpr ⟨?_, names⟩, behind⟩
    simp [isName, allows, named column]
  | case2 | case4 | case5 => cases read
  | case3 column n more _ allows =>
    cases read
    refine ⟨List.forall_mem_singleton.mpr ?_, fun text member => named text (by simp [member])⟩
    simp [isName, allows, named column]

/-- Everything that stands for a name in a statement is one. -/
structure Update.WellNamed (u : Update) : Prop where
  table : isName u.table = true
  assignments : ∀ assignment ∈ u.assignments, isName assignment.1 = true
  key : isName u.key = true
  bound : isName u.bound = true

theorem whereClause_wellNamed {table : List Char} {assignments : List (List Char × Nat)} {tokens : List Token}
    {u : Update} (named : Named tokens) (tabled : isName table = true)
    (names : ∀ assignment ∈ assignments, isName assignment.1 = true)
    (clause : whereClause table assignments tokens = some u) : u.WellNamed := by
  unfold whereClause at clause
  split at clause
  · obtain ⟨⟨_, keyed, _, bounded⟩, ⟨⟩⟩ := Option.ite_none_right_eq_some.mp clause
    refine ⟨tabled, names, ?_, ?_⟩
    · exact Bool.and_eq_true_iff.mpr ⟨named _ (by simp), keyed⟩
    · exact Bool.and_eq_true_iff.mpr ⟨named _ (by simp), bounded⟩
  · contradiction

theorem readUpdate_wellNamed {text : List Char} {u : Update} (stated : readUpdate text = some u) : u.WellNamed := by
  obtain ⟨tokens, lexed, parsed⟩ := Option.bind_eq_some_iff.mp stated
  have named := lex_named lexed
  unfold parse at parsed
  split at parsed
  · next first table second rest =>
    obtain ⟨⟨_, allows, _⟩, parsed⟩ := Option.ite_none_right_eq_some.mp parsed
    obtain ⟨⟨assignments, left⟩, listed, clause⟩ := Option.bind_eq_some_iff.mp parsed
    obtain ⟨names, behind⟩ := setList_names (fun text member => named text (by simp [member])) listed
    have tabled : isName table = true := by simp [isName, allows, named table]
    exact whereClause_wellNamed behind tabled names clause
  · contradiction

end Sql
