import Mathlib.Data.Bool.AllAny
import Mathlib.Order.Lattice
import Palisade.Sql

/-! What `UPDATE` and `SELECT` do to a table. Columns go by the text of their names, which is
right for names in lower case without quotes. A condition holds of a row when it is true, so
never through a null. -/
namespace Sql

inductive Value where
  | null
  | number (n : Int)
  | text (letters : List Char)
  deriving DecidableEq

/-- `=`, where it is true. -/
def Value.same : Value → Value → Bool
  | .null, _ | _, .null => false
  | first, second => decide (first = second)

/-- `>` of numbers, where it is true. -/
def Value.above : Value → Value → Bool
  | .number first, .number second => decide (second < first)
  | _, _ => false

abbrev Row := List Char → Value

structure Table where
  columns : List (List Char)
  rows : List Row

/-- A name in lower case, without dots and quotes. -/
def isPlain (text : List Char) : Bool := isName text && text.all fun c => continues c && !c.isUpper

/-- The condition `key = $keyParam AND $boundParam > bound`. -/
def selects (key : List Char) (keyParam boundParam : Nat) (bound : List Char) (params : Nat → Value) (row : Row) : Bool :=
  (row key).same (params keyParam) && (params boundParam).above (row bound)

def assign (assignments : List (List Char × Nat)) (params : Nat → Value) (row : Row) : Row :=
  assignments.foldl (fun row assignment => Function.update row assignment.1 (params assignment.2)) row

/-- How many rows were updated, and the table then. A column that does not exist or is assigned
twice is an error. -/
def Update.exec (u : Update) (params : Nat → Value) (t : Table) : Option (Nat × Table) :=
  if (u.assignments.map Prod.fst).Nodup ∧ ∀ column ∈ u.key :: u.bound :: u.assignments.map Prod.fst, column ∈ t.columns then
    let chosen := selects u.key u.keyParam u.boundParam u.bound params
    some (t.rows.countP chosen,
      { t with rows := t.rows.map fun row => if chosen row then assign u.assignments params row else row })
  else none

/-- The statement `SELECT columns FROM table WHERE key = $keyParam AND $boundParam > bound`. -/
structure Select where
  columns : List (List Char)
  table : List Char
  key : List Char
  keyParam : Nat
  boundParam : Nat
  bound : List Char
  deriving DecidableEq

def Select.exec (q : Select) (params : Nat → Value) (t : Table) : Option (List (List Value)) :=
  if ∀ column ∈ q.key :: q.bound :: q.columns, column ∈ t.columns then
    some ((t.rows.filter (selects q.key q.keyParam q.boundParam q.bound params)).map fun row => q.columns.map row)
  else none

/-- Names with commas between them, and what follows. -/
def columnList : List Token → Option (List (List Char) × List Token)
  | .name column :: .comma :: rest =>
    if allowed column then (columnList rest).map fun (others, rest) => (column :: others, rest) else none
  | .name column :: rest => if allowed column then some ([column], rest) else none
  | _ => none

def parseSelect : List Token → Option Select
  | .name first :: rest =>
    if isKeyword "select" first then
      (columnList rest).bind fun (columns, rest) =>
        match rest with
        | .name second :: .name table :: clause =>
          if isKeyword "from" second ∧ allowed table then
            (whereClause table [] clause).map fun u => ⟨columns, u.table, u.key, u.keyParam, u.boundParam, u.bound⟩
          else none
        | _ => none
    else none
  | _ => none

/-- The query that the whole text is. -/
def readSelect (text : List Char) : Option Select := (lex text).bind parseSelect

/-- A name before a comma. -/
theorem lex_name_comma {text : List Char} (named : lexesAsName text = true) (rest : List Char) :
    lex (text ++ ',' :: rest) = (lex rest).map (.name text :: .comma :: ·) := by
  obtain ⟨mode, reads, ended⟩ := lexesAsName_iff.mp named
  have stepped : step mode ',' = some ([.name text, .comma], .between) := step_finished ended (by decide)
  rw [lex, lexFrom_append reads, lexFrom_cons stepped]
  cases lexed : lexFrom .between rest <;> simp [lex, lexed]

section
variable {assignments : List (List Char × Nat)} {params : Nat → Value} {row : Row} {column : List Char}

theorem assign_of_not_mem (other : column ∉ assignments.map Prod.fst) : assign assignments params row column = row column := by
  induction assignments generalizing row with
  | nil => rfl
  | cons assignment rest ih =>
    simp only [List.map_cons, List.mem_cons, not_or] at other
    exact (ih other.2).trans (Function.update_of_ne other.1 _ _)

theorem assign_of_mem {n : Nat} (distinct : (assignments.map Prod.fst).Nodup) (member : (column, n) ∈ assignments) :
    assign assignments params row column = params n := by
  induction assignments generalizing row with
  | nil => cases member
  | cons assignment rest ih =>
    obtain ⟨once, distinct⟩ := List.nodup_cons.mp distinct
    rcases List.mem_cons.mp member with rfl | later
    · exact (assign_of_not_mem once).trans (Function.update_self ..)
    · exact ih distinct later

end

end Sql
