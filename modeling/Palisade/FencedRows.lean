import Palisade.FencePg
import Palisade.Sql.Tables
import Palisade.Records
import Palisade.Transition

/-! What the fenced statements do to the rows of a table. Writers send fenced updates with
fences of their own in any order; each is the text that `fenced_update` returned, read and run
as SQL. -/
namespace Palisade.FencedRows
open Sql FencePg Records Transition

/-- `fenced_select` -/
def fencedSelect (table idCol : String) (valueCols : List String) : Except String String := do
  assertIdentifier table
  assertIdentifier idCol
  let cols := if valueCols.isEmpty then "last_fence" else ", ".intercalate valueCols ++ ", last_fence"
  return s!"SELECT {cols} FROM {table} WHERE {idCol} = $1 AND $2 > last_fence"

def lastFence : List Char := "last_fence".toList

/-- A write of some columns, with the fence of whoever writes. -/
structure Request where
  assignments : List String
  id : Value
  values : List Value
  fence : Int
  sized : values.length = assignments.length

/-- The parameters in the order that `fenced_update` documents. -/
def Request.params (r : Request) (fenceIdx n : Nat) : Value :=
  if n = 1 then r.id else if n = fenceIdx then .number r.fence else r.values.getD (n - 2) .null

/-- The rows updated, and the table then; nothing where the statement is refused. -/
def Request.run (table idCol : String) (r : Request) (t : Table) : Option (Nat × Table) :=
  match fencedUpdate table idCol r.assignments with
  | .error _ => none
  | .ok (sql, fenceIdx) => (readUpdate sql.toList).bind fun u => u.exec (r.params fenceIdx) t

/-- What an accepted write makes of a row. -/
def Request.write (r : Request) (row : Row) : Row := fun column =>
  if column = lastFence then .number r.fence
  else match (r.assignments.map String.toList).idxOf? column with
    | some i => r.values.getD i .null
    | none => row column

/-- The row has the id, and has accepted lower fences only. -/
def Request.accepted (idCol : String) (r : Request) (row : Row) : Bool :=
  (row idCol.toList).same r.id && (Value.number r.fence).above (row lastFence)

/-- The columns are plain, and neither the id nor the fence is among those written. -/
structure Request.Plain (table idCol : String) (r : Request) : Prop where
  table : isName table.toList = true
  columns : ∀ name ∈ idCol :: r.assignments, isPlain name.toList = true
  nonempty : r.assignments ≠ []
  id_kept : idCol ∉ r.assignments
  id_other : idCol.toList ≠ lastFence

section
variable {table idCol : String} {r : Request} {t after : Table} {row : Row} {n : Nat}

theorem isName_of_plain {text : List Char} (plain : isPlain text = true) : isName text = true :=
  (Bool.and_eq_true_iff.mp plain).1

/-- The assignments of the statement, each column once. -/
theorem assign_eq_write (distinct : ((items r.assignments ++ [(lastFence, r.assignments.length + 2)]).map Prod.fst).Nodup)
    (row : Row) : assign (items r.assignments ++ [(lastFence, r.assignments.length + 2)])
      (r.params (r.assignments.length + 2)) row = r.write row := by
  funext column
  by_cases fence : column = lastFence
  · subst fence
    rw [assign_of_mem distinct (List.mem_append_right _ List.mem_cons_self)]
    simp [Request.params, Request.write]
  · rw [Request.write, if_neg fence]
    cases place : (r.assignments.map String.toList).idxOf? column with
    | none =>
      refine assign_of_not_mem ?_
      rw [List.map_append, items, List.zipIdx_map_fst, List.mem_append, not_or]
      exact ⟨List.idxOf?_eq_none_iff.mp place, by simpa using fence⟩
    | some i =>
      have found : (r.assignments.map String.toList)[i]? = some column := by
        obtain ⟨inside, same, _⟩ := List.idxOf?_eq_some_iff.mp place
        exact List.getElem?_eq_some_iff.mpr ⟨inside, same⟩
      have inside : i < r.assignments.length := by
        simpa using (List.getElem?_eq_some_iff.mp found).1
      have member : (column, i + 2) ∈ items r.assignments ++ [(lastFence, r.assignments.length + 2)] :=
        List.mem_append_left _ (List.mk_mem_zipIdx_iff_le_and_getElem?_sub.mpr ⟨by omega, by simpa using found⟩)
      rw [assign_of_mem distinct member]
      simp only [Request.params]
      rw [if_neg (by omega), if_neg (by omega), Nat.add_sub_cancel]

/-- The columns that the statement names are in the table, and it assigns to each of them once. -/
structure Request.Fits (idCol : String) (r : Request) (columns : List (List Char)) : Prop where
  distinct : (r.assignments.map String.toList ++ [lastFence]).Nodup
  listed : ∀ column ∈ idCol.toList :: lastFence :: (r.assignments.map String.toList ++ [lastFence]), column ∈ columns

/-- The table after the rows that accept a write have taken it. -/
def Request.take (idCol : String) (r : Request) (t : Table) : Table :=
  { t with rows := t.rows.map fun row => if r.accepted idCol row then r.write row else row }

/-- A plain write that is returned as a statement is run where its columns are in the table, and
changes the rows that accept it, and only those. -/
theorem run_eq_some (plain : r.Plain table idCol) {out : String × Nat} (returned : fencedUpdate table idCol r.assignments = .ok out)
    {result : Nat × Table} : r.run table idCol t = some result ↔
      r.Fits idCol t.columns ∧ result = (t.rows.countP (r.accepted idCol), r.take idCol t) := by
  obtain ⟨sql, fenceIdx⟩ := out
  obtain ⟨rfl, text⟩ := fencedUpdate_ok returned
  have names : ∀ name ∈ table :: idCol :: r.assignments, isName name.toList = true :=
    List.forall_mem_cons.mpr ⟨plain.table, fun name member => isName_of_plain (plain.columns name member)⟩
  have printed := readUpdate_printed (r.assignments.length + 2) plain.nonempty names
  have columns : (items r.assignments ++ [(lastFence, r.assignments.length + 2)]).map Prod.fst =
      r.assignments.map String.toList ++ [lastFence] := by
    rw [List.map_append, items, List.zipIdx_map_fst]
    rfl
  have chosen : selects idCol.toList 1 (r.assignments.length + 2) lastFence (r.params (r.assignments.length + 2)) =
      r.accepted idCol := by
    funext row
    simp [selects, Request.accepted, Request.params]
  have taken (distinct : (r.assignments.map String.toList ++ [lastFence]).Nodup) : (t.rows.map fun row =>
      if selects idCol.toList 1 (r.assignments.length + 2) lastFence (r.params (r.assignments.length + 2)) row then
        assign (items r.assignments ++ [(lastFence, r.assignments.length + 2)]) (r.params (r.assignments.length + 2)) row
      else row) = (r.take idCol t).rows := by
    refine List.map_congr_left fun row _ => ?_
    rw [chosen, assign_eq_write (columns ▸ distinct)]
  simp only [Request.run, returned, text, printed, Option.bind_some]
  constructor
  · intro ran
    obtain ⟨⟨distinct, listed⟩, ⟨⟩⟩ := Option.ite_none_right_eq_some.mp ran
    have fits : r.Fits idCol t.columns := ⟨columns ▸ distinct, columns ▸ listed⟩
    exact ⟨fits, Prod.ext (congrArg (t.rows.countP ·) chosen) (congrArg (Table.mk t.columns) (taken fits.distinct))⟩
  · rintro ⟨fits, rfl⟩
    have inside : ((items r.assignments ++ [(lastFence, r.assignments.length + 2)]).map Prod.fst).Nodup ∧
        ∀ column ∈ idCol.toList :: lastFence :: (items r.assignments ++ [(lastFence, r.assignments.length + 2)]).map Prod.fst,
          column ∈ t.columns := columns ▸ ⟨fits.distinct, fits.listed⟩
    exact Option.ite_none_right_eq_some.mpr ⟨inside, congrArg some (Prod.ext (congrArg (t.rows.countP ·) chosen)
      (congrArg (Table.mk t.columns) (taken fits.distinct)))⟩

theorem run_plain (plain : r.Plain table idCol) (ran : r.run table idCol t = some (n, after)) :
    n = t.rows.countP (r.accepted idCol) ∧ after = r.take idCol t := by
  cases returned : fencedUpdate table idCol r.assignments with
  | error => simp [Request.run, returned] at ran
  | ok out =>
    obtain ⟨_, ⟨⟩⟩ := (run_eq_some plain returned).mp ran
    exact ⟨rfl, rfl⟩

/-- Identifiers that pass are printed. -/
theorem fencedUpdate_returns {assignments : List String} (first : assertIdentifier table = .ok ())
    (second : assertIdentifier idCol = .ok ()) (none_empty : "" ∉ assignments) :
    ∃ out, fencedUpdate table idCol assignments = .ok out := by
  have full : (assignments.any fun a => decide (a = "")) = false := by
    rw [List.any_eq_false]
    exact fun a member empty => none_empty (of_decide_eq_true empty ▸ member)
  unfold fencedUpdate
  rw [first, second, full]
  exact ⟨_, rfl⟩

theorem write_lastFence : r.write row lastFence = .number r.fence := if_pos rfl

/-- A write leaves the id of its row. -/
theorem write_id (plain : r.Plain table idCol) : r.write row idCol.toList = row idCol.toList := by
  have unwritten : (r.assignments.map String.toList).idxOf? idCol.toList = none := by
    rw [List.idxOf?_eq_none_iff]
    intro member
    obtain ⟨name, listed, same⟩ := List.mem_map.mp member
    exact plain.id_kept (String.toList_inj.mp same ▸ listed)
  rw [Request.write, if_neg plain.id_other, unwritten]

end

/-! Runs of writers on one table. -/

/-- `requests` are the writes that were run, the latest last. -/
structure State where
  table : Table
  requests : List Request

/-- A statement that is refused leaves the table as it is. -/
def fencing (table idCol : String) (start : Table) : Machine State Request where
  initial s := s = ⟨start, []⟩
  step s r := some (match r.run table idCol s.table with
    | some (_, after) => ⟨after, s.requests ++ [r]⟩
    | none => s)

/-- The writes to a row. -/
def concerning (idCol : String) (row : Row) (requests : List Request) : List (Int × Request) :=
  (requests.filter fun r => (row idCol.toList).same r.id).map fun r => (r.fence, r)

section
variable {table idCol : String} {r : Request} {row : Row}

/-- What the writes make of a row that has accepted fences up to the given one. -/
def written (idCol : String) (row : Row) (last : Int) (requests : List Request) : Int × Row :=
  (concerning idCol row requests).foldl (advance Request.write) (last, row)

structure Shows (idCol : String) (first : Row) (last : Int) (requests : List Request) (row : Row) : Prop where
  made : row = (written idCol first last requests).2
  fence : row lastFence = .number (written idCol first last requests).1
  id : row idCol.toList = first idCol.toList

theorem Shows.write {first : Row} {last : Int} {requests : List Request} (shows : Shows idCol first last requests row)
    (plain : r.Plain table idCol) :
    Shows idCol first last (requests ++ [r]) (if r.accepted idCol row then r.write row else row) := by
  have accepts : r.accepted idCol row =
      ((first idCol.toList).same r.id && decide ((written idCol first last requests).1 < r.fence)) := by
    rw [Request.accepted, shows.id, shows.fence]
    rfl
  by_cases mine : (first idCol.toList).same r.id
  · have appended : written idCol first last (requests ++ [r]) =
        advance Request.write (written idCol first last requests) (r.fence, r) := by
      simp [written, concerning, mine]
    by_cases above : (written idCol first last requests).1 < r.fence
    · have yes : r.accepted idCol row = true := by simp [accepts, mine, above]
      rw [if_pos yes]
      refine ⟨?_, ?_, (write_id plain).trans shows.id⟩
      · simp [appended, advance, above, ← shows.made]
      · simp [appended, advance, above, write_lastFence]
    · have no : r.accepted idCol row = false := by simp [accepts, above]
      rw [no]
      refine ⟨?_, ?_, shows.id⟩
      · simpa [appended, advance, above] using shows.made
      · simpa [appended, advance, above] using shows.fence
  · have same : written idCol first last (requests ++ [r]) = written idCol first last requests := by
      simp [written, concerning, mine]
    have no : r.accepted idCol row = false := by simp [accepts, mine]
    rw [no]
    exact ⟨by simpa [same] using shows.made, by simpa [same] using shows.fence, shows.id⟩

theorem shows_reachable {start : Table} {s : State}
    (reach : (fencing table idCol start).ReachableWhen (fun _ r => r.Plain table idCol) s) :
    s.table.rows.length = start.rows.length ∧ ∀ (i : Nat) (first : Row) (last : Int), start.rows[i]? = some first →
      first lastFence = .number last → ∃ row, s.table.rows[i]? = some row ∧ Shows idCol first last s.requests row := by
  refine reach.invariant (P := fun s => s.table.rows.length = start.rows.length ∧
    ∀ (i : Nat) (first : Row) (last : Int), start.rows[i]? = some first → first lastFence = .number last →
      ∃ row, s.table.rows[i]? = some row ∧ Shows idCol first last s.requests row) ?_ ?_
  · rintro s rfl
    exact ⟨rfl, fun i first last here fence => ⟨first, here, rfl, fence, rfl⟩⟩
  · rintro s r t ⟨size, inv⟩ plain ⟨⟩
    cases ran : r.run table idCol s.table with
    | none => exact ⟨size, inv⟩
    | some result =>
      obtain ⟨n, after⟩ := result
      obtain ⟨_, rfl⟩ := run_plain plain ran
      refine ⟨by simpa [Request.take] using size, fun i first last here fence => ?_⟩
      obtain ⟨row, found, shows⟩ := inv i first last here fence
      exact ⟨_, by simp [Request.take, found], shows.write plain⟩

/-- The statement of the write is returned, and its columns are in the table. -/
structure Request.Served (table idCol : String) (columns : List (List Char)) (r : Request) : Prop where
  plain : r.Plain table idCol
  full : "" ∉ r.assignments
  fits : r.Fits idCol columns

theorem fencing_step (start : Table) {s : State} (first : assertIdentifier table = .ok ()) (second : assertIdentifier idCol = .ok ())
    (served : r.Served table idCol s.table.columns) :
    (fencing table idCol start).step s r = some ⟨r.take idCol s.table, s.requests ++ [r]⟩ := by
  obtain ⟨out, returned⟩ := fencedUpdate_returns first second served.full
  simp only [fencing, (run_eq_some served.plain returned).mpr ⟨served.fits, rfl⟩]

/-- Such writes are run, all of them. -/
theorem writes_run {start : Table} {s : State} {requests : List Request} (first : assertIdentifier table = .ok ())
    (second : assertIdentifier idCol = .ok ())
    (reach : (fencing table idCol start).ReachableWhen (fun _ r => r.Plain table idCol) s)
    (served : ∀ r ∈ requests, r.Served table idCol s.table.columns) :
    ∃ t, (fencing table idCol start).ReachableWhen (fun _ r => r.Plain table idCol) t ∧ t.requests = s.requests ++ requests := by
  induction requests generalizing s with
  | nil => exact ⟨s, reach, (List.append_nil _).symm⟩
  | cons r rest ih =>
    obtain ⟨own, later⟩ := List.forall_mem_cons.mp served
    obtain ⟨t, reach, ran⟩ := ih (.next reach own.plain (fencing_step start first second own)) later
    exact ⟨t, reach, by rw [ran, List.append_assoc, List.singleton_append]⟩

/-- In whatever order the writes of a row arrive, it ends with the highest fence among them and
as if only those had been made that exceeded all before, which is in the order of their fences. -/
theorem fenced_rows {start : Table} {s : State}
    (reach : (fencing table idCol start).ReachableWhen (fun _ r => r.Plain table idCol) s) {i : Nat} {first : Row} {last : Int}
    (here : start.rows[i]? = some first) (fence : first lastFence = .number last) :
    ∃ row, s.table.rows[i]? = some row ∧
      row lastFence = .number (highest last (concerning idCol first s.requests)) ∧
      row = (records last (concerning idCol first s.requests)).foldl (fun row change => change.2.write row) first ∧
      (records last (concerning idCol first s.requests)).Pairwise fun before after => before.1 < after.1 := by
  obtain ⟨row, found, shows⟩ := (shows_reachable reach).2 i first last here fence
  have made := foldl_advance Request.write last first (concerning idCol first s.requests)
  refine ⟨row, found, ?_, ?_, records_increasing _ _⟩
  · rw [shows.fence, written, made]
  · rw [shows.made, written, made]

end

/-- An order that nobody has written to yet. -/
def order : Row := fun column =>
  if column = "id".toList then .number 1 else if column = "status".toList then .text "new".toList
  else if column = lastFence then .number 0 else .null

def orders : Table := ⟨["id".toList, "status".toList, lastFence], [order]⟩

/-- The status of the order is set under a fence. -/
def setStatus (status : String) (fence : Int) : Request := ⟨["status"], .number 1, [.text status.toList], fence, rfl⟩

def paid : Request := setStatus "paid" 5

/-- The holder of fence 5, a stale holder of fence 3 and the next one. -/
def writers : List Request := [paid, setStatus "open" 3, setStatus "sent" 7]

theorem orders_names : assertIdentifier "orders" = .ok () ∧ assertIdentifier "id" = .ok () := ⟨rfl, rfl⟩

theorem status_served {r : Request} (status : r.assignments = ["status"]) : r.Served "orders" "id" orders.columns where
  plain := {
    table := by decide +kernel
    columns := by
      rw [status]
      decide +kernel
    nonempty := by simp [status]
    id_kept := by simp [status]
    id_other := by decide }
  full := by simp [status]
  fits := {
    distinct := by
      rw [status]
      decide +kernel
    listed := by
      rw [status]
      decide +kernel }

theorem writers_ordered : ∃ s : State, s.requests.map Request.fence = [5, 3, 7] ∧
    ∃ row, s.table.rows[0]? = some row ∧ row lastFence = .number 7 := by
  have served : ∀ r ∈ writers, r.Served "orders" "id" orders.columns := by
    simp only [writers, List.forall_mem_cons]
    exact ⟨status_served rfl, status_served rfl, status_served rfl, List.forall_mem_nil _⟩
  have start : (fencing "orders" "id" orders).ReachableWhen (fun _ r => r.Plain "orders" "id") ⟨orders, []⟩ := .initial rfl
  obtain ⟨s, reach, ran⟩ := writes_run orders_names.1 orders_names.2 start served
  have opening : orders.rows[0]? = some order := rfl
  have unwritten : order lastFence = .number 0 := by decide +kernel
  obtain ⟨row, found, shown, _⟩ := fenced_rows reach opening unwritten
  have seven : highest 0 (concerning "id" order writers) = 7 := by decide +kernel
  rw [ran, List.nil_append] at shown
  exact ⟨s, by rw [ran]; rfl, row, found, shown.trans (congrArg Value.number seven)⟩

/-! The query that a writer may ask before it writes. -/

/-- The query that is meant. -/
def meantSelect (table idCol : String) (valueCols : List String) : Select where
  columns := valueCols.map String.toList ++ [lastFence]
  table := table.toList
  key := idCol.toList
  keyParam := 1
  boundParam := 2
  bound := lastFence

theorem lex_columns {columns : List (List Char)} (named : ∀ column ∈ columns, lexesAsName column = true) (rest : List Char) :
    lex (columns.flatMap (fun column => column ++ ", ".toList) ++ rest) =
      (lex rest).map (columns.flatMap (fun column => [.name column, .comma]) ++ ·) := by
  induction columns with
  | nil => simp
  | cons column columns ih =>
    have blank : step .between ' ' = some ([], .between) := by decide
    have text : (column :: columns).flatMap (fun column => column ++ ", ".toList) ++ rest =
        column ++ ',' :: ' ' :: (columns.flatMap (fun column => column ++ ", ".toList) ++ rest) := by
      simp
    rw [text, lex_name_comma (named column List.mem_cons_self), lex_symbol blank,
      ih fun column later => named column (List.mem_cons_of_mem _ later)]
    cases lex rest <;> simp

theorem columnList_tokens {columns : List (List Char)} {last : List Char} (allows : ∀ column ∈ columns, allowed column = true)
    (allow : allowed last = true) {rest : List Token} (ended : ∀ more, rest ≠ .comma :: more) :
    columnList (columns.flatMap (fun column => [.name column, .comma]) ++ .name last :: rest) = some (columns ++ [last], rest) := by
  induction columns with
  | nil =>
    simp only [List.flatMap_nil, List.nil_append]
    rw [columnList, if_pos allow]
    exact ended
  | cons column columns ih =>
    have later := ih fun column member => allows column (List.mem_cons_of_mem _ member)
    simp only [List.flatMap_cons, List.cons_append, List.nil_append]
    rw [columnList, if_pos (allows column List.mem_cons_self), later]
    rfl

theorem fencedSelect_ok {table idCol sql : String} {valueCols : List String}
    (returned : fencedSelect table idCol valueCols = .ok sql) :
    sql.toList = "SELECT".toList ++ ' ' :: ((valueCols.map String.toList).flatMap (fun column => column ++ ", ".toList) ++
      ("last_fence".toList ++ ' ' :: ("FROM".toList ++ ' ' :: (table.toList ++ ' ' :: ("WHERE".toList ++ ' ' ::
        (printed (idCol.toList, 1) ++ ' ' :: ("AND".toList ++ ' ' :: '$' :: (Nat.toDigits 10 2 ++ ' ' :: '>' :: ' ' ::
          "last_fence".toList)))))))) := by
  unfold fencedSelect at returned
  obtain ⟨_, _, returned⟩ := bind_ok returned
  obtain ⟨_, _, returned⟩ := bind_ok returned
  have one : Nat.toDigits 10 1 = ['1'] := by decide
  have two : Nat.toDigits 10 2 = ['2'] := by decide
  by_cases none : valueCols = []
  · subst none
    cases returned
    simp [printed, one, two, ToString.toString]
  · have listed : valueCols.isEmpty = false := by simpa using none
    simp only [listed, Bool.false_eq_true, if_false] at returned
    cases returned
    have parts : valueCols.map String.toList ≠ [] := by simpa using none
    rw [← intercalate_concat parts, ← String.toList_intercalate]
    simp [printed, one, two, ToString.toString]

theorem fencedSelect_returns {table idCol : String} (first : assertIdentifier table = .ok ())
    (second : assertIdentifier idCol = .ok ()) (valueCols : List String) : ∃ sql, fencedSelect table idCol valueCols = .ok sql := by
  unfold fencedSelect
  rw [first, second]
  exact ⟨_, rfl⟩

theorem readSelect_printed {table idCol sql : String} {valueCols : List String}
    (returned : fencedSelect table idCol valueCols = .ok sql)
    (names : ∀ name ∈ table :: idCol :: valueCols, isName name.toList = true) :
    readSelect sql.toList = some (meantSelect table idCol valueCols) := by
  obtain ⟨tabled, keyed, columns⟩ : isName table.toList = true ∧ isName idCol.toList = true ∧
      ∀ name ∈ valueCols, isName name.toList = true := by simpa using names
  have each : ∀ column ∈ valueCols.map String.toList, lexesAsName column = true ∧ allowed column = true := by
    intro column member
    obtain ⟨name, listed, rfl⟩ := List.mem_map.mp member
    exact Bool.and_eq_true_iff.mp (columns name listed)
  obtain ⟨reads, allows⟩ := Bool.and_eq_true_iff.mp tabled
  obtain ⟨key, allow⟩ := Bool.and_eq_true_iff.mp keyed
  have select : lexesAsName "SELECT".toList = true := by decide
  have from_ : lexesAsName "FROM".toList = true := by decide
  have keywords : isKeyword "select" "SELECT".toList = true ∧ isKeyword "from" "FROM".toList = true := by decide
  have clause : lex ("WHERE".toList ++ ' ' :: (printed (idCol.toList, 1) ++ ' ' :: ("AND".toList ++ ' ' :: '$' ::
      (Nat.toDigits 10 2 ++ ' ' :: '>' :: ' ' :: "last_fence".toList)))) = some (closingTokens idCol 2) := by
    have blank : step .between ' ' = some ([], .between) := by decide
    have greater : step .between '>' = some ([.greater], .between) := by decide
    have ends (n : Nat) : step (.param n) ' ' = some ([.param n], .between) := rfl
    have first : lexesAsName "WHERE".toList = true := by decide
    have second : lexesAsName "AND".toList = true := by decide
    rw [lex_name first, lex_printed key (ends 1), lex_name second, lex_param _ (ends _), lex_symbol greater,
      lex_symbol blank, lex_last lastFence_isName.1]
    simp [closingTokens, tokens]
  rw [fencedSelect_ok returned, readSelect, lex_name select, lex_columns fun column member => (each column member).1,
    lex_name lastFence_isName.1, lex_name from_, lex_name reads, clause]
  simp only [Option.map_some, Option.bind_some, parseSelect, if_pos keywords.1]
  rw [columnList_tokens (fun column member => (each column member).2) lastFence_isName.2 (by simp)]
  have clauses : isKeyword "where" "WHERE".toList = true ∧ isKeyword "and" "AND".toList = true := by decide
  simp only [Option.bind_some, if_pos (And.intro keywords.2 allows), closingTokens, whereClause]
  rw [if_pos ⟨clauses.1, allow, clauses.2, lastFence_isName.2⟩]
  rfl

/-- The query finds as many rows as the update would change, so that it says proceed exactly
where a write with the same fence would be accepted. -/
theorem fencedSelect_foresees {table idCol sql : String} {valueCols : List String} {r : Request} {t after : Table}
    {found : List (List Value)} {n : Nat} (returned : fencedSelect table idCol valueCols = .ok sql)
    (names : ∀ name ∈ valueCols, isName name.toList = true) (plain : r.Plain table idCol)
    (ran : r.run table idCol t = some (n, after)) (asked : (readSelect sql.toList).bind (fun q =>
      q.exec (fun i => if i = 1 then r.id else .number r.fence) t) = some found) :
    found.length = n ∧ (found ≠ [] ↔ ∃ row ∈ t.rows, r.accepted idCol row = true) := by
  have given : ∀ name ∈ table :: idCol :: valueCols, isName name.toList = true :=
    List.forall_mem_cons.mpr ⟨plain.table, List.forall_mem_cons.mpr
      ⟨isName_of_plain (plain.columns idCol List.mem_cons_self), names⟩⟩
  rw [readSelect_printed returned given, Option.bind_some] at asked
  obtain ⟨_, ⟨⟩⟩ := Option.ite_none_right_eq_some.mp asked
  have chosen : selects idCol.toList 1 2 lastFence (fun i => if i = 1 then r.id else .number r.fence) = r.accepted idCol := by
    funext row
    simp [selects, Request.accepted]
  simp only [meantSelect, chosen, List.length_map, ne_eq, List.map_eq_nil_iff, List.filter_eq_nil_iff]
  refine ⟨?_, by simp⟩
  rw [(run_plain plain ran).1, List.countP_eq_length_filter]

theorem paid_foreseen : ∃ found : List (List Value), found.length = 1 ∧
    (found ≠ [] ↔ ∃ row ∈ orders.rows, paid.accepted "id" row = true) := by
  have served : paid.Served "orders" "id" orders.columns := status_served rfl
  obtain ⟨out, printed⟩ := fencedUpdate_returns orders_names.1 orders_names.2 served.full
  have ran : paid.run "orders" "id" orders = some (orders.rows.countP (paid.accepted "id"), paid.take "id" orders) :=
    (run_eq_some served.plain printed).mpr ⟨served.fits, rfl⟩
  have one : orders.rows.countP (paid.accepted "id") = 1 := by decide +kernel
  have names : ∀ name ∈ ["status"], isName name.toList = true :=
    fun name member => isName_of_plain (served.plain.columns name (List.mem_cons_of_mem _ member))
  obtain ⟨sql, returned⟩ := fencedSelect_returns orders_names.1 orders_names.2 ["status"]
  have read := readSelect_printed returned (List.forall_mem_cons.mpr ⟨served.plain.table, List.forall_mem_cons.mpr
      ⟨isName_of_plain (served.plain.columns "id" List.mem_cons_self), names⟩⟩)
  have columns : (meantSelect "orders" "id" ["status"]).exec (fun i => if i = 1 then paid.id else .number paid.fence) orders =
      some _ := if_pos (by decide +kernel)
  obtain ⟨size, foreseen⟩ := fencedSelect_foresees returned names served.plain ran (by rw [read, Option.bind_some, columns])
  exact ⟨_, size.trans one, foreseen⟩

end Palisade.FencedRows
