import Palisade.Sql

/-! The SQL of a fenced update. The table and the id column have to be identifiers of letters,
digits, `_` and `.`; an assignment has only to be a text that is not empty, and there may be
none. -/
namespace Palisade.FencePg
open Sql

/-- An error is the message of the panic. -/
def assertIdentifier (id : String) : Except String Unit :=
  if id ≠ "" ∧ id.toList.all (fun c => c.isAlphanum || decide (c = '_') || decide (c = '.')) then .ok ()
  else .error s!"identifier must be [A-Za-z0-9_.]: {id}"

/-- `fenced_update`: the statement and the index of the parameter for the fence. -/
def fencedUpdate (table idCol : String) (assignments : List String) : Except String (String × Nat) := do
  assertIdentifier table
  assertIdentifier idCol
  if assignments.any fun a => decide (a = "") then .error "empty assignment"
  else
    let setParts := assignments.zipIdx.map fun (a, i) => s!"{a} = ${i + 2}"
    let fenceIdx := assignments.length + 2
    let joined := ", ".intercalate setParts
    return (s!"UPDATE {table} SET {joined}, last_fence = ${fenceIdx} WHERE {idCol} = $1 AND ${fenceIdx} > last_fence",
      fenceIdx)

/-- The statement that is meant. -/
def meant (table idCol : String) (assignments : List String) (fenceIdx : Nat) : Update where
  table := table.toList
  assignments := (assignments.map String.toList).zipIdx 2 ++ [("last_fence".toList, fenceIdx)]
  key := idCol.toList
  keyParam := 1
  boundParam := fenceIdx
  bound := "last_fence".toList

/-- The text is the statement that is meant, and every parameter is used. -/
structure WellFormed (table idCol : String) (assignments : List String) (sql : String) (fenceIdx : Nat) : Prop where
  index : fenceIdx = assignments.length + 2
  statement : readUpdate sql.toList = some (meant table idCol assignments fenceIdx)
  placeholders : ∀ n, 1 ≤ n → n ≤ fenceIdx → n ∈ (meant table idCol assignments fenceIdx).placeholders

theorem lastFence_isName : lexesAsName "last_fence".toList = true ∧ allowed "last_fence".toList = true := by
  decide +kernel

/-- An assignment as it is printed. -/
def printed (item : List Char × Nat) : List Char := item.1 ++ " = $".toList ++ Nat.toDigits 10 item.2

def tokens (item : List Char × Nat) : List Token := [.name item.1, .equals, .param item.2]

theorem lex_printed {item : List Char × Nat} (named : lexesAsName item.1 = true) {c : Char} {next : List Token}
    (ends : step (.param item.2) c = some (.param item.2 :: next, .between)) (rest : List Char) :
    lex (printed item ++ c :: rest) = (lex rest).map (tokens item ++ next ++ ·) := by
  have equals : step .between '=' = some ([.equals], .between) := by decide
  have blank : step .between ' ' = some ([], .between) := by decide
  have text : printed item ++ c :: rest =
      item.1 ++ ' ' :: '=' :: ' ' :: '$' :: (Nat.toDigits 10 item.2 ++ c :: rest) := by
    simp [printed]
  rw [text, lex_name named, lex_symbol equals, lex_symbol blank, lex_param _ ends]
  cases lex rest <;> simp [tokens]

/-- Assignments with a comma behind each. -/
theorem lex_assignments {items : List (List Char × Nat)} (named : ∀ item ∈ items, lexesAsName item.1 = true)
    (rest : List Char) : lex (items.flatMap (fun item => printed item ++ ", ".toList) ++ rest) =
      (lex rest).map (items.flatMap (fun item => tokens item ++ [.comma]) ++ ·) := by
  induction items with
  | nil => simp
  | cons item items ih =>
    have comma : step (.param item.2) ',' = some ([.param item.2, .comma], .between) := rfl
    have blank : step .between ' ' = some ([], .between) := by decide
    have text : (item :: items).flatMap (fun item => printed item ++ ", ".toList) ++ rest =
        printed item ++ ',' :: ' ' :: (items.flatMap (fun item => printed item ++ ", ".toList) ++ rest) := by
      simp
    rw [text, lex_printed (named item List.mem_cons_self) comma, lex_symbol blank,
      ih fun item later => named item (List.mem_cons_of_mem _ later)]
    cases lex rest <;> simp

theorem setList_tokens {items : List (List Char × Nat)} {last : List Char × Nat}
    (allows : ∀ item ∈ items, allowed item.1 = true) (allow : allowed last.1 = true) {rest : List Token}
    (ended : ∀ more, rest ≠ .comma :: more) :
    setList (items.flatMap (fun item => tokens item ++ [.comma]) ++ (tokens last ++ rest)) = some (items ++ [last], rest) := by
  induction items with
  | nil =>
    simp only [List.flatMap_nil, List.nil_append, tokens, List.cons_append]
    rw [setList, if_pos allow]
    exact ended
  | cons item items ih =>
    have here := allows item List.mem_cons_self
    have rest := ih fun item later => allows item (List.mem_cons_of_mem _ later)
    simp only [List.flatMap_cons, tokens, List.cons_append, List.nil_append] at rest ⊢
    rw [setList, if_pos here, rest]
    rfl

/-- The parameters of the given columns. -/
def items (assignments : List String) : List (List Char × Nat) := (assignments.map String.toList).zipIdx 2

/-- What is printed behind the given columns. -/
def closing (idCol : String) (fenceIdx : Nat) : List Char :=
  printed ("last_fence".toList, fenceIdx) ++ ' ' :: ("WHERE".toList ++ ' ' :: (printed (idCol.toList, 1) ++
    ' ' :: ("AND".toList ++ ' ' :: '$' :: (Nat.toDigits 10 fenceIdx ++ ' ' :: '>' :: ' ' :: "last_fence".toList))))

theorem intercalate_concat {α : Type} {separator : List α} {parts : List (List α)} (some : parts ≠ []) :
    separator.intercalate parts ++ separator = parts.flatMap (· ++ separator) := by
  induction parts with
  | nil => contradiction
  | cons part parts ih =>
    cases parts with
    | nil => simp
    | cons next parts =>
      rw [List.intercalate_cons_cons, List.append_assoc, ih (by simp)]
      simp

theorem setParts_toList (assignments : List String) :
    (assignments.zipIdx.map fun (a, i) => s!"{a} = ${i + 2}").map String.toList = (items assignments).map printed := by
  rw [items, List.zipIdx_map, List.map_map, List.map_map, List.zipIdx_eq_map_add (i := 2), List.map_map]
  refine List.map_congr_left fun pair _ => ?_
  obtain ⟨a, i⟩ := pair
  simp [printed, Nat.add_comm 2 i, ToString.toString]

theorem bind_ok {α β : Type} {x : Except String α} {f : α → Except String β} {b : β} (returned : (x >>= f) = .ok b) :
    ∃ a, x = .ok a ∧ f a = .ok b := by
  cases x with
  | error => cases returned
  | ok a => exact ⟨a, rfl, returned⟩

theorem fencedUpdate_ok {table idCol sql : String} {assignments : List String} {fenceIdx : Nat}
    (returned : fencedUpdate table idCol assignments = .ok (sql, fenceIdx)) : fenceIdx = assignments.length + 2 ∧
      sql.toList = "UPDATE".toList ++ ' ' :: (table.toList ++ ' ' :: ("SET".toList ++ ' ' ::
        (", ".toList.intercalate ((items assignments).map printed) ++ ", ".toList ++ closing idCol fenceIdx))) := by
  unfold fencedUpdate at returned
  obtain ⟨_, _, returned⟩ := bind_ok returned
  obtain ⟨_, _, returned⟩ := bind_ok returned
  split at returned
  · cases returned
  · cases returned
    refine ⟨rfl, ?_⟩
    rw [← setParts_toList, ← String.toList_intercalate]
    have one : Nat.toDigits 10 1 = ['1'] := by decide
    simp [closing, printed, ToString.toString, one]

def closingTokens (idCol : String) (fenceIdx : Nat) : List Token :=
  [.name "WHERE".toList, .name idCol.toList, .equals, .param 1, .name "AND".toList, .param fenceIdx, .greater,
    .name "last_fence".toList]

theorem lex_closing {idCol : String} (named : lexesAsName idCol.toList = true) (fenceIdx : Nat) :
    lex (closing idCol fenceIdx) = some (tokens ("last_fence".toList, fenceIdx) ++ closingTokens idCol fenceIdx) := by
  have blank : step .between ' ' = some ([], .between) := by decide
  have greater : step .between '>' = some ([.greater], .between) := by decide
  have ends (n : Nat) : step (.param n) ' ' = some ([.param n], .between) := rfl
  have first : lexesAsName "WHERE".toList = true := by decide
  have second : lexesAsName "AND".toList = true := by decide
  rw [closing, lex_printed lastFence_isName.1 (ends _), lex_name first, lex_printed named (ends 1), lex_name second,
    lex_param _ (ends _), lex_symbol greater, lex_symbol blank, lex_last lastFence_isName.1]
  simp [closingTokens, tokens]

/-- The beginning of the statement, up to what is assigned. -/
theorem readUpdate_opening {table : List Char} (named : isName table = true) (rest : List Char) :
    readUpdate ("UPDATE".toList ++ ' ' :: (table ++ ' ' :: ("SET".toList ++ ' ' :: rest))) = (lex rest).bind fun behind =>
      (setList behind).bind fun (assignments, clause) => whereClause table assignments clause := by
  obtain ⟨reads, allows⟩ := Bool.and_eq_true_iff.mp named
  have first : lexesAsName "UPDATE".toList = true := by decide
  have second : lexesAsName "SET".toList = true := by decide
  have keywords : isKeyword "update" "UPDATE".toList = true ∧ isKeyword "set" "SET".toList = true := by decide
  rw [readUpdate, lex_name first, lex_name reads, lex_name second]
  cases lex rest with
  | none => rfl
  | some behind =>
    simp only [Option.map_some, Option.bind_some, parse]
    rw [if_pos ⟨keywords.1, allows, keywords.2⟩]

theorem readUpdate_printed {table idCol : String} {assignments : List String} (fenceIdx : Nat) (some : assignments ≠ [])
    (names : ∀ name ∈ table :: idCol :: assignments, isName name.toList = true) :
    readUpdate ("UPDATE".toList ++ ' ' :: (table.toList ++ ' ' :: ("SET".toList ++ ' ' ::
      (", ".toList.intercalate ((items assignments).map printed) ++ ", ".toList ++ closing idCol fenceIdx)))) =
        Option.some (meant table idCol assignments fenceIdx) := by
  obtain ⟨tabled, keyed, columns⟩ : isName table.toList = true ∧ isName idCol.toList = true ∧
      ∀ name ∈ assignments, isName name.toList = true := by simpa using names
  have each : ∀ item ∈ items assignments, isName item.1 = true := by
    intro item member
    have given : item.1 ∈ assignments.map String.toList := by
      rw [← List.zipIdx_map_fst 2 (assignments.map String.toList)]
      exact List.mem_map_of_mem member
    obtain ⟨name, listed, same⟩ := List.mem_map.mp given
    exact same ▸ columns name listed
  have joined : (items assignments).map printed ≠ [] := by simpa [items] using some
  have reads (item) (member : item ∈ items assignments) : lexesAsName item.1 = true :=
    (Bool.and_eq_true_iff.mp (each item member)).1
  have allows (item) (member : item ∈ items assignments) : allowed item.1 = true :=
    (Bool.and_eq_true_iff.mp (each item member)).2
  obtain ⟨key, allow⟩ := Bool.and_eq_true_iff.mp keyed
  have clauses : isKeyword "where" "WHERE".toList = true ∧ isKeyword "and" "AND".toList = true := by decide
  rw [readUpdate_opening tabled, intercalate_concat joined, List.flatMap_map, lex_assignments reads, lex_closing key]
  simp only [Option.map_some, Option.bind_some]
  rw [setList_tokens allows lastFence_isName.2 (by simp [closingTokens])]
  simp only [Option.bind_some, whereClause, closingTokens]
  rw [if_pos ⟨clauses.1, allow, clauses.2, lastFence_isName.2⟩]
  rfl

/-- The statement is well formed exactly if there is something to assign and the table, the id
column and all assigned columns are names of SQL. -/
theorem fencedUpdate_wellFormed_iff {table idCol sql : String} {assignments : List String} {fenceIdx : Nat}
    (returned : fencedUpdate table idCol assignments = .ok (sql, fenceIdx)) :
    WellFormed table idCol assignments sql fenceIdx ↔
      assignments ≠ [] ∧ ∀ name ∈ table :: idCol :: assignments, isName name.toList = true := by
  obtain ⟨index, text⟩ := fencedUpdate_ok returned
  constructor
  · rintro ⟨_, statement, _⟩
    have named := readUpdate_wellNamed statement
    refine ⟨?_, List.forall_mem_cons.mpr ⟨named.table, List.forall_mem_cons.mpr ⟨named.key, fun name member => ?_⟩⟩⟩
    · rintro rfl
      have comma : step .between ',' = some ([.comma], .between) := by decide
      have tabled : isName table.toList = true := named.table
      rw [text, readUpdate_opening tabled] at statement
      obtain ⟨behind, lexed, listed⟩ := Option.bind_eq_some_iff.mp statement
      have begins : ∃ rest, behind = .comma :: rest := by
        have split : ", ".toList.intercalate ((items []).map printed) ++ ", ".toList ++ closing idCol fenceIdx =
            ',' :: ' ' :: closing idCol fenceIdx := rfl
        rw [split, lex_symbol comma] at lexed
        obtain ⟨rest, _, rfl⟩ := Option.map_eq_some_iff.mp lexed
        exact ⟨rest, rfl⟩
      obtain ⟨rest, rfl⟩ := begins
      cases listed
    · have given : name.toList ∈ (items assignments).map Prod.fst := by
        rw [items, List.zipIdx_map_fst]
        exact List.mem_map_of_mem member
      obtain ⟨item, listed, same⟩ := List.mem_map.mp given
      exact same ▸ named.assignments item (List.mem_append_left _ listed)
  · rintro ⟨some, names⟩
    refine ⟨index, text ▸ readUpdate_printed fenceIdx some names, fun n least most => ?_⟩
    have numbers : (items assignments).map Prod.snd = List.range' 2 assignments.length := by
      rw [items, List.zipIdx_map_snd, List.length_map]
    have listed : (meant table idCol assignments fenceIdx).placeholders =
        List.range' 2 assignments.length ++ [fenceIdx, 1, fenceIdx] := by
      rw [Update.placeholders, meant, List.map_append, ← items, numbers]
      simp
    rw [listed, List.mem_append, List.mem_range'_1]
    simp only [List.mem_cons, List.not_mem_nil, or_false]
    omega

/-- Two columns of a table in a schema. -/
theorem orders_wellFormed : WellFormed "shop.orders" "id" ["status", "amount"]
    "UPDATE shop.orders SET status = $2, amount = $3, last_fence = $4 WHERE id = $1 AND $4 > last_fence" 4 := by
  have returned : fencedUpdate "shop.orders" "id" ["status", "amount"] = .ok
      ("UPDATE shop.orders SET status = $2, amount = $3, last_fence = $4 WHERE id = $1 AND $4 > last_fence", 4) := by
    decide +kernel
  exact (fencedUpdate_wellFormed_iff returned).mpr ⟨by decide, by decide +kernel⟩

/-- A column with another statement in it. -/
theorem injected_column_malformed : ¬ ∀ table idCol assignments sql fenceIdx,
    fencedUpdate table idCol assignments = .ok (sql, fenceIdx) → WellFormed table idCol assignments sql fenceIdx := by
  intro wellFormed
  have returned : fencedUpdate "orders" "id" ["status = 0; DROP TABLE orders; --"] = .ok
      ("UPDATE orders SET status = 0; DROP TABLE orders; -- = $2, last_fence = $3 WHERE id = $1 AND $3 > last_fence", 3) := by
    decide
  have statement := (wellFormed _ _ _ _ _ returned).statement
  revert statement
  decide +kernel

end Palisade.FencePg
