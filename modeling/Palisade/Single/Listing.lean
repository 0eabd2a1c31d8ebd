import Palisade.Names
import Palisade.Redis.Glob
import Palisade.Http.Header

/-! `scan_held`, the listing of held locks under a text (`prefix` in the source). The store
does not change while it runs. `SCAN` takes the text as a pattern and knows nothing of what
its keys are for. -/
namespace Palisade.Single
open Redis Glob Http Names

/-- What the library has stored. A name is used as a lock key or is one next to a lock key;
lock keys have a lease. -/
structure Stored where
  db : Keyspace
  isLock : String → Bool
  leased : ∀ name entry, db name = some entry → isLock name = true → entry.expireAt.isSome = true
  named : ∀ name entry, db name = some entry → isLock name = false →
    ∃ (key : String) (auxiliary : Auxiliary), name = auxiliary.name key

/-- `PTTL`: -2 without the key, -1 without an expiry. -/
def pttl (db : Keyspace) (now : Nat) (name : String) : Int :=
  match db.lookup now name with
  | none => -2
  | some entry =>
    match entry.expireAt with
    | none => -1
    | some instant => instant - now

/-- A batch of `SCAN`, with what becomes of the `PTTL` of each of its keys. -/
abbrev Batch := List (String × Fate)

/-- A key of a batch, if it is listed. A `PTTL` that fails counts as -2. -/
def listed (db : Keyspace) (now : Nat) (name : String) (fate : Fate) : Option (String × Nat) :=
  let ttl := match fate with
    | .executes => pttl db now name
    | .fails _ => -2
  if 0 < ttl then some (name, ttl.toNat) else none

/-- `scan_held`, on the answers to its `SCAN`s up to the one with cursor 0. -/
def scanHeld (db : Keyspace) (now : Nat) : List (Except String Batch) → Except Error (List (String × Nat))
  | [] => .ok []
  | .error message :: _ => .error (.backend s!"scan failed: {message}")
  | .ok batch :: pages => do
    let rest ← scanHeld db now pages
    return (batch.filterMap fun (name, fate) => listed db now name fate) ++ rest

/-- The pattern of `scan_held` matches the name. -/
def matchesUnder (under name : String) : Bool := glob (utf8 (under ++ "*")) (utf8 name)

/-- `name.starts_with(under)` -/
def StartsWith (under name : String) : Prop := utf8 under <+: utf8 name

/-- The batches hold the keys that match, each at least once. -/
def Scans (db : Keyspace) (now : Nat) (under : String) (batches : List Batch) : Prop :=
  ∀ name, (∃ fate, (name, fate) ∈ batches.flatten) ↔
    (db.lookup now name).isSome = true ∧ matchesUnder under name = true

/-- The expiry of the key was answered. -/
def Answered (batches : List Batch) (name : String) : Prop := (name, Fate.executes) ∈ batches.flatten

namespace Stored

def Held (s : Stored) (now : Nat) (name : String) : Prop :=
  s.isLock name = true ∧ (s.db.lookup now name).isSome = true

/-- No key next to a lock key that has an expiry is listed; and a held lock matches the
pattern and has its expiry answered exactly if it starts with the text. -/
structure Listable (s : Stored) (now : Nat) (under : String) (batches : List Batch) : Prop where
  auxiliary : ∀ name entry, s.isLock name = false → s.db.lookup now name = some entry →
    entry.expireAt.isSome = true → matchesUnder under name = true → ¬ Answered batches name
  locks : ∀ name, s.Held now name →
    (matchesUnder under name = true ∧ Answered batches name ↔ StartsWith under name)

end Stored

section
variable {db : Keyspace} {now : Nat} {under name : String} {batches : List Batch}

theorem pttl_pos : 0 < pttl db now name ↔
    ∃ entry, db.lookup now name = some entry ∧ entry.expireAt.isSome = true := by
  unfold pttl
  cases found : db.lookup now name with
  | none => simp
  | some entry =>
    have live := (Keyspace.lookup_eq_some.mp found).2
    obtain ⟨value, stop⟩ := entry
    cases stop with
    | none => simp
    | some instant =>
      simp only [Entry.expired_some, decide_eq_false_iff_not] at live
      simp
      omega

theorem listed_iff {fate : Fate} {entry : String × Nat} : listed db now name fate = some entry ↔
    fate = .executes ∧ 0 < pttl db now name ∧ entry = (name, (pttl db now name).toNat) := by
  cases fate with
  | executes =>
    simp only [listed]
    split
    · next positive => simp [positive, eq_comm]
    · next absent => simp [absent]
  | fails message => simp [listed]

theorem scanHeld_ok (batches : List Batch) : scanHeld db now (batches.map .ok) =
    .ok (batches.flatten.filterMap fun (name, fate) => listed db now name fate) := by
  induction batches with
  | nil => rfl
  | cons batch batches ih =>
    rw [List.map_cons, scanHeld, ih, List.flatten_cons, List.filterMap_append]
    rfl

/-- What is listed has been scanned, has an expiry and had it answered. -/
theorem mem_listing : name ∈ (batches.flatten.filterMap fun (name, fate) => listed db now name fate).map Prod.fst ↔
    Answered batches name ∧ ∃ entry, db.lookup now name = some entry ∧ entry.expireAt.isSome = true := by
  rw [← pttl_pos]
  constructor
  · intro member
    obtain ⟨entry, kept, rfl⟩ := List.mem_map.mp member
    obtain ⟨⟨name, fate⟩, scanned, kept⟩ := List.mem_filterMap.mp kept
    obtain ⟨rfl, positive, rfl⟩ := listed_iff.mp kept
    exact ⟨scanned, positive⟩
  · rintro ⟨answered, positive⟩
    refine List.mem_map.mpr ⟨(name, (pttl db now name).toNat), ?_, rfl⟩
    exact List.mem_filterMap.mpr ⟨_, answered, listed_iff.mpr ⟨rfl, positive, rfl⟩⟩

theorem mem_scanned {s : Stored} (scanned : Scans s.db now under batches) (answered : Answered batches name) :
    (s.db.lookup now name).isSome = true ∧ matchesUnder under name = true :=
  (scanned name).mp ⟨.executes, answered⟩

namespace Stored
variable {s : Stored}

theorem Held.leased (held : s.Held now name) :
    ∃ entry, s.db.lookup now name = some entry ∧ entry.expireAt.isSome = true := by
  obtain ⟨entry, found⟩ := Option.isSome_iff_exists.mp held.2
  exact ⟨entry, found, s.leased name entry (Keyspace.lookup_eq_some.mp found).1 held.1⟩

/-- The keys that are listed are the held locks that start with the text exactly if the
pattern tells these from all that has an expiry. -/
theorem exact_iff_listable (scanned : Scans s.db now under batches) :
    (∀ name, (Answered batches name ∧ ∃ entry, s.db.lookup now name = some entry ∧ entry.expireAt.isSome = true) ↔
      s.Held now name ∧ StartsWith under name) ↔ s.Listable now under batches := by
  constructor
  · intro lists
    refine ⟨fun name entry other found mortal _ answered => ?_, fun name held => ?_⟩
    · have held := ((lists name).mp ⟨answered, entry, found, mortal⟩).1
      rw [held.1] at other
      cases other
    · constructor
      · rintro ⟨_, answered⟩
        exact ((lists name).mp ⟨answered, held.leased⟩).2
      · intro starts
        have answered := ((lists name).mpr ⟨held, starts⟩).1
        exact ⟨(mem_scanned scanned answered).2, answered⟩
  · intro listable name
    constructor
    · rintro ⟨answered, entry, found, mortal⟩
      obtain ⟨_, matching⟩ := mem_scanned scanned answered
      cases role : s.isLock name with
      | false => exact absurd answered (listable.auxiliary name entry role found mortal matching)
      | true =>
        have held : s.Held now name := ⟨role, found ▸ rfl⟩
        exact ⟨held, (listable.locks name held).mp ⟨matching, answered⟩⟩
    · rintro ⟨held, starts⟩
      exact ⟨((listable.locks name held).mpr starts).2, held.leased⟩

end Stored

end

/-- `scan_held` lists exactly the held locks that start with the text where the pattern tells
them from the other keys that have an expiry. -/
theorem scanHeld_exact_iff (s : Stored) {now : Nat} {under : String} {batches : List Batch}
    (scanned : Scans s.db now under batches) :
    ∃ listing, scanHeld s.db now (batches.map .ok) = .ok listing ∧
      ((∀ name, name ∈ listing.map Prod.fst ↔ s.Held now name ∧ StartsWith under name) ↔
        s.Listable now under batches) := by
  refine ⟨_, scanHeld_ok batches, ?_⟩
  rw [← Stored.exact_iff_listable scanned]
  exact forall_congr' fun name => iff_congr mem_listing Iff.rfl

/-- Without `*`, `?`, brackets and `\` the pattern asks for names that start with the text. -/
theorem matchesUnder_plain {under : String} (plain : ∀ byte ∈ utf8 under, Plain byte) (name : String) :
    matchesUnder under name = true ↔ StartsWith under name := by
  have star : utf8 (under ++ "*") = utf8 under ++ [42] := by
    rw [utf8, utf8, String.toList_append, List.flatMap_append]
    rfl
  rw [matchesUnder, star, glob_plain plain, StartsWith]

/-- For such a text only the keys next to locks are in the way. -/
theorem Stored.listable_plain_iff {s : Stored} {now : Nat} {under : String} {batches : List Batch}
    (plain : ∀ byte ∈ utf8 under, Plain byte) : s.Listable now under batches ↔
      (∀ name entry, s.isLock name = false → s.db.lookup now name = some entry →
        entry.expireAt.isSome = true → StartsWith under name → ¬ Answered batches name) ∧
      ∀ name, s.Held now name → StartsWith under name → Answered batches name := by
  constructor
  · rintro ⟨auxiliary, locks⟩
    refine ⟨fun name entry other found mortal starts => ?_, fun name held starts => ?_⟩
    · exact auxiliary name entry other found mortal ((matchesUnder_plain plain name).mpr starts)
    · exact ((locks name held).mpr starts).2
  · rintro ⟨auxiliary, locks⟩
    refine ⟨fun name entry other found mortal matching => ?_, fun name held => ?_⟩
    · exact auxiliary name entry other found mortal ((matchesUnder_plain plain name).mp matching)
    · rw [matchesUnder_plain plain name]
      exact and_iff_left_of_imp (locks name held)

/-- A lock and its fence counter. -/
def Stored.building : Stored where
  db name :=
    if name = "ci/build" then some ⟨.string (.raw "token"), some 30000⟩
    else if name = fenceKeyFor "ci/build" then some ⟨.string (.int 1), some 300000⟩
    else none
  isLock name := name = "ci/build"
  leased name entry stored role := by
    rw [if_pos (of_decide_eq_true role)] at stored
    cases stored
    rfl
  named name entry stored role := by
    rw [if_neg (of_decide_eq_false role)] at stored
    obtain ⟨counter, _⟩ := Option.ite_none_right_eq_some.mp stored
    exact ⟨"ci/build", .fence, counter⟩

/-- What a scan of that store finds. -/
theorem Stored.building_scans {under : String} {batches : List Batch}
    (names : ∀ name, (∃ fate, (name, fate) ∈ batches.flatten) ↔
      (name = "ci/build" ∨ name = fenceKeyFor "ci/build") ∧ matchesUnder under name = true) :
    Scans Stored.building.db 0 under batches := by
  intro name
  rw [names, and_congr_left_iff]
  intro _
  by_cases lock : name = "ci/build"
  · subst lock
    simp [building, Keyspace.lookup]
  · by_cases counter : name = fenceKeyFor "ci/build"
    · simp [building, Keyspace.lookup, counter, fenceKeyFor_ne]
    · simp [building, Keyspace.lookup, lock, counter]

/-- The counter does not start with the text: its name begins with a brace. -/
theorem counter_unlisted : ∃ listing, scanHeld Stored.building.db 0 [.ok [("ci/build", .executes)]] = .ok listing ∧
    ∀ name, name ∈ listing.map Prod.fst ↔ Stored.building.Held 0 name ∧ StartsWith "ci/" name := by
  have scanned : Scans Stored.building.db 0 "ci/" [[("ci/build", .executes)]] := by
    refine Stored.building_scans fun name => ?_
    simp only [List.flatten_singleton, List.mem_singleton, Prod.mk.injEq, exists_and_left, exists_eq, and_true]
    constructor
    · rintro rfl
      exact ⟨.inl rfl, by decide⟩
    · rintro ⟨rfl | rfl, matching⟩
      · rfl
      · revert matching
        decide
  obtain ⟨listing, listed, lists⟩ := scanHeld_exact_iff Stored.building scanned
  have bytes : utf8 "ci/" = [99, 105, 47] := by decide
  have plain : ∀ byte ∈ utf8 "ci/", Plain byte := by
    rw [bytes]
    simp [Plain]
  refine ⟨listing, listed, lists.mpr ((Stored.listable_plain_iff plain).mpr ⟨?_, ?_⟩)⟩
  · intro name entry other found mortal starts answered
    obtain rfl := (Prod.mk.inj (List.mem_singleton.mp answered)).1
    cases other
  · intro name held starts
    obtain rfl : name = "ci/build" := of_decide_eq_true held.1
    exact List.mem_singleton_self _

/-- With no text the counter is listed as a lock. -/
theorem counter_listed : ¬ ∀ (s : Stored) now under batches, Scans s.db now under batches →
    ∃ listing, scanHeld s.db now (batches.map .ok) = .ok listing ∧
      ∀ name, name ∈ listing.map Prod.fst ↔ s.Held now name ∧ StartsWith under name := by
  intro precise
  have scanned : Scans Stored.building.db 0 "" [[("ci/build", .executes), (fenceKeyFor "ci/build", .executes)]] := by
    refine Stored.building_scans fun name => ?_
    have all : matchesUnder "" name = true := (matchesUnder_plain (by simp [utf8]) name).mpr List.nil_prefix
    simp [all, exists_or]
  obtain ⟨listing, listed, lists⟩ := precise Stored.building 0 "" _ scanned
  rw [scanHeld_ok] at listed
  cases listed
  have counter : Stored.building.Held 0 (fenceKeyFor "ci/build") ∧ StartsWith "" (fenceKeyFor "ci/build") := by
    refine (lists _).mp (mem_listing.mpr ⟨by simp [Answered], _, rfl, rfl⟩)
  have role := counter.1.1
  revert role
  decide

end Palisade.Single
