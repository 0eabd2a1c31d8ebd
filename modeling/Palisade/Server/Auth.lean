import Mathlib.Data.List.AList
import Palisade.Http.Header
import Palisade.Server.Wire

/-! Who the caller of a request is. An access list is read from a JSON document, whose
parser is a parameter; its principals are found by bearer token, or by a name that a
gateway vouches for. -/
namespace Palisade.Server
open Http

structure PrincipalConfig where
  name : String
  token : String
  /-- "" for all keys. -/
  keyPrefixes : List String
  canLock : Bool
  canUnlock : Bool
  canExtend : Bool
  canWatch : Bool
  canAdmin : Bool
  /-- 0 for no limit. -/
  maxKeys : UInt32
  /-- 0 for no limit. -/
  maxWatchers : UInt32
  deriving DecidableEq

/-- An entry of the document; what is left out has a default. -/
structure PrincipalDoc where
  name : String
  token : String
  keyPrefixes : List String
  canLock : Option Bool := none
  canUnlock : Option Bool := none
  canExtend : Option Bool := none
  canWatch : Option Bool := none
  canAdmin : Option Bool := none
  maxKeys : Option UInt32 := none
  maxWatchers : Option UInt32 := none
  deriving DecidableEq

def PrincipalDoc.config (doc : PrincipalDoc) : PrincipalConfig where
  name := doc.name
  token := doc.token
  keyPrefixes := doc.keyPrefixes
  canLock := doc.canLock.getD true
  canUnlock := doc.canUnlock.getD true
  canExtend := doc.canExtend.getD true
  canWatch := doc.canWatch.getD true
  canAdmin := doc.canAdmin.getD false
  maxKeys := doc.maxKeys.getD 0
  maxWatchers := doc.maxWatchers.getD 0

inductive AuthMode where
  /-- Bearer tokens of the access list. -/
  | file
  /-- A gateway has authenticated the caller and forwards its name. -/
  | trustedHeader
  deriving DecidableEq

/-- No code changes `heldKeys`; the number of watchers is kept with the service. -/
structure Principal where
  name : String
  cfg : PrincipalConfig
  heldKeys : Nat
  deriving DecidableEq

def makePrincipal (cfg : PrincipalConfig) : Principal := ⟨cfg.name, cfg, 0⟩

namespace Principal

/-- The key is under one of the principal's prefixes, and the action is allowed. -/
def may (principal : Principal) (key : String) (allowed : Bool) : Except Status Unit :=
  if principal.cfg.keyPrefixes.any fun start => start.toList.isPrefixOf key.toList then
    if allowed then .ok ()
    else .error ⟨.permissionDenied, s!"principal `{principal.name}` lacks permission for `{key}`"⟩
  else .error ⟨.permissionDenied,
    s!"principal `{principal.name}` may not touch keys outside its prefixes (`{key}`)"⟩

def checkLock (principal : Principal) (key : String) : Except Status Unit := do
  principal.may key principal.cfg.canLock
  let max := principal.cfg.maxKeys.toNat
  if 0 < max ∧ max ≤ principal.heldKeys then
    .error ⟨.resourceExhausted, s!"principal `{principal.name}` hit max_keys={max}"⟩

def checkUnlock (principal : Principal) (key : String) : Except Status Unit :=
  principal.may key principal.cfg.canUnlock

def checkExtend (principal : Principal) (key : String) : Except Status Unit :=
  principal.may key principal.cfg.canExtend

/-- `watchers` are those the principal has already. -/
def checkWatch (principal : Principal) (watchers : Nat) (key : String) : Except Status Unit := do
  principal.may key principal.cfg.canWatch
  let max := principal.cfg.maxWatchers.toNat
  if 0 < max ∧ max ≤ watchers then
    .error ⟨.resourceExhausted, s!"principal `{principal.name}` hit max_watchers={max}"⟩

def checkAdmin (principal : Principal) (key : String) : Except Status Unit :=
  principal.may key principal.cfg.canAdmin

end Principal

structure Acl where
  isOpen : Bool
  byToken : AList fun _ : String => Principal
  mode : AuthMode

namespace Acl

def opened : Acl := ⟨true, ∅, .file⟩

def withMode (acl : Acl) (mode : AuthMode) : Acl := { acl with mode }

/-- The loop of `from_json`. -/
def load : List PrincipalConfig → (AList fun _ : String => Principal) →
    Except Error (AList fun _ : String => Principal)
  | [], table => .ok table
  | cfg :: rest, table =>
    if cfg.token = "" then .error (.invalidConfig s!"principal `{cfg.name}` has empty token")
    else load rest (table.insert cfg.token (makePrincipal cfg))

def fromJson (parse : String → Except String (List PrincipalDoc)) (json : String) : Except Error Acl :=
  match parse json with
  | .error message => .error (.invalidConfig s!"bad acl json: {message}")
  | .ok docs => (load (docs.map PrincipalDoc.config) ∅).map fun table => ⟨false, table, .file⟩

/-- The first principal of that name, in the order of the table, which may be any. -/
def byName (acl : Acl) (name : String) : Option Principal :=
  (acl.byToken.entries.map Sigma.snd).find? fun principal => principal.name = name

/-- The only principal of the open mode. -/
def anonymous : PrincipalConfig := ⟨"anonymous", "", [""], true, true, true, true, true, 0, 0⟩

/-- `strip_prefix("Bearer ")` -/
def bearerToken (header : String) : Option String :=
  ("Bearer ".toList.isPrefixOf? header.toList).map String.ofList

def resolveWithHeader (acl : Acl) (bearer principalHdr : Option String) : Except Status Principal :=
  if acl.mode = .trustedHeader then
    match principalHdr with
    | none => .error ⟨.unauthenticated, "missing x-palisade-principal header"⟩
    | some name => match acl.byName name with
      | none => .error ⟨.unauthenticated, "unknown principal"⟩
      | some principal => .ok principal
  else if acl.isOpen then .ok (makePrincipal anonymous)
  else match bearer.bind bearerToken with
    | none => .error ⟨.unauthenticated, "missing authorization: Bearer <token>"⟩
    | some token => match acl.byToken.lookup token with
      | none => .error ⟨.unauthenticated, "unknown bearer token"⟩
      | some principal => .ok principal

def resolve (acl : Acl) (bearer : Option String) : Except Status Principal :=
  acl.resolveWithHeader bearer none

end Acl

/-- The headers of a request that name its caller. -/
structure Metadata where
  authorization : Option HeaderValue
  /-- `x-palisade-principal` -/
  principal : Option HeaderValue
  deriving DecidableEq

/-- `PalisadeService::principal` -/
def Acl.principal (acl : Acl) (metadata : Metadata) : Except Status Principal :=
  acl.resolve (metadata.authorization.bind HeaderValue.toStr)

namespace Acl
variable {acl : Acl} {metadata : Metadata} {token : String}

/-- The request says `authorization: Bearer <token>`. -/
def Bears (metadata : Metadata) (token : String) : Prop :=
  ∃ value, metadata.authorization = some value ∧ value.bytes = utf8 ("Bearer " ++ token)

theorem bearerToken_eq_some {header : String} : bearerToken header = some token ↔ header = "Bearer " ++ token := by
  simp only [bearerToken, Option.map_eq_some_iff, List.isPrefixOf?_eq_some_iff_append_eq]
  constructor
  · rintro ⟨rest, split, rfl⟩
    apply String.toList_inj.mp
    simp [← split]
  · rintro rfl
    exact ⟨token.toList, by simp, String.ofList_toList⟩

theorem visible_bearer : Visible ("Bearer " ++ token) ↔ Visible token := by
  have word : ∀ letter ∈ "Bearer ".toList, visibleCode letter.toNat = true := List.all_eq_true.mp rfl
  simp only [Visible, String.toList_append, List.mem_append]
  exact ⟨fun visible letter member => visible letter (.inr member),
    fun visible letter member => member.elim (word letter) (visible letter)⟩

/-- The token that is read from the headers is the one they say, if it is visible. -/
theorem bearer_eq_some : (metadata.authorization.bind HeaderValue.toStr).bind bearerToken = some token ↔
    Bears metadata token ∧ Visible token := by
  simp only [Option.bind_eq_some_iff, bearerToken_eq_some, HeaderValue.toStr_eq_some]
  constructor
  · rintro ⟨header, ⟨value, found, bytes, visible⟩, rfl⟩
    exact ⟨⟨value, found, bytes⟩, visible_bearer.mp visible⟩
  · rintro ⟨⟨value, found, bytes⟩, visible⟩
    exact ⟨_, ⟨value, found, bytes, visible_bearer.mpr visible⟩, rfl⟩

/-- A request bears one token at most that can be read. -/
theorem Bears.unique {other : String} (bears : Bears metadata token) (also : Bears metadata other)
    (visible : Visible token) : other = token := by
  obtain ⟨value, found, bytes⟩ := bears
  obtain ⟨_, again, same⟩ := also
  obtain rfl := Option.some.inj (found.symm.trans again)
  have legible : Visible ("Bearer " ++ other) := by
    rw [← visible_utf8, ← same, bytes, visible_utf8]
    exact visible_bearer.mpr visible
  have first := bearer_eq_some.mpr ⟨⟨value, found, bytes⟩, visible⟩
  have second := bearer_eq_some.mpr ⟨⟨value, found, same⟩, visible_bearer.mp legible⟩
  exact Option.some.inj (second.symm.trans first)

/-- In the file mode a principal is found under the token it was stored with. -/
theorem principal_eq_ok {principal : Principal} (file : acl.mode = .file) (closed : acl.isOpen = false) :
    acl.principal metadata = .ok principal ↔
      ∃ token, Bears metadata token ∧ Visible token ∧ acl.byToken.lookup token = some principal := by
  have reads : (∃ token, Bears metadata token ∧ Visible token ∧ acl.byToken.lookup token = some principal) ↔
      ((metadata.authorization.bind HeaderValue.toStr).bind bearerToken).bind acl.byToken.lookup = some principal := by
    rw [Option.bind_eq_some_iff]
    simp only [bearer_eq_some, and_assoc]
  rw [reads]
  simp only [Acl.principal, resolve, resolveWithHeader, file, closed, if_false, reduceCtorEq, Bool.false_eq_true]
  cases (metadata.authorization.bind HeaderValue.toStr).bind bearerToken with
  | none => simp
  | some token =>
    simp only [Option.bind_some]
    cases acl.byToken.lookup token with
    | none => simp
    | some found => simp

/-- Nobody is turned away for another reason. -/
theorem principal_cases (acl : Acl) (metadata : Metadata) : (∃ principal, acl.principal metadata = .ok principal) ∨
    ∃ message, acl.principal metadata = .error ⟨.unauthenticated, message⟩ := by
  unfold Acl.principal resolve resolveWithHeader
  split
  · exact .inr ⟨_, rfl⟩
  split
  · exact .inl ⟨_, rfl⟩
  split
  · exact .inr ⟨_, rfl⟩
  · split
    · exact .inr ⟨_, rfl⟩
    · exact .inl ⟨_, rfl⟩

/-- Whoever bears no token of the list is unknown to it. -/
theorem principal_unknown (file : acl.mode = .file) (closed : acl.isOpen = false)
    (unknown : ∀ token, Bears metadata token → acl.byToken.lookup token = none) :
    ∃ message, acl.principal metadata = .error ⟨.unauthenticated, message⟩ := by
  refine (principal_cases acl metadata).resolve_left ?_
  rintro ⟨principal, resolved⟩
  obtain ⟨token, bears, _, found⟩ := (principal_eq_ok file closed).mp resolved
  cases (unknown token bears).symm.trans found

end Acl

/-! What `from_json` makes of the entries of a document. -/

/-- The entry that has the token in the end: of several, the last one. -/
def lastEntry (entries : List PrincipalConfig) (token : String) : Option PrincipalConfig :=
  entries.reverse.find? fun cfg => cfg.token = token

theorem Acl.lookup_load {entries : List PrincipalConfig} {table after : AList fun _ : String => Principal}
    (loaded : load entries table = .ok after) (token : String) :
    after.lookup token = ((lastEntry entries token).map makePrincipal).or (table.lookup token) := by
  induction entries generalizing table with
  | nil =>
    cases loaded
    rfl
  | cons cfg rest ih =>
    rw [load] at loaded
    split at loaded
    · cases loaded
    rw [ih loaded]
    simp only [lastEntry, List.reverse_cons, List.find?_append]
    cases rest.reverse.find? fun cfg => cfg.token = token with
    | some later => rfl
    | none =>
      by_cases same : cfg.token = token
      · subst same
        simp [AList.lookup_insert]
      · simp [same, AList.lookup_insert_ne (Ne.symm same)]

/-- The request presents the credential of the entry. -/
def Presents (metadata : Metadata) (cfg : PrincipalConfig) : AuthMode → Prop
  | .file => Acl.Bears metadata cfg.token
  | .trustedHeader => ∃ value, metadata.principal = some value ∧ value.bytes = utf8 cfg.name

/-- Whoever presents the credential of an entry is resolved to exactly that entry under the
stated condition, and whoever presents none is rejected. The name that a gateway vouches for
is never read. -/
theorem principal_faithful_iff {parse : String → Except String (List PrincipalDoc)} {json : String}
    {docs : List PrincipalDoc} {acl : Acl} (parsed : parse json = .ok docs)
    (accepted : Acl.fromJson parse json = .ok acl) (mode : AuthMode) :
    (∀ doc ∈ docs, ∀ metadata, Presents metadata doc.config mode →
      ((acl.withMode mode).principal metadata = .ok (makePrincipal doc.config) ↔
        mode = .file ∧ Visible doc.token ∧ lastEntry (docs.map PrincipalDoc.config) doc.token = some doc.config)) ∧
    ∀ metadata, (∀ doc ∈ docs, ¬ Presents metadata doc.config mode) →
      ∃ message, (acl.withMode mode).principal metadata = .error ⟨.unauthenticated, message⟩ := by
  simp only [Acl.fromJson, parsed] at accepted
  obtain ⟨table, loaded, rfl⟩ : ∃ table, Acl.load (docs.map PrincipalDoc.config) ∅ = .ok table ∧
      (⟨false, table, .file⟩ : Acl) = acl := by
    cases ran : Acl.load (docs.map PrincipalDoc.config) ∅ with
    | error error =>
      rw [ran] at accepted
      cases accepted
    | ok table =>
      rw [ran] at accepted
      exact ⟨table, rfl, Except.ok.inj accepted⟩
  have stored (token : String) (principal : Principal) : table.lookup token = some principal ↔
      ∃ cfg, lastEntry (docs.map PrincipalDoc.config) token = some cfg ∧ makePrincipal cfg = principal := by
    rw [Acl.lookup_load loaded, AList.lookup_empty, Option.or_none, Option.map_eq_some_iff]
  cases mode with
  | trustedHeader =>
    refine ⟨fun doc member metadata presents => ?_, fun metadata _ => ⟨_, rfl⟩⟩
    simp [Acl.principal, Acl.resolve, Acl.resolveWithHeader, Acl.withMode]
  | file =>
    refine ⟨fun doc member metadata presents => ?_, fun metadata absent => ?_⟩
    · rw [Acl.principal_eq_ok rfl rfl]
      constructor
      · rintro ⟨token, bears, visible, found⟩
        obtain rfl := bears.unique presents visible
        obtain ⟨cfg, last, same⟩ := (stored _ _).mp found
        cases congrArg Principal.cfg same
        exact ⟨rfl, visible, last⟩
      · rintro ⟨_, visible, last⟩
        exact ⟨doc.token, presents, visible, (stored _ _).mpr ⟨doc.config, last, rfl⟩⟩
    · refine Acl.principal_unknown rfl rfl fun token bears => ?_
      cases found : table.lookup token with
      | none => exact found
      | some principal =>
        obtain ⟨cfg, last, _⟩ := (stored _ _).mp found
        obtain ⟨doc, member, rfl⟩ := List.mem_map.mp (List.mem_reverse.mp (List.mem_of_find?_eq_some last))
        obtain rfl : doc.config.token = token := by simpa using List.find?_some last
        exact absurd bears (absent doc member)

/-- A document with one principal, `ci`. -/
def ciJson : String :=
  "\x7b\"principals\":[\x7b\"name\":\"ci\",\"token\":\"s3cret\",\"key_prefixes\":[\"ci/\"],\"max_keys\":50\x7d]\x7d"

def ci : PrincipalDoc where
  name := "ci"
  token := "s3cret"
  keyPrefixes := ["ci/"]
  maxKeys := some 50

/-- The same with a second principal of the same token, an administrator. -/
def sharedJson : String :=
  "\x7b\"principals\":[\x7b\"name\":\"ci\",\"token\":\"s3cret\",\"key_prefixes\":[\"ci/\"],\"max_keys\":50\x7d," ++
  "\x7b\"name\":\"ops\",\"token\":\"s3cret\",\"key_prefixes\":[\"\"],\"can_admin\":true\x7d]\x7d"

def ops : PrincipalDoc where
  name := "ops"
  token := "s3cret"
  keyPrefixes := [""]
  canAdmin := some true

/-- What the parser makes of a document, as far as it is known. -/
def parsing (text : String) (docs : List PrincipalDoc) (json : String) : Except String (List PrincipalDoc) :=
  if json = text then .ok docs else .error "expected value at line 1 column 1"

theorem parsing_self (text : String) (docs : List PrincipalDoc) : parsing text docs text = .ok docs := if_pos rfl

theorem fromJson_parsing {text : String} {docs : List PrincipalDoc} {table : AList fun _ : String => Principal}
    (loaded : Acl.load (docs.map PrincipalDoc.config) ∅ = .ok table) :
    Acl.fromJson (parsing text docs) text = .ok ⟨false, table, .file⟩ := by
  simp only [Acl.fromJson, parsing_self, loaded]
  rfl

/-- A request with the token `s3cret`, or with the name `ci` from the gateway. -/
def bearerRequest : Metadata := ⟨some ⟨utf8 "Bearer s3cret", by decide⟩, none⟩

def gatewayRequest : Metadata := ⟨none, some ⟨utf8 "ci", by decide⟩⟩

theorem principal_faithful_ci : ∃ acl, Acl.fromJson (parsing ciJson [ci]) ciJson = .ok acl ∧
    (acl.withMode .file).principal bearerRequest = .ok (makePrincipal ci.config) := by
  have accepted : Acl.fromJson (parsing ciJson [ci]) ciJson = .ok _ := fromJson_parsing rfl
  have faithful := principal_faithful_iff (parsing_self ciJson [ci]) accepted .file
  exact ⟨_, accepted, (faithful.1 ci List.mem_cons_self bearerRequest ⟨_, rfl, rfl⟩).mpr
    ⟨rfl, List.all_eq_true.mp rfl, rfl⟩⟩

/-- The gateway's `ci` is nobody, and the token of `ci` in the second document is that of an
administrator. -/
theorem principal_confused :
    (¬ ∀ (parse : String → Except String (List PrincipalDoc)) (json : String) (docs : List PrincipalDoc) (acl : Acl)
      (mode : AuthMode), parse json = .ok docs → Acl.fromJson parse json = .ok acl →
      ∀ doc ∈ docs, ∀ metadata, Presents metadata doc.config mode →
        (acl.withMode mode).principal metadata = .ok (makePrincipal doc.config)) ∧
    ∃ acl, Acl.fromJson (parsing sharedJson [ci, ops]) sharedJson = .ok acl ∧
      Presents bearerRequest ci.config .file ∧
      (acl.withMode .file).principal bearerRequest = .ok (makePrincipal ops.config) := by
  refine ⟨fun faithful => ?_, _, fromJson_parsing rfl, ⟨_, rfl, rfl⟩, by decide⟩
  have resolved := faithful _ ciJson [ci] _ .trustedHeader (parsing_self ciJson [ci]) (fromJson_parsing rfl) ci
    List.mem_cons_self gatewayRequest ⟨_, rfl, rfl⟩
  cases resolved

end Palisade.Server
