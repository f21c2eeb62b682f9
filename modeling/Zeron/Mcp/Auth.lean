import Mathlib.Data.List.Chain
import Mathlib.Data.Set.Function
import Zeron.Data.Text

/-!
# Bearer credentials

The registry keeps a record for each credential, under the digest of its token.  A credential
lapses when it is not used for the liveness window.  This is not stored: the operations that look
at the clock drop the records that have lapsed, except `advance_session`, which uses a record
without looking at its age.
-/

namespace Zeron.Mcp

open Data

/-! ## The registry -/

/-- `InvocationScope`; the fields that the registry only carries are in `authority`. -/
structure InvocationScope (ρ : Type) where
  threadId : String
  sessionId : String
  issuedAt : Nat
  authority : ρ
  deriving DecidableEq

structure Record (ρ : Type) where
  scope : InvocationScope ρ
  lastAliveAt : Nat
  deriving DecidableEq

/-- The records by the digests of their tokens. -/
structure CredentialRegistry (δ ρ : Type) where
  records : δ → Option (Record ρ)
  windowMs : Nat

structure IssuedCredential where
  authorization : String
  sessionId : String
  deriving DecidableEq

/-- The token of an `Authorization` header. -/
def bearer (authorization : String) : Option String :=
  if "Bearer ".toList.isPrefixOf authorization.toList then
    let token := String.ofList (trim (authorization.toList.drop 7))
    if token = "" then none else some token
  else none

namespace CredentialRegistry

variable {δ ρ : Type} [DecidableEq δ] (digest : String → δ) (registry : CredentialRegistry δ ρ)

def retain (keep : Record ρ → Bool) : CredentialRegistry δ ρ :=
  { registry with records := fun key => (registry.records key).filter keep }

/-- `values_mut`. -/
def update (change : Record ρ → Record ρ) : CredentialRegistry δ ρ :=
  { registry with records := fun key => (registry.records key).map change }

def live (timestamp : Nat) (record : Record ρ) : Bool :=
  decide (timestamp - record.lastAliveAt ≤ registry.windowMs)

/-- `issue`, with the bytes of `getrandom` as `URL_SAFE_NO_PAD.encode` writes them, and the new
session id. -/
def issue (random : Option String) (sessionId : String) (timestamp : Nat)
    (scope : InvocationScope ρ) : CredentialRegistry δ ρ × Option IssuedCredential :=
  match random with
  | none => (registry, none)
  | some token =>
      let scope := { scope with sessionId, issuedAt := timestamp }
      let retained := registry.retain (registry.live timestamp)
      ({ retained with
          records := fun key =>
            if key = digest token then some { scope, lastAliveAt := timestamp }
            else retained.records key },
        some { authorization := "Bearer " ++ token, sessionId })

def resolve (authorization : String) (timestamp : Nat) :
    CredentialRegistry δ ρ × Option (InvocationScope ρ) :=
  match bearer authorization with
  | none => (registry, none)
  | some token =>
      let hash := digest token
      let retained := registry.retain (registry.live timestamp)
      match retained.records hash with
      | none => (retained, none)
      | some record =>
          ({ retained with
              records := fun key =>
                if key = hash then some { record with lastAliveAt := timestamp }
                else retained.records key },
            some record.scope)

def touch (thread : String) (timestamp : Nat) : CredentialRegistry δ ρ :=
  (registry.retain (registry.live timestamp)).update fun record =>
    if record.scope.threadId = thread then { record with lastAliveAt := timestamp } else record

def advanceSession (scope : InvocationScope ρ) (timestamp : Nat) : CredentialRegistry δ ρ :=
  registry.update fun record =>
    if record.scope.threadId = scope.threadId ∧ record.scope.sessionId = scope.sessionId then {
      scope := { scope with
        sessionId := record.scope.sessionId
        issuedAt := record.scope.issuedAt }
      lastAliveAt := timestamp }
    else record

def revokeSession (id : String) : CredentialRegistry δ ρ :=
  registry.retain fun record => decide (record.scope.sessionId ≠ id)

def revokeThread (id : String) : CredentialRegistry δ ρ :=
  registry.retain fun record => decide (record.scope.threadId ≠ id)

def revokeAll : CredentialRegistry δ ρ :=
  { registry with records := fun _ => none }

end CredentialRegistry

/-! ## Runs -/

inductive Op (ρ : Type) where
  | issue (random : Option String) (sessionId : String) (scope : InvocationScope ρ)
  | resolve (authorization : String)
  | touch (thread : String)
  | advanceSession (scope : InvocationScope ρ)
  | revokeSession (id : String)
  | revokeThread (id : String)
  | revokeAll

/-- An operation and the clock at it. -/
structure Event (ρ : Type) where
  at_time : Nat
  op : Op ρ

section Runs

variable {δ ρ : Type} [DecidableEq δ] (digest : String → δ)

def CredentialRegistry.step (registry : CredentialRegistry δ ρ) (event : Event ρ) :
    CredentialRegistry δ ρ :=
  match event.op with
  | .issue random sessionId scope =>
      (registry.issue digest random sessionId event.at_time scope).1
  | .resolve authorization => (registry.resolve digest authorization event.at_time).1
  | .touch thread => registry.touch thread event.at_time
  | .advanceSession scope => registry.advanceSession scope event.at_time
  | .revokeSession id => registry.revokeSession id
  | .revokeThread id => registry.revokeThread id
  | .revokeAll => registry.revokeAll

/-- The registry after some events. -/
def registryAfter (windowMs : Nat) (run : List (Event ρ)) : CredentialRegistry δ ρ :=
  run.foldl (CredentialRegistry.step digest) { records := fun _ => none, windowMs }

end Runs

/-! ## One credential -/

/-- What a credential was issued with. -/
structure Issued (ρ : Type) where
  at_time : Nat
  token : String
  scope : InvocationScope ρ

variable {δ ρ : Type} [DecidableEq δ]

/-- The credential that an event issues. -/
def Event.issued (event : Event ρ) : Option (Issued ρ) :=
  match event.op with
  | .issue (some token) sessionId scope => some {
      at_time := event.at_time
      token
      scope := { scope with sessionId, issuedAt := event.at_time } }
  | _ => none

/-- The operation revokes the credential. -/
def Op.revokes (issued : Issued ρ) : Op ρ → Bool
  | .revokeSession id => decide (issued.scope.sessionId = id)
  | .revokeThread id => decide (issued.scope.threadId = id)
  | .revokeAll => true
  | _ => false

/-- The scope that the operation binds the credential to. -/
def Op.binds (issued : Issued ρ) : Op ρ → Option (InvocationScope ρ)
  | .advanceSession scope =>
      if issued.scope.threadId = scope.threadId ∧ issued.scope.sessionId = scope.sessionId then
        some { scope with
          sessionId := issued.scope.sessionId
          issuedAt := issued.scope.issuedAt }
      else none
  | _ => none

/-- The operation uses the credential. -/
def Op.refreshes (issued : Issued ρ) (op : Op ρ) : Bool :=
  match op with
  | .resolve authorization => decide (bearer authorization = some issued.token)
  | .touch thread => decide (issued.scope.threadId = thread)
  | .advanceSession _ => (op.binds issued).isSome
  | _ => false

/-- The times at which the credential was used. -/
def usesOf (issued : Issued ρ) (since : List (Event ρ)) : List Nat :=
  (since.filter fun event => event.op.refreshes issued).map Event.at_time

/-- The scope of the last `advance_session`, or the one that the credential was issued with. -/
def scopeAfter (issued : Issued ρ) (since : List (Event ρ)) : InvocationScope ρ :=
  since.foldl (fun scope event => (event.op.binds issued).getD scope) issued.scope

/-- Not revoked since, and never unused for longer than the window. -/
structure Alive (windowMs : Nat) (issued : Issued ρ) (since : List (Event ρ)) (now : Nat) :
    Prop where
  unrevoked : ∀ event ∈ since, event.op.revokes issued = false
  inTime : (issued.at_time :: usesOf issued since ++ [now]).IsChain
    fun earlier later => later - earlier ≤ windowMs

/-! ## The record of a credential -/

/-- What becomes of the record of a credential at an event. -/
def follow (windowMs : Nat) (issued : Issued ρ) (held : Option (Record ρ)) (event : Event ρ) :
    Option (Record ρ) :=
  held.bind fun record =>
    if event.op.revokes issued then none
    else if event.op.refreshes issued then
      if event.at_time - record.lastAliveAt ≤ windowMs then some {
        scope := (event.op.binds issued).getD record.scope
        lastAliveAt := event.at_time }
      else none
    else some record

def heldAfter (windowMs : Nat) (issued : Issued ρ) (since : List (Event ρ)) : Option (Record ρ) :=
  since.foldl (follow windowMs issued)
    (some { scope := issued.scope, lastAliveAt := issued.at_time })

variable {windowMs now : Nat} {issued : Issued ρ} {since : List (Event ρ)} {event : Event ρ}
  {record : Record ρ}

theorem heldAfter_concat (since : List (Event ρ)) (event : Event ρ) :
    heldAfter windowMs issued (since ++ [event]) =
      follow windowMs issued (heldAfter windowMs issued since) event :=
  List.foldl_concat ..

theorem usesOf_concat (since : List (Event ρ)) (event : Event ρ) :
    usesOf issued (since ++ [event]) =
      usesOf issued since ++ if event.op.refreshes issued then [event.at_time] else [] := by
  rw [usesOf, usesOf]
  by_cases refreshes : event.op.refreshes issued <;> simp [refreshes]

theorem scopeAfter_concat (since : List (Event ρ)) (event : Event ρ) :
    scopeAfter issued (since ++ [event]) =
      (event.op.binds issued).getD (scopeAfter issued since) :=
  List.foldl_concat ..

theorem refreshes_of_binds {op : Op ρ} (binds : (op.binds issued).isSome) :
    op.refreshes issued := by
  cases op <;> first | exact binds | cases binds

theorem alive_concat (since : List (Event ρ)) (event : Event ρ) :
    Alive windowMs issued (since ++ [event]) now ↔
      event.op.revokes issued = false ∧
        if event.op.refreshes issued then
          Alive windowMs issued since event.at_time ∧ now - event.at_time ≤ windowMs
        else Alive windowMs issued since now := by
  constructor
  · rintro ⟨unrevoked, inTime⟩
    have before : ∀ event ∈ since, event.op.revokes issued = false :=
      fun event listed => unrevoked event (List.mem_append_left _ listed)
    refine ⟨unrevoked event (by simp), ?_⟩
    rw [usesOf_concat] at inTime
    split
    · rename_i refreshes
      rw [if_pos refreshes, ← List.cons_append, List.append_assoc] at inTime
      obtain ⟨earlier, last⟩ := List.isChain_split.mp inTime
      exact ⟨⟨before, earlier⟩, (List.isChain_cons_cons.mp last).1⟩
    · rename_i unused
      rw [if_neg unused, List.append_nil] at inTime
      exact ⟨before, inTime⟩
  · rintro ⟨kept, alive⟩
    have unrevoked : (∀ event ∈ since, event.op.revokes issued = false) →
        ∀ other ∈ since ++ [event], other.op.revokes issued = false := by
      intro before other listed
      rcases List.mem_append.mp listed with listed | listed
      · exact before other listed
      · rw [List.mem_singleton.mp listed]
        exact kept
    split at alive
    · rename_i refreshes
      refine ⟨unrevoked alive.1.unrevoked, ?_⟩
      rw [usesOf_concat, if_pos refreshes, ← List.cons_append, List.append_assoc]
      exact List.isChain_split.mpr ⟨alive.1.inTime, by simpa using alive.2⟩
    · rename_i unused
      refine ⟨unrevoked alive.unrevoked, ?_⟩
      rw [usesOf_concat, if_neg unused, List.append_nil]
      exact alive.inTime

/-- A credential is alive if its record is held and has not lapsed. -/
theorem alive_iff : Alive windowMs issued since now ↔
    ∃ record, heldAfter windowMs issued since = some record ∧
      now - record.lastAliveAt ≤ windowMs := by
  induction since using List.reverseRecOn generalizing now with
  | nil =>
      constructor
      · exact fun alive => ⟨_, rfl, (List.isChain_cons_cons.mp alive.inTime).1⟩
      · rintro ⟨record, held, inTime⟩
        cases held
        exact ⟨by simp, by simpa [usesOf] using inTime⟩
  | append_singleton since event ih =>
      rw [alive_concat, heldAfter_concat, follow]
      cases revokes : event.op.revokes issued with
      | true => simp
      | false =>
          rw [ih, ih]
          cases held : heldAfter windowMs issued since with
          | none => simp
          | some record =>
              by_cases refreshes : event.op.refreshes issued
              · by_cases inTime : event.at_time - record.lastAliveAt ≤ windowMs <;>
                  simp [refreshes]
              · simp [refreshes]

theorem scope_of_held (held : heldAfter windowMs issued since = some record) :
    record.scope = scopeAfter issued since := by
  induction since using List.reverseRecOn generalizing record with
  | nil =>
      cases held
      rfl
  | append_singleton since event ih =>
      rw [heldAfter_concat] at held
      obtain ⟨earlier, before, held⟩ := Option.bind_eq_some_iff.mp held
      rw [scopeAfter_concat, ← ih before]
      split at held
      · cases held
      · split at held
        · split at held
          · cases held
            rfl
          · cases held
        · rename_i unused
          have unbound : event.op.binds issued = none := by
            by_contra bound
            exact unused (refreshes_of_binds (Option.isSome_iff_ne_none.mpr bound))
          cases held
          rw [unbound]
          rfl

/-- Whatever it is bound to, a credential keeps its thread, its session and its time of issue. -/
theorem scopeAfter_identity (issued : Issued ρ) (since : List (Event ρ)) :
    (scopeAfter issued since).threadId = issued.scope.threadId ∧
      (scopeAfter issued since).sessionId = issued.scope.sessionId ∧
      (scopeAfter issued since).issuedAt = issued.scope.issuedAt := by
  induction since using List.reverseRecOn with
  | nil => exact ⟨rfl, rfl, rfl⟩
  | append_singleton since event ih =>
      rw [scopeAfter_concat]
      cases bound : event.op.binds issued with
      | none => exact ih
      | some scope =>
          unfold Op.binds at bound
          split at bound
          · split at bound
            · rename_i same
              cases bound
              exact ⟨same.1.symm, rfl, rfl⟩
            · cases bound
          · cases bound

/-! ## The registry follows every credential -/

variable {digest : String → δ} {registry : CredentialRegistry δ ρ}

omit [DecidableEq δ] in
@[simp]
theorem records_retain (registry : CredentialRegistry δ ρ) (keep : Record ρ → Bool) (key : δ) :
    (registry.retain keep).records key = (registry.records key).filter keep :=
  rfl

omit [DecidableEq δ] in
@[simp]
theorem records_update (registry : CredentialRegistry δ ρ) (change : Record ρ → Record ρ) (key : δ) :
    (registry.update change).records key = (registry.records key).map change :=
  rfl

/-- The record after a use. -/
def Record.used (issued : Issued ρ) (event : Event ρ) (record : Record ρ) : Record ρ where
  scope := (event.op.binds issued).getD record.scope
  lastAliveAt := event.at_time

variable (digest) in
/-- The registry holds the record of the credential, or has dropped it after it lapsed. -/
def Tracks (registry : CredentialRegistry δ ρ) (windowMs now : Nat) (issued : Issued ρ)
    (held : Option (Record ρ)) : Prop :=
  registry.records (digest issued.token) = held ∨
    registry.records (digest issued.token) = none ∧
      ∀ record, held = some record → windowMs < now - record.lastAliveAt

omit [DecidableEq δ] in
theorem live_iff {timestamp : Nat} :
    registry.live timestamp record ↔ timestamp - record.lastAliveAt ≤ registry.windowMs :=
  decide_eq_true_iff

omit [DecidableEq δ] in
theorem Tracks.later {held : Option (Record ρ)} {later : Nat}
    (tracks : Tracks digest registry windowMs now issued held) (after : now ≤ later) :
    Tracks digest registry windowMs later issued held :=
  tracks.imp_right fun ⟨dropped, lapsed⟩ =>
    ⟨dropped, fun record same => by have := lapsed record same; omega⟩

/-- No `advance_session` meets a record that has lapsed and is still there. -/
def Steady (registry : CredentialRegistry δ ρ) (event : Event ρ) : Prop :=
  ∀ scope, event.op = .advanceSession scope → ∀ key record, registry.records key = some record →
    record.scope.threadId = scope.threadId → record.scope.sessionId = scope.sessionId →
      registry.live event.at_time record

theorem step_windowMs (registry : CredentialRegistry δ ρ) (event : Event ρ) :
    (registry.step digest event).windowMs = registry.windowMs := by
  unfold CredentialRegistry.step
  split
  · unfold CredentialRegistry.issue
    split <;> rfl
  · unfold CredentialRegistry.resolve
    split
    · rfl
    · dsimp only
      split <;> rfl
  all_goals rfl

/-- Only `issue` makes a record. -/
theorem step_none {key : δ} (missing : registry.records key = none)
    (other : ∀ issued, event.issued = some issued → digest issued.token ≠ key) :
    (registry.step digest event).records key = none := by
  unfold CredentialRegistry.step
  rcases event with ⟨at_time, op⟩
  cases op with
  | issue random sessionId scope =>
      cases random with
      | none => exact missing
      | some token => simp [CredentialRegistry.issue, missing, Ne.symm (other _ rfl)]
  | resolve authorization =>
      dsimp only [CredentialRegistry.resolve]
      split
      · exact missing
      · rename_i token presented
        split
        · simp [missing]
        · rename_i record found
          have apart : key ≠ digest token := by
            rintro rfl
            simp [missing] at found
          simp [apart, missing]
  | touch thread => simp [CredentialRegistry.touch, missing]
  | advanceSession scope => simp [CredentialRegistry.advanceSession, missing]
  | revokeSession id => simp [CredentialRegistry.revokeSession, missing]
  | revokeThread id => simp [CredentialRegistry.revokeThread, missing]
  | revokeAll => rfl

variable {after : CredentialRegistry δ ρ} {held : Option (Record ρ)}

section

variable (same : registry.records (digest issued.token) = held) (window : registry.windowMs = windowMs) (revokes : event.op.revokes issued = false)
include same window revokes

omit [DecidableEq δ] in
/-- An event that has nothing to do with the credential may drop its record if it has lapsed. -/
theorem tracks_of_retained (unused : event.op.refreshes issued = false)
    (records : after.records (digest issued.token) =
        (registry.records (digest issued.token)).filter (registry.live event.at_time) ∨
      after.records (digest issued.token) = registry.records (digest issued.token)) :
    Tracks digest after windowMs event.at_time issued (follow windowMs issued held event) := by
  have followed : follow windowMs issued held event = held := by
    cases held <;> simp [follow, revokes, unused]
  rw [followed, Tracks]
  rcases records with records | records
  · rw [records, same]
    cases held with
    | none => exact .inl rfl
    | some record =>
        by_cases live : registry.live event.at_time record
        · exact .inl (by simp [live])
        · refine .inr ⟨by simp [live], fun other same => ?_⟩
          cases same
          rw [live_iff, window] at live
          exact Nat.lt_of_not_le live
  · exact .inl (records.trans same)

omit [DecidableEq δ] in
theorem tracks_of_used (used : event.op.refreshes issued)
    (records : after.records (digest issued.token) =
      ((registry.records (digest issued.token)).filter (registry.live event.at_time)).map
        (Record.used issued event)) :
    Tracks digest after windowMs event.at_time issued (follow windowMs issued held event) := by
  refine .inl (records.trans ?_)
  rw [same]
  cases held with
  | none => rfl
  | some record =>
      by_cases live : registry.live event.at_time record
      · have inTime := live_iff.mp live
        rw [window] at inTime
        simp only [follow, Option.bind_some, revokes, used, inTime]
        simp [live, Record.used]
      · have late : ¬ event.at_time - record.lastAliveAt ≤ windowMs := window ▸ mt live_iff.mpr live
        simp only [follow, Option.bind_some, used, late]
        simp [live]

end

/-- A step of the registry is what becomes of every record. -/
theorem Tracks.step (tracks : Tracks digest registry windowMs now issued held)
    (window : registry.windowMs = windowMs)
    (identity : ∀ record, held = some record →
      record.scope.threadId = issued.scope.threadId ∧
        record.scope.sessionId = issued.scope.sessionId ∧
          record.scope.issuedAt = issued.scope.issuedAt)
    (ordered : now ≤ event.at_time)
    (other : ∀ later, event.issued = some later → digest later.token ≠ digest issued.token)
    (apart : ∀ authorization token, event.op = .resolve authorization →
      bearer authorization = some token → digest token = digest issued.token →
        token = issued.token)
    (steady : Steady registry event) :
    Tracks digest (registry.step digest event) windowMs event.at_time issued
      (follow windowMs issued held event) := by
  rcases tracks with same | ⟨dropped, lapsed⟩
  · rcases event with ⟨at_time, op⟩
    cases op with
    | issue random sessionId scope =>
        refine tracks_of_retained same window rfl rfl ?_
        cases random with
        | none => exact .inr rfl
        | some token =>
            exact .inl (by
              simp [CredentialRegistry.step, CredentialRegistry.issue, Ne.symm (other _ rfl)])
    | resolve authorization =>
        cases presented : bearer authorization with
        | none =>
            refine tracks_of_retained same window rfl (by simp [Op.refreshes, presented]) (.inr ?_)
            simp [CredentialRegistry.step, CredentialRegistry.resolve, presented]
        | some token =>
            by_cases mine : token = issued.token
            · refine tracks_of_used same window rfl (by simp [Op.refreshes, presented, mine]) ?_
              simp only [CredentialRegistry.step, CredentialRegistry.resolve, presented, mine,
                records_retain]
              cases found : (registry.records (digest issued.token)).filter (registry.live at_time) with
              | none => simp [found]
              | some record => simp [Record.used, Op.binds]
            · refine tracks_of_retained same window rfl (by simp [Op.refreshes, presented, mine])
                (.inl ?_)
              have elsewhere : digest issued.token ≠ digest token :=
                fun equal => mine (apart authorization token rfl presented equal.symm)
              simp only [CredentialRegistry.step, CredentialRegistry.resolve, presented]
              split <;> simp [elsewhere]
    | touch thread =>
        by_cases mine : issued.scope.threadId = thread
        · refine tracks_of_used same window rfl (by simp [Op.refreshes, mine]) ?_
          simp only [CredentialRegistry.step, CredentialRegistry.touch, records_update,
            records_retain, same]
          cases held with
          | none => rfl
          | some record =>
              cases live : registry.live at_time record
              · simp [Option.filter_some, live]
              · simp [Option.filter_some, (identity record rfl).1, mine, Record.used, Op.binds]
        · refine tracks_of_retained same window rfl (by simp [Op.refreshes, mine]) (.inl ?_)
          simp only [CredentialRegistry.step, CredentialRegistry.touch, records_update,
            records_retain, same]
          cases held with
          | none => rfl
          | some record =>
              cases live : registry.live at_time record
              · simp [Option.filter_some, live]
              · simp [Option.filter_some, (identity record rfl).1, mine]
    | advanceSession scope =>
        by_cases mine : issued.scope.threadId = scope.threadId ∧
            issued.scope.sessionId = scope.sessionId
        · refine tracks_of_used same window rfl (by simp [Op.refreshes, Op.binds, mine]) ?_
          simp only [CredentialRegistry.step, CredentialRegistry.advanceSession, records_update,
            same]
          cases held with
          | none => rfl
          | some record =>
              obtain ⟨thread, session, time⟩ := identity record rfl
              have live := steady scope rfl _ record same (thread.trans mine.1)
                (session.trans mine.2)
              simp [live, thread, session, time, mine, Record.used, Op.binds]
        · refine tracks_of_retained same window rfl (by simp [Op.refreshes, Op.binds, mine])
            (.inr ?_)
          simp only [CredentialRegistry.step, CredentialRegistry.advanceSession, records_update,
            same]
          cases held with
          | none => rfl
          | some record =>
              obtain ⟨thread, session, -⟩ := identity record rfl
              rw [Option.map_some, if_neg (by rw [thread, session]; exact mine)]
    | revokeSession id =>
        by_cases mine : issued.scope.sessionId = id
        · refine .inl ?_
          simp only [CredentialRegistry.step, CredentialRegistry.revokeSession, records_retain, same]
          cases held with
          | none => rfl
          | some record => simp [follow, Op.revokes, mine, (identity record rfl).2.1]
        · refine tracks_of_retained same window (by simp [Op.revokes, mine]) rfl (.inr ?_)
          simp only [CredentialRegistry.step, CredentialRegistry.revokeSession, records_retain, same]
          cases held with
          | none => rfl
          | some record => simp [mine, (identity record rfl).2.1]
    | revokeThread id =>
        by_cases mine : issued.scope.threadId = id
        · refine .inl ?_
          simp only [CredentialRegistry.step, CredentialRegistry.revokeThread, records_retain, same]
          cases held with
          | none => rfl
          | some record => simp [follow, Op.revokes, mine, (identity record rfl).1]
        · refine tracks_of_retained same window (by simp [Op.revokes, mine]) rfl (.inr ?_)
          simp only [CredentialRegistry.step, CredentialRegistry.revokeThread, records_retain, same]
          cases held with
          | none => rfl
          | some record => simp [mine, (identity record rfl).1]
    | revokeAll =>
        refine .inl ?_
        cases held <;> rfl
  · refine .inr ⟨step_none dropped other, fun record followed => ?_⟩
    obtain ⟨earlier, before, followed⟩ := Option.bind_eq_some_iff.mp followed
    have old := lapsed earlier before
    split at followed
    · cases followed
    · split at followed
      · split at followed
        · omega
        · cases followed
      · cases followed
        omega

/-! ## Runs from the empty registry -/

/-- The tokens that a run issues. -/
def tokensOf (run : List (Event ρ)) : List String :=
  (run.filterMap Event.issued).map Issued.token

/-- The clock never goes back, no token is issued twice, and the tokens come from a given set. -/
structure Proper (known : Set String) (run : List (Event ρ)) : Prop where
  ordered : run.Pairwise fun earlier later => earlier.at_time ≤ later.at_time
  fresh : (tokensOf run).Nodup
  known_issued : ∀ event ∈ run, ∀ issued, event.issued = some issued → issued.token ∈ known
  known_presented : ∀ event ∈ run, ∀ authorization token, event.op = .resolve authorization →
    bearer authorization = some token → token ∈ known

variable (digest) in
/-- No `advance_session` of the run meets a record that has lapsed and is still there. -/
def SteadyRun (windowMs : Nat) (run : List (Event ρ)) : Prop :=
  ∀ before event after, run = before ++ event :: after →
    Steady (registryAfter digest windowMs before) event

variable {known : Set String} {run before more : List (Event ρ)}

theorem registryAfter_concat (run : List (Event ρ)) (event : Event ρ) :
    registryAfter digest windowMs (run ++ [event]) =
      (registryAfter digest windowMs run).step digest event :=
  List.foldl_concat ..

theorem windowMs_registryAfter (run : List (Event ρ)) :
    (registryAfter digest windowMs run).windowMs = windowMs := by
  induction run using List.reverseRecOn with
  | nil => rfl
  | append_singleton run event ih => rw [registryAfter_concat, step_windowMs, ih]

theorem tokensOf_append (run more : List (Event ρ)) :
    tokensOf (run ++ more) = tokensOf run ++ tokensOf more := by
  rw [tokensOf, List.filterMap_append, List.map_append]
  rfl

theorem token_mem_tokensOf (listed : event ∈ run) (issues : event.issued = some issued) :
    issued.token ∈ tokensOf run :=
  List.mem_map_of_mem (List.mem_filterMap.mpr ⟨event, listed, issues⟩)

theorem Proper.prefix (proper : Proper known (run ++ more)) : Proper known run where
  ordered := (List.pairwise_append.mp proper.ordered).1
  fresh := by
    have fresh := proper.fresh
    rw [tokensOf_append] at fresh
    exact (List.nodup_append.mp fresh).1
  known_issued event listed := proper.known_issued event (List.mem_append_left _ listed)
  known_presented event listed := proper.known_presented event (List.mem_append_left _ listed)

theorem SteadyRun.prefix (steady : SteadyRun digest windowMs (run ++ more)) :
    SteadyRun digest windowMs run :=
  fun before event after split => steady before event (after ++ more) (by rw [split]; simp)

theorem identity_of_held (held : heldAfter windowMs issued since = some record) :
    record.scope.threadId = issued.scope.threadId ∧
      record.scope.sessionId = issued.scope.sessionId ∧
        record.scope.issuedAt = issued.scope.issuedAt := by
  rw [scope_of_held held]
  exact scopeAfter_identity issued since

/-- A token that is issued is found under its digest. -/
theorem step_of_issued (issues : event.issued = some issued) :
    (registry.step digest event).records (digest issued.token) =
      some { scope := issued.scope, lastAliveAt := issued.at_time } := by
  rcases event with ⟨at_time, op⟩
  unfold Event.issued at issues
  split at issues
  · rename_i token sessionId scope same
    cases issues
    subst same
    simp [CredentialRegistry.step, CredentialRegistry.issue]
  · cases issues

/-- From its issue on, the registry follows a credential. -/
theorem tracks_after (collisionFree : Set.InjOn digest known)
    (proper : Proper known (before ++ event :: since))
    (steady : SteadyRun digest windowMs (before ++ event :: since))
    (issues : event.issued = some issued)
    (now_last : ∀ other ∈ before ++ event :: since, other.at_time ≤ now) :
    Tracks digest (registryAfter digest windowMs (before ++ event :: since)) windowMs now issued
      (heldAfter windowMs issued since) := by
  induction since using List.reverseRecOn generalizing now with
  | nil =>
      rw [registryAfter_concat]
      exact .inl (step_of_issued issues)
  | append_singleton since next ih =>
      have longer : before ++ event :: (since ++ [next]) = (before ++ event :: since) ++ [next] := by
        simp
      rw [longer] at proper steady now_last ⊢
      have ordered : ∀ other ∈ before ++ event :: since, other.at_time ≤ next.at_time :=
        fun other listed => (List.pairwise_append.mp proper.ordered).2.2 other listed next (by simp)
      have earlier := ih proper.prefix steady.prefix ordered
      have known_token : issued.token ∈ known :=
        proper.known_issued event (by simp) issued issues
      rw [registryAfter_concat, heldAfter_concat]
      refine Tracks.later (Tracks.step earlier (windowMs_registryAfter _)
        (fun record held => identity_of_held held) (le_refl _) ?_ ?_
        (steady _ next [] rfl)) (now_last next (by simp))
      · intro later later_issues collide
        have same := collisionFree (proper.known_issued next (by simp) later later_issues)
          known_token collide
        have fresh := proper.fresh
        rw [tokensOf_append] at fresh
        refine (List.nodup_append.mp fresh).2.2 issued.token
          (token_mem_tokensOf (by simp) issues) later.token
          (token_mem_tokensOf (by simp) later_issues) same.symm
      · intro authorization token presents presented collide
        exact collisionFree (proper.known_presented next (by simp) authorization token presents
          presented) known_token collide

/-- A record belongs to a token that was issued. -/
theorem exists_issued {key : δ}
    (found : (registryAfter digest windowMs run).records key = some record) :
    ∃ before event since issued, run = before ++ event :: since ∧ event.issued = some issued ∧
      digest issued.token = key := by
  induction run using List.reverseRecOn generalizing record with
  | nil => cases found
  | append_singleton run event ih =>
      rw [registryAfter_concat] at found
      cases earlier : (registryAfter digest windowMs run).records key with
      | some record =>
          obtain ⟨before, first, since, issued, split, issues, same⟩ := ih earlier
          exact ⟨before, first, since ++ [event], issued, by rw [split]; simp, issues, same⟩
      | none =>
          by_contra unissued
          have missing := step_none earlier
            fun issued issues same => unissued ⟨run, event, [], issued, rfl, issues, same⟩
          rw [missing] at found
          cases found

/-! ## What a token resolves to -/

variable {authorization : String}

theorem resolve_snd (registry : CredentialRegistry δ ρ) {token : String}
    (presented : bearer authorization = some token) :
    (registry.resolve digest authorization now).2 =
      ((registry.records (digest token)).filter (registry.live now)).map Record.scope := by
  simp only [CredentialRegistry.resolve, presented, records_retain]
  cases (registry.records (digest token)).filter (registry.live now) <;> simp

/-- A token resolves to the scope of its record, as long as this has not lapsed. -/
theorem resolve_eq (collisionFree : Set.InjOn digest known)
    (proper : Proper known (before ++ event :: since))
    (steady : SteadyRun digest windowMs (before ++ event :: since))
    (issues : event.issued = some issued)
    (now_last : ∀ other ∈ before ++ event :: since, other.at_time ≤ now)
    (presented : bearer authorization = some issued.token) :
    ((registryAfter digest windowMs (before ++ event :: since)).resolve digest authorization
        now).2 =
      ((heldAfter windowMs issued since).filter fun record =>
        decide (now - record.lastAliveAt ≤ windowMs)).map Record.scope := by
  have window : (registryAfter digest windowMs (before ++ event :: since)).windowMs = windowMs :=
    windowMs_registryAfter _
  rw [resolve_snd _ presented]
  rcases tracks_after collisionFree proper steady issues now_last with same | ⟨dropped, lapsed⟩
  · congr 2
    funext record
    rw [CredentialRegistry.live, window]
  · rw [dropped]
    cases held : heldAfter windowMs issued since with
    | none => rfl
    | some record =>
        have late := lapsed record held
        rw [Option.filter_some, if_neg (by rw [decide_eq_true_eq]; omega)]
        rfl

variable (digest) in
/-- Resolving after a run at a time. -/
def resolves (windowMs : Nat) (run : List (Event ρ)) (authorization : String) (now : Nat) :
    Option (InvocationScope ρ) :=
  ((registryAfter digest windowMs run).resolve digest authorization now).2

/-- A token resolves to a scope if it was issued and is alive, and to its own scope. -/
theorem resolves_iff (collisionFree : Set.InjOn digest known) (proper : Proper known run)
    (steady : SteadyRun digest windowMs run) (now_last : ∀ event ∈ run, event.at_time ≤ now)
    {token : String} (presented : bearer authorization = some token) (token_known : token ∈ known)
    (scope : InvocationScope ρ) :
    resolves digest windowMs run authorization now = some scope ↔
      ∃ before event since issued, run = before ++ event :: since ∧ event.issued = some issued ∧
        issued.token = token ∧ Alive windowMs issued since now ∧
          scope = scopeAfter issued since := by
  constructor
  · intro resolved
    have found := resolved
    rw [resolves, resolve_snd _ presented] at found
    obtain ⟨record, found, -⟩ := Option.map_eq_some_iff.mp found
    obtain ⟨before, event, since, issued, rfl, issues, collide⟩ :=
      exists_issued (Option.filter_eq_some_iff.mp found).1
    have same : issued.token = token :=
      collisionFree (proper.known_issued event (by simp) issued issues) token_known collide
    refine ⟨before, event, since, issued, rfl, issues, same, ?_⟩
    rw [resolves, resolve_eq collisionFree proper steady issues now_last (same ▸ presented)]
      at resolved
    obtain ⟨held, inside, rfl⟩ := Option.map_eq_some_iff.mp resolved
    rw [Option.filter_eq_some_iff, decide_eq_true_eq] at inside
    exact ⟨alive_iff.mpr ⟨held, inside⟩, scope_of_held inside.1⟩
  · rintro ⟨before, event, since, issued, rfl, issues, rfl, alive, rfl⟩
    obtain ⟨record, held, inTime⟩ := alive_iff.mp alive
    rw [resolves, resolve_eq collisionFree proper steady issues now_last presented, held,
      Option.filter_some, if_pos (decide_eq_true inTime), Option.map_some, scope_of_held held]

/-- A credential that is alive was alive before. -/
theorem Alive.earlier {time : Nat} (alive : Alive windowMs issued (since ++ more) now)
    (later : ∀ event ∈ more, time ≤ event.at_time) (time_le : time ≤ now) :
    Alive windowMs issued since time where
  unrevoked event listed := alive.unrevoked event (List.mem_append_left _ listed)
  inTime := by
    have chain := alive.inTime
    have uses : usesOf issued (since ++ more) = usesOf issued since ++ usesOf issued more := by
      rw [usesOf, List.filter_append, List.map_append]
      rfl
    have all_later : ∀ use ∈ usesOf issued more ++ [now], time ≤ use := by
      intro use listed
      rcases List.mem_append.mp listed with listed | listed
      · obtain ⟨event, inside, rfl⟩ := List.mem_map.mp listed
        exact later event (List.mem_of_mem_filter inside)
      · rw [List.mem_singleton.mp listed]
        exact time_le
    rw [uses, ← List.cons_append, List.append_assoc] at chain
    obtain ⟨next, rest, split⟩ := List.exists_cons_of_ne_nil
      (List.append_ne_nil_of_right_ne_nil (usesOf issued more) (List.cons_ne_nil now []))
    rw [split] at chain all_later
    -- The next use, or the end, comes no sooner than `time`.
    have next_later : time ≤ next := all_later next (by simp)
    have front := (List.isChain_split.mp chain).1
    rw [List.isChain_append] at front ⊢
    refine ⟨front.1, List.IsChain.singleton time, fun last last_mem first first_mem => ?_⟩
    have gap := front.2.2 last last_mem next (by simp)
    obtain rfl : time = first := by simpa using first_mem
    omega

/-- Once a token has stopped resolving it never resolves again. -/
theorem never_again (collisionFree : Set.InjOn digest known)
    (proper : Proper known (before ++ event :: since ++ more))
    (steady : SteadyRun digest windowMs (before ++ event :: since ++ more))
    (issues : event.issued = some issued) (presented : bearer authorization = some issued.token)
    {time : Nat} (since_last : ∀ other ∈ before ++ event :: since, other.at_time ≤ time)
    (more_later : ∀ other ∈ more, time ≤ other.at_time)
    (stopped : resolves digest windowMs (before ++ event :: since) authorization time = none)
    (time_le : time ≤ now) (now_last : ∀ other ∈ more, other.at_time ≤ now) :
    resolves digest windowMs (before ++ event :: since ++ more) authorization now = none := by
  have all_last : ∀ other ∈ before ++ event :: (since ++ more), other.at_time ≤ now := by
    intro other listed
    rw [← List.cons_append, ← List.append_assoc] at listed
    rcases List.mem_append.mp listed with listed | listed
    · exact (since_last other listed).trans time_le
    · exact now_last other listed
  have dead : ¬ Alive windowMs issued since time := by
    intro alive
    obtain ⟨record, held, inTime⟩ := alive_iff.mp alive
    rw [resolves, resolve_eq collisionFree proper.prefix steady.prefix issues since_last presented,
      held, Option.filter_some, if_pos (decide_eq_true inTime)] at stopped
    cases stopped
  rw [List.append_assoc, List.cons_append] at proper steady ⊢
  rw [resolves, resolve_eq collisionFree proper steady issues all_last presented]
  cases held : heldAfter windowMs issued (since ++ more) with
  | none => rfl
  | some record =>
      rw [Option.filter_some, if_neg]
      · rfl
      · rw [decide_eq_true_eq]
        exact fun inTime => dead (Alive.earlier (alive_iff.mpr ⟨record, held, inTime⟩) more_later
          time_le)

/-- The operation is about the credential. -/
def Op.concerns (issued : Issued ρ) (op : Op ρ) : Bool :=
  op.revokes issued || op.refreshes issued

/-- Only operations about the credential matter to its record. -/
theorem heldAfter_filter (since : List (Event ρ)) :
    heldAfter windowMs issued (since.filter fun event => event.op.concerns issued) =
      heldAfter windowMs issued since := by
  induction since using List.reverseRecOn with
  | nil => rfl
  | append_singleton since event ih =>
      rw [List.filter_append, heldAfter_concat]
      cases concerns : event.op.concerns issued with
      | true =>
          rw [List.filter_cons_of_pos (by exact concerns), List.filter_nil, heldAfter_concat, ih]
      | false =>
          rw [List.filter_cons_of_neg (by simp [concerns]), List.filter_nil, List.append_nil, ih]
          rw [Op.concerns, Bool.or_eq_false_iff] at concerns
          cases held : heldAfter windowMs issued since with
          | none => rfl
          | some record => simp [follow, concerns.1, concerns.2]

/-! ## Dead credentials stay dead -/

/-- `LIVENESS_WINDOW` in milliseconds. -/
def livenessWindow : Nat :=
  24 * 60 * 60 * 1000

variable (digest) in
/-- What a run promises of its credentials. -/
structure Obeys (windowMs : Nat) (known : Set String) (run : List (Event ρ)) : Prop where
  /-- A token resolves if it was issued and is alive, to the scope it is bound to. -/
  resolves : ∀ authorization token now scope, bearer authorization = some token → token ∈ known →
    (∀ event ∈ run, event.at_time ≤ now) →
      (resolves digest windowMs run authorization now = some scope ↔
        ∃ before event since issued, run = before ++ event :: since ∧ event.issued = some issued ∧
          issued.token = token ∧ Alive windowMs issued since now ∧
            scope = scopeAfter issued since)
  /-- A token that has stopped resolving never resolves again. -/
  ends : ∀ before event since more issued authorization time now,
    run = before ++ event :: since ++ more → event.issued = some issued →
      bearer authorization = some issued.token →
        (∀ other ∈ before ++ event :: since, other.at_time ≤ time) →
          (∀ other ∈ more, time ≤ other.at_time) →
            Mcp.resolves digest windowMs (before ++ event :: since) authorization time = none →
              time ≤ now → (∀ other ∈ more, other.at_time ≤ now) →
                Mcp.resolves digest windowMs run authorization now = none
  /-- What does not concern a token leaves alone what it resolves to, at every time. -/
  apart : ∀ before event since before' since' issued authorization now,
    run = before ++ event :: since → Proper known (before' ++ event :: since') →
      SteadyRun digest windowMs (before' ++ event :: since') → event.issued = some issued →
        bearer authorization = some issued.token →
          since.filter (fun event => event.op.concerns issued) =
              since'.filter (fun event => event.op.concerns issued) →
            (∀ other ∈ run, other.at_time ≤ now) →
              (∀ other ∈ before' ++ event :: since', other.at_time ≤ now) →
                Mcp.resolves digest windowMs run authorization now =
                  Mcp.resolves digest windowMs (before' ++ event :: since') authorization now
  /-- Whatever it is bound to, a credential keeps its thread, its session and its time of issue. -/
  identity : ∀ before event since issued, run = before ++ event :: since →
    event.issued = some issued →
      (scopeAfter issued since).threadId = issued.scope.threadId ∧
        (scopeAfter issued since).sessionId = issued.scope.sessionId ∧
          (scopeAfter issued since).issuedAt = issued.scope.issuedAt

/-- In a run whose `advance_session` steps meet no lapsed record, dead credentials stay dead. -/
theorem obeys_of_steady (digest : String → δ) (windowMs : Nat) (known : Set String)
    (run : List (Event ρ)) (collisionFree : Set.InjOn digest known) (proper : Proper known run)
    (steady : SteadyRun digest windowMs run) : Obeys digest windowMs known run where
  resolves _ _ _ scope presented token_known now_last :=
    resolves_iff collisionFree proper steady now_last presented token_known scope
  ends _ _ _ _ _ _ _ _ split issues presented since_last more_later stopped time_le now_last := by
    subst split
    exact never_again collisionFree proper steady issues presented since_last more_later stopped
      time_le now_last
  apart _ _ _ _ _ _ _ _ split proper' steady' issues presented same now_last now_last' := by
    subst split
    rw [Mcp.resolves, Mcp.resolves, resolve_eq collisionFree proper steady issues now_last presented,
      resolve_eq collisionFree proper' steady' issues now_last' presented,
      ← heldAfter_filter, same, heldAfter_filter]
  identity _ _ since issued _ _ := scopeAfter_identity issued since

/-- The token of 32 bytes that are zero. -/
def thirtyTwoZeros : String :=
  "AAAAAAAAAAAAAAAAAAAAAAAAAAAAAAAAAAAAAAAAAAA"

/-- A credential that is rebound after an hour. -/
theorem obeys_of_steady_rebound :
    Obeys (fun token => token) livenessWindow Set.univ
      ([⟨0, .issue (some thirtyTwoZeros) "session" ⟨"thread", "", 0, ()⟩⟩,
        ⟨3600000, .advanceSession ⟨"thread", "session", 0, ()⟩⟩] : List (Event Unit)) := by
  refine obeys_of_steady _ _ _ _ Function.injective_id.injOn ?_ ?_
  · refine ⟨by simp, by decide +kernel, fun _ _ _ _ => trivial, ?_⟩
    intro event listed authorization token presents
    rcases List.mem_pair.mp listed with rfl | rfl <;> cases presents
  · intro before event after split scope advances key record found thread session
    rcases before with _ | ⟨first, _ | ⟨second, rest⟩⟩
    · simp only [List.nil_append, List.cons.injEq] at split
      rw [← split.1] at advances
      cases advances
    · obtain ⟨rfl, rfl, -⟩ := split
      simp only [registryAfter, List.foldl_cons, List.foldl_nil, CredentialRegistry.step,
        CredentialRegistry.issue] at found
      split at found
      · cases found
        decide
      · cases found
    · simp at split

/-- A token that was not used for 25 hours comes back to life. -/
theorem lapsed_token_is_revived :
    ¬ Obeys (fun token => token) livenessWindow Set.univ
      ([⟨0, .issue (some thirtyTwoZeros) "session" ⟨"thread", "", 0, ()⟩⟩,
        ⟨90000000, .advanceSession ⟨"thread", "session", 0, ()⟩⟩] : List (Event Unit)) := by
  intro obeys
  have revived := (obeys.resolves "Bearer AAAAAAAAAAAAAAAAAAAAAAAAAAAAAAAAAAAAAAAAAAA"
    "AAAAAAAAAAAAAAAAAAAAAAAAAAAAAAAAAAAAAAAAAAA" 90000000 ⟨"thread", "session", 0, ()⟩
    (by decide +kernel) trivial (by simp)).mp (by decide +kernel)
  obtain ⟨before, event, since, issued, split, issues, -, alive, -⟩ := revived
  rcases before with _ | ⟨first, _ | ⟨second, rest⟩⟩
  · obtain ⟨rfl, rfl⟩ := split
    cases issues
    have chain := alive.inTime
    simp [usesOf, Op.refreshes, Op.binds, livenessWindow] at chain
  · obtain ⟨-, rfl, -⟩ := split
    cases issues
  · simp at split

end Zeron.Mcp
