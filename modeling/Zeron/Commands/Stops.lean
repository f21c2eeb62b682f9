import Mathlib.Data.List.Nodup

/-!
# Stops through a drain

A drain reads the rows of the document turn after turn: it rejects what the ledger knows
and nobody resolved, takes the first row that is open, evaluates it against what it has
read, marks it and writes its outcome.  A newer interrupt that waits in the document
supersedes an older one, whether or not it is executed itself.
-/

namespace Zeron.Commands

inductive SessionCommandStatus where
  | pending
  | applied
  | rejected
  | expired
  | superseded
  | cancelled
  deriving DecidableEq

inductive SessionCommandPayload where
  | run (messageId : Nat)
  | steer (messageId : Option Nat)
  | interrupt
  | respondInput
  | respondPermission
  deriving DecidableEq

structure SessionCommandEntry where
  id : Nat
  payload : SessionCommandPayload
  issuedAt : Nat
  /-- The turn that it is based on. -/
  basedOn : Option Nat
  expiresAt : Option Nat
  status : SessionCommandStatus
  deriving DecidableEq

def commandDefaultTtlMs : Nat := 24 * 60 * 60 * 1000

namespace SessionCommandEntry

def effectiveExpiry (entry : SessionCommandEntry) : Nat :=
  entry.expiresAt.getD (entry.issuedAt + commandDefaultTtlMs)

end SessionCommandEntry

inductive CommandDisposition where
  | skip
  | expired
  | superseded
  | execute
  deriving DecidableEq

/-- `evaluate_command`; the last of the messages is the current turn. -/
def evaluateCommand (entry : SessionCommandEntry) (processed : List Nat) (nowMs : Nat)
    (entries : List SessionCommandEntry) (messages : List Nat) : CommandDisposition :=
  if entry.id ∈ processed then .skip
  else if entry.effectiveExpiry ≤ nowMs then .expired
  else if entry.payload = .interrupt then
    if entries.any fun other =>
        decide (other.id ≠ entry.id) && decide (other.payload = .interrupt) &&
          decide (other.status = .pending) && decide (entry.issuedAt < other.issuedAt) then
      .superseded
    else if entry.basedOn.any fun turn =>
        decide (messages.getLast? ≠ some turn) && decide (turn ∈ messages) then .superseded
    else .execute
  else .execute

/-- `set_command_status`: the first row with the id has its status written. -/
def setCommandStatus (id : Nat) (status : SessionCommandStatus) :
    List SessionCommandEntry → List SessionCommandEntry
  | [] => []
  | row :: rows =>
      if row.id = id then { row with status := status } :: rows
      else row :: setCommandStatus id status rows

/-- The dead-command sweep: what is pending and in the ledger is rejected.  (The rows swept
before are not told apart: sweeping one again writes the same.) -/
def sweep (processed : List Nat) (rows : List SessionCommandEntry) : List SessionCommandEntry :=
  ((rows.filter fun row => row.status = .pending ∧ row.id ∈ processed).map
      SessionCommandEntry.id).foldl
    (fun rows id => setCommandStatus id .rejected rows) rows

/-- The clock and the turns of a drain, and what `execute` comes back with. -/
structure Pass where
  nowMs : Nat
  messages : List Nat
  succeeds : SessionCommandEntry → Bool

/-- The rows of the document and the ledger, with what has been executed so far, and what
superseded, beside the rows that it was evaluated against. -/
structure Host where
  rows : List SessionCommandEntry
  processed : List Nat
  executed : List SessionCommandEntry
  superseded : List (SessionCommandEntry × List SessionCommandEntry)

namespace Pass

/-- A turn of `drain_commands` with an open row: the dead rows are swept, the row is
evaluated against the rows that were read before, marked, and resolved. -/
def resolve (pass : Pass) (host : Host) (entry : SessionCommandEntry) : Host :=
  let rows := sweep host.processed host.rows
  let marked := { host with rows := rows, processed := entry.id :: host.processed }
  match evaluateCommand entry host.processed pass.nowMs host.rows pass.messages with
  | .skip => marked
  | .expired => { marked with rows := setCommandStatus entry.id .expired rows }
  | .superseded =>
      { marked with
        rows := setCommandStatus entry.id .superseded rows
        superseded := host.superseded ++ [(entry, host.rows)] }
  | .execute =>
      { marked with
        rows := setCommandStatus entry.id
          (if pass.succeeds entry then .applied else .rejected) rows
        executed := host.executed ++ [entry] }

/-- Pending, and not in the ledger. -/
def isOpen (processed : List Nat) (entry : SessionCommandEntry) : Bool :=
  decide (entry.status = .pending ∧ entry.id ∉ processed)

/-- The loop of `drain_commands`, for a number of turns. -/
def turns (pass : Pass) : Nat → Host → Host
  | 0, host => host
  | count + 1, host =>
      match host.rows.find? (isOpen host.processed) with
      | none => { host with rows := sweep host.processed host.rows }
      | some entry => pass.turns count (pass.resolve host entry)

/-- `drain_commands`: every turn but the last one takes a row. -/
def drain (pass : Pass) (rows : List SessionCommandEntry) (processed : List Nat) : Host :=
  pass.turns (rows.length + 1) ⟨rows, processed, [], []⟩

/-- The turn that it aims at is over. -/
def AimsPast (pass : Pass) (entry : SessionCommandEntry) : Prop :=
  ∃ turn, entry.basedOn = some turn ∧ pass.messages.getLast? ≠ some turn ∧ turn ∈ pass.messages

end Pass

/-- A newer interrupt under another id. -/
def Newer (entry other : SessionCommandEntry) : Prop :=
  other.id ≠ entry.id ∧ other.payload = .interrupt ∧ entry.issuedAt < other.issuedAt

/-- Pending in the document. -/
def Waits (rows : List SessionCommandEntry) (entry : SessionCommandEntry) : Prop :=
  entry ∈ rows ∧ entry.status = .pending

section Claims

variable (pass : Pass) (rows : List SessionCommandEntry) (processed : List Nat)

end Claims

/-! ## The rows of a turn -/

/-- The rows behind the first one of their id: no status is written to them. -/
def copies (seen : List Nat) : List SessionCommandEntry → List SessionCommandEntry
  | [] => []
  | row :: rows =>
      if row.id ∈ seen then row :: copies seen rows else copies (row.id :: seen) rows

section Turns

variable (rows : List SessionCommandEntry) (processed : List Nat)

/-- In the ledger once the rows up to some place have had their turn. -/
def Known (before : List SessionCommandEntry) (id : Nat) : Prop :=
  id ∈ processed ∨ ∃ row ∈ before, row.status = .pending ∧ row.id = id

/-- An open row has its turn behind these. -/
def TurnOf (before : List SessionCommandEntry) (entry : SessionCommandEntry) : Prop :=
  before ++ [entry] <+: rows ∧ entry.status = .pending ∧ ¬Known processed before entry.id

/-- Pending in the document in the turn behind these rows: in the first turn every pending
row, later the copies, and what is not in the ledger. -/
def Stands (before : List SessionCommandEntry) (other : SessionCommandEntry) : Prop :=
  Waits rows other ∧ ((∀ row ∈ before, row.status = .pending → row.id ∈ processed) ∨
    other ∈ copies [] rows ∨ ¬Known processed before other.id)

def Outranked (before : List SessionCommandEntry) (entry : SessionCommandEntry) : Prop :=
  ∃ other, Stands rows processed before other ∧ Newer entry other

end Turns

/-! ## Writing a status -/

section Status

variable {rows : List SessionCommandEntry} {seen processed : List Nat} {id : Nat}
  {status : SessionCommandStatus} {other : SessionCommandEntry}

theorem mem_copies_of_mem (known : other.id ∈ seen) : other ∈ copies seen rows ↔ other ∈ rows := by
  induction rows generalizing seen with
  | nil => rfl
  | cons row rows ih =>
      rw [copies]
      split_ifs with passed
      · rw [List.mem_cons, List.mem_cons, ih known]
      · rw [ih (List.mem_cons_of_mem _ known), List.mem_cons]
        exact (or_iff_right fun same : other = row => passed (same ▸ known)).symm

theorem copies_setCommandStatus (new : id ∉ seen) :
    copies seen (setCommandStatus id status rows) = copies seen rows := by
  induction rows generalizing seen with
  | nil => rfl
  | cons row rows ih =>
      rw [setCommandStatus]
      by_cases same : row.id = id
      · rw [if_pos same, copies, copies, if_neg (same ▸ new), if_neg (same ▸ new)]
      · have later : id ∉ row.id :: seen := by simp [new, Ne.symm same]
        rw [if_neg same, copies, copies, ih new, ih later]

/-- What waits after a status has been written: the other rows, and the copies. -/
theorem waits_setCommandStatus (settled : status ≠ .pending) (new : id ∉ seen) :
    Waits (setCommandStatus id status rows) other ↔
      Waits rows other ∧ (other.id ≠ id ∨ other ∈ copies seen rows) := by
  induction rows generalizing seen with
  | nil => simp [Waits, setCommandStatus]
  | cons row rows ih =>
      rw [setCommandStatus, copies]
      by_cases same : row.id = id
      · have copied : other.id = id → (other ∈ copies (row.id :: seen) rows ↔ other ∈ rows) :=
          fun named => mem_copies_of_mem (by simp [named, same])
        simp only [Waits]
        grind
      · have later : id ∉ row.id :: seen := by simp [new, Ne.symm same]
        have here := ih new
        have there := ih later
        simp only [Waits] at here there ⊢
        split_ifs <;> grind

section Swept

variable {ids : List Nat}

theorem copies_foldl :
    copies [] (ids.foldl (fun rows id => setCommandStatus id .rejected rows) rows) =
      copies [] rows := by
  induction ids generalizing rows with
  | nil => rfl
  | cons id ids ih => rw [List.foldl_cons, ih, copies_setCommandStatus List.not_mem_nil]

theorem waits_foldl :
    Waits (ids.foldl (fun rows id => setCommandStatus id .rejected rows) rows) other ↔
      Waits rows other ∧ (other.id ∉ ids ∨ other ∈ copies [] rows) := by
  induction ids generalizing rows with
  | nil => simp
  | cons id ids ih =>
      rw [List.foldl_cons, ih, copies_setCommandStatus List.not_mem_nil,
        waits_setCommandStatus (by decide) List.not_mem_nil, List.mem_cons]
      tauto

end Swept

theorem waits_sweep : Waits (sweep processed rows) other ↔
    Waits rows other ∧ (other.id ∉ processed ∨ other ∈ copies [] rows) := by
  rw [sweep, waits_foldl]
  refine and_congr_right fun waits => or_congr_left (not_congr ?_)
  constructor
  · intro listed
    rcases List.mem_map.mp listed with ⟨row, dead, same⟩
    have known := (of_decide_eq_true (List.mem_filter.mp dead).2).2
    rwa [same] at known
  · intro known
    exact List.mem_map.mpr ⟨other, List.mem_filter.mpr
      ⟨waits.1, decide_eq_true ⟨waits.2, known⟩⟩, rfl⟩

end Status

/-! ## One turn -/

section Turn

variable {pass : Pass} {host : Host} {entry : SessionCommandEntry}

/-- Of the rows that were read a newer interrupt waits. -/
def Superseding (read : List SessionCommandEntry) (entry : SessionCommandEntry) : Prop :=
  ∃ other, Waits read other ∧ Newer entry other

theorem any_newer_iff {read : List SessionCommandEntry} :
    (read.any fun other =>
        decide (other.id ≠ entry.id) && decide (other.payload = .interrupt) &&
          decide (other.status = .pending) && decide (entry.issuedAt < other.issuedAt)) = true ↔
      Superseding read entry := by
  simp only [List.any_eq_true, Bool.and_eq_true, decide_eq_true_eq, Superseding, Waits, Newer]
  exact exists_congr fun other => by tauto

theorem any_past_iff :
    (entry.basedOn.any fun turn =>
        decide (pass.messages.getLast? ≠ some turn) && decide (turn ∈ pass.messages)) = true ↔
      pass.AimsPast entry := by
  simp only [Option.any_eq_true, Bool.and_eq_true, decide_eq_true_eq, Pass.AimsPast]

/-- The ways a turn goes: the row is executed, superseded, or expired. -/
inductive Resolved (pass : Pass) (host : Host) (entry : SessionCommandEntry) : Host → Prop where
  | executed (rows : List SessionCommandEntry) (due : pass.nowMs < entry.effectiveExpiry)
      (free : entry.payload = .interrupt → ¬Superseding host.rows entry ∧ ¬pass.AimsPast entry) :
      Resolved pass host entry
        ⟨rows, entry.id :: host.processed, host.executed ++ [entry], host.superseded⟩
  | superseded (rows : List SessionCommandEntry) (due : pass.nowMs < entry.effectiveExpiry)
      (interrupt : entry.payload = .interrupt)
      (turned : Superseding host.rows entry ∨ pass.AimsPast entry) :
      Resolved pass host entry
        ⟨rows, entry.id :: host.processed, host.executed, host.superseded ++ [(entry, host.rows)]⟩
  | expired (rows : List SessionCommandEntry) (late : ¬pass.nowMs < entry.effectiveExpiry) :
      Resolved pass host entry ⟨rows, entry.id :: host.processed, host.executed, host.superseded⟩

/-- A turn resolves its row, in the swept rows. -/
theorem resolve_spec (pass : Pass) (unknown : entry.id ∉ host.processed) :
    Resolved pass host entry (pass.resolve host entry) ∧ ∃ status, status ≠ .pending ∧
      (pass.resolve host entry).rows =
        setCommandStatus entry.id status (sweep host.processed host.rows) := by
  rw [Pass.resolve, evaluateCommand, if_neg unknown]
  by_cases expired : entry.effectiveExpiry ≤ pass.nowMs
  · rw [if_pos expired]
    exact ⟨.expired _ (Nat.not_lt.mpr expired), .expired, by decide, rfl⟩
  rw [if_neg expired]
  have due : pass.nowMs < entry.effectiveExpiry := Nat.lt_of_not_le expired
  have written : (if pass.succeeds entry then SessionCommandStatus.applied else .rejected) ≠
      .pending := by
    split_ifs <;> decide
  by_cases interrupt : entry.payload = .interrupt
  · rw [if_pos interrupt]
    by_cases newer : Superseding host.rows entry
    · rw [if_pos (any_newer_iff.mpr newer)]
      exact ⟨.superseded _ due interrupt (.inl newer), .superseded, by decide, rfl⟩
    rw [if_neg (any_newer_iff.not.mpr newer)]
    by_cases past : pass.AimsPast entry
    · rw [if_pos (any_past_iff.mpr past)]
      exact ⟨.superseded _ due interrupt (.inr past), .superseded, by decide, rfl⟩
    rw [if_neg (any_past_iff.not.mpr past)]
    exact ⟨.executed _ due fun _ => ⟨newer, past⟩, _, written, rfl⟩
  · rw [if_neg interrupt]
    exact ⟨.executed _ due fun same => absurd same interrupt, _, written, rfl⟩

theorem Resolved.processed_eq {next : Host} (resolved : Resolved pass host entry next) :
    next.processed = entry.id :: host.processed := by
  cases resolved <;> rfl

end Turn

/-! ## The turns of a drain -/

/-- What the turn of a row does, if it comes to one. -/
def Pass.visit (pass : Pass) (host : Host) (row : SessionCommandEntry) : Host :=
  if Pass.isOpen host.processed row then pass.resolve host row else host

section Drain

variable (pass : Pass) (rows : List SessionCommandEntry) (processed : List Nat)

/-- The row is executed in its turn. -/
def GoesAhead (before : List SessionCommandEntry) (entry : SessionCommandEntry) : Prop :=
  pass.nowMs < entry.effectiveExpiry ∧ (entry.payload = .interrupt →
    ¬Outranked rows processed before entry ∧ ¬pass.AimsPast entry)

/-- The row is superseded in its turn. -/
def TurnedAway (before : List SessionCommandEntry) (entry : SessionCommandEntry) : Prop :=
  pass.nowMs < entry.effectiveExpiry ∧ entry.payload = .interrupt ∧
    (Outranked rows processed before entry ∨ pass.AimsPast entry)

/-- A drain that has come through the rows up to some place. -/
structure Reached (front : List SessionCommandEntry) (host : Host) : Prop where
  marked : ∀ id, id ∈ host.processed ↔ Known processed front id
  waits : ∀ other, Waits host.rows other ↔ Stands rows processed front other
  copied : copies [] host.rows = copies [] rows
  executed : ∀ entry, entry ∈ host.executed ↔ ∃ before,
    TurnOf front processed before entry ∧ GoesAhead pass rows processed before entry
  superseded : ∀ entry read, (entry, read) ∈ host.superseded → ∃ before,
    TurnOf front processed before entry ∧ TurnedAway pass rows processed before entry ∧
      ∀ other, Waits read other ↔ Stands rows processed before other
  turned : ∀ before entry, TurnOf front processed before entry →
    TurnedAway pass rows processed before entry → ∃ read, (entry, read) ∈ host.superseded ∧
      ∀ other, Waits read other ↔ Stands rows processed before other
  once : (host.executed.map SessionCommandEntry.id).Nodup

variable {pass rows processed}
variable {front before : List SessionCommandEntry} {host next : Host}
  {row entry : SessionCommandEntry}

theorem known_append {id : Nat} : Known processed (front ++ [row]) id ↔
    Known processed front id ∨ row.status = .pending ∧ row.id = id := by
  simp only [Known]
  grind

theorem turnOf_append : TurnOf (front ++ [row]) processed before entry ↔
    TurnOf front processed before entry ∨
      (before = front ∧ entry = row ∧ row.status = .pending ∧ ¬Known processed front row.id) := by
  rw [TurnOf, List.prefix_concat_iff]
  constructor
  · rintro ⟨same | within, pending, unknown⟩
    · obtain ⟨rfl, last⟩ := List.append_inj' same rfl
      cases last
      exact .inr ⟨rfl, rfl, pending, unknown⟩
    · exact .inl ⟨within, pending, unknown⟩
  · rintro (⟨within, pending, unknown⟩ | ⟨rfl, rfl, pending, unknown⟩)
    · exact ⟨.inr within, pending, unknown⟩
    · exact ⟨.inl rfl, pending, unknown⟩

theorem TurnOf.known (turn : TurnOf front processed before entry) :
    Known processed front entry.id :=
  .inr ⟨entry, turn.1.subset (List.mem_append_right _ List.mem_cons_self), turn.2.1, rfl⟩

/-- A row that has no turn changes nothing. -/
theorem Reached.pass_over (reached : Reached pass rows processed front host)
    (closed : row.status = .pending → Known processed front row.id) :
    Reached pass rows processed (front ++ [row]) host := by
  have known (id : Nat) : Known processed (front ++ [row]) id ↔ Known processed front id := by
    rw [known_append]
    exact or_iff_left_of_imp fun same => same.2 ▸ closed same.1
  have turns (before : List SessionCommandEntry) (entry : SessionCommandEntry) :
      TurnOf (front ++ [row]) processed before entry ↔ TurnOf front processed before entry := by
    rw [turnOf_append]
    exact or_iff_left fun last => last.2.2.2 (closed last.2.2.1)
  have first : (∀ other ∈ front ++ [row], other.status = .pending → other.id ∈ processed) ↔
      ∀ other ∈ front, other.status = .pending → other.id ∈ processed := by
    simp only [Known] at closed
    grind
  constructor
  · exact fun id => (reached.marked id).trans (known id).symm
  · intro other
    rw [reached.waits, Stands, Stands, first, known]
  · exact reached.copied
  · simpa only [turns] using reached.executed
  · simpa only [turns] using reached.superseded
  · simpa only [turns] using reached.turned
  · exact reached.once

theorem Reached.superseding_iff (reached : Reached pass rows processed front host) :
    Superseding host.rows entry ↔ Outranked rows processed front entry :=
  exists_congr fun other => and_congr_left fun _ => reached.waits other

section Turn

variable (reached : Reached pass rows processed front host) (pending : row.status = .pending)
  (unknown : ¬Known processed front row.id)
include pending unknown

theorem turnOf_last : TurnOf (front ++ [row]) processed before entry ↔
    TurnOf front processed before entry ∨ before = front ∧ entry = row := by
  rw [turnOf_append]
  exact or_congr_right (and_congr_right fun _ => and_iff_left ⟨pending, unknown⟩)

include reached

theorem Reached.marked_resolve (id : Nat) : id ∈ (pass.resolve host row).processed ↔
    Known processed (front ++ [row]) id := by
  obtain ⟨resolved, -⟩ := resolve_spec pass ((reached.marked row.id).not.mpr unknown)
  rw [resolved.processed_eq, List.mem_cons, reached.marked, known_append, or_comm]
  exact or_congr_right ⟨fun same => ⟨pending, same.symm⟩, fun same => same.2.symm⟩

theorem Reached.waits_resolve (other : SessionCommandEntry) :
    Waits (pass.resolve host row).rows other ↔ Stands rows processed (front ++ [row]) other := by
  obtain ⟨-, status, settled, written⟩ :=
    resolve_spec pass ((reached.marked row.id).not.mpr unknown)
  have later : ¬∀ other ∈ front ++ [row], other.status = .pending → other.id ∈ processed :=
    fun all => unknown (.inl (all row List.mem_concat_self pending))
  rw [written, waits_setCommandStatus settled List.not_mem_nil, waits_sweep, reached.waits,
    reached.marked, sweep, copies_foldl, reached.copied, Stands, Stands, known_append]
  tauto

omit pending in
theorem Reached.new : row.id ∉ host.executed.map SessionCommandEntry.id := by
  intro listed
  obtain ⟨other, executed, named⟩ := List.mem_map.mp listed
  obtain ⟨before, turn, -⟩ := (reached.executed other).mp executed
  exact unknown (named ▸ turn.known)

/-- What was superseded before keeps its turn. -/
theorem Reached.superseded_last {read : List SessionCommandEntry}
    (listed : (entry, read) ∈ host.superseded) :
    ∃ before, TurnOf (front ++ [row]) processed before entry ∧
      TurnedAway pass rows processed before entry ∧
        ∀ other, Waits read other ↔ Stands rows processed before other := by
  obtain ⟨before, turn, rest⟩ := reached.superseded entry read listed
  exact ⟨before, (turnOf_last pending unknown).mpr (.inl turn), rest⟩

/-- A row that is not turned away leaves no turn that is. -/
theorem Reached.turned_last (stays : ¬TurnedAway pass rows processed front row)
    (turn : TurnOf (front ++ [row]) processed before entry)
    (away : TurnedAway pass rows processed before entry) :
    ∃ read, (entry, read) ∈ host.superseded ∧
      ∀ other, Waits read other ↔ Stands rows processed before other := by
  rcases (turnOf_last pending unknown).mp turn with turn | ⟨rfl, rfl⟩
  · exact reached.turned before entry turn away
  · exact absurd away stays

theorem Reached.resolve :
    Reached pass rows processed (front ++ [row]) (pass.resolve host row) := by
  obtain ⟨resolved, status, -, written⟩ :=
    resolve_spec pass ((reached.marked row.id).not.mpr unknown)
  have marked := reached.marked_resolve pending unknown
  have waits := reached.waits_resolve pending unknown
  have same_copies : copies [] (pass.resolve host row).rows = copies [] rows := by
    rw [written, copies_setCommandStatus List.not_mem_nil, sweep, copies_foldl, reached.copied]
  have turns (before : List SessionCommandEntry) (entry : SessionCommandEntry) :
      TurnOf (front ++ [row]) processed before entry ↔
        TurnOf front processed before entry ∨ before = front ∧ entry = row :=
    turnOf_last pending unknown
  generalize pass.resolve host row = next at *
  have outranked : Superseding host.rows row ↔ Outranked rows processed front row :=
    reached.superseding_iff
  cases resolved with
  | executed _ due free =>
      have ahead : GoesAhead pass rows processed front row :=
        ⟨due, fun interrupt => ⟨outranked.not.mp (free interrupt).1, (free interrupt).2⟩⟩
      have stays : ¬TurnedAway pass rows processed front row := fun away =>
        away.2.2.elim (ahead.2 away.2.1).1 (ahead.2 away.2.1).2
      refine ⟨marked, waits, same_copies, ?_, ?_, ?_, ?_⟩
      · intro entry
        simp only [List.mem_append, reached.executed]
        grind
      · exact fun _ _ => reached.superseded_last pending unknown
      · exact fun _ _ => reached.turned_last pending unknown stays
      · simpa [List.nodup_append, reached.once] using reached.new unknown
  | superseded _ due interrupt turned =>
      have away : TurnedAway pass rows processed front row :=
        ⟨due, interrupt, turned.imp_left outranked.mp⟩
      have stays : ¬GoesAhead pass rows processed front row := fun ahead =>
        away.2.2.elim (ahead.2 interrupt).1 (ahead.2 interrupt).2
      refine ⟨marked, waits, same_copies, ?_, ?_, ?_, reached.once⟩
      · intro entry
        simp only [reached.executed]
        grind
      · intro entry read listed
        rcases List.mem_append.mp listed with listed | last
        · exact reached.superseded_last pending unknown listed
        · cases List.mem_singleton.mp last
          exact ⟨front, (turns _ _).mpr (.inr ⟨rfl, rfl⟩), away, reached.waits⟩
      · intro before entry turn away
        rcases (turns _ _).mp turn with turn | ⟨rfl, rfl⟩
        · obtain ⟨read, listed, rest⟩ := reached.turned before entry turn away
          exact ⟨read, List.mem_append_left _ listed, rest⟩
        · exact ⟨_, List.mem_concat_self, reached.waits⟩
  | expired _ late =>
      refine ⟨marked, waits, same_copies, ?_, ?_, ?_, reached.once⟩
      · intro entry
        simp only [reached.executed, GoesAhead]
        grind
      · exact fun _ _ => reached.superseded_last pending unknown
      · exact fun _ _ => reached.turned_last pending unknown fun away => late away.1

end Turn

theorem Reached.foldl (reached : Reached pass rows processed front host)
    (rest : List SessionCommandEntry) :
    Reached pass rows processed (front ++ rest) (rest.foldl pass.visit host) := by
  induction rest generalizing front host with
  | nil => simpa using reached
  | cons row rest ih =>
      have next : Reached pass rows processed (front ++ [row]) (pass.visit host row) := by
        rw [Pass.visit]
        split_ifs with waiting
        · obtain ⟨pending, unknown⟩ := of_decide_eq_true waiting
          exact reached.resolve pending ((reached.marked _).not.mp unknown)
        · refine reached.pass_over fun pending => ?_
          by_contra unknown
          exact waiting (decide_eq_true ⟨pending, (reached.marked _).not.mpr unknown⟩)
      have last := ih next
      rwa [List.append_assoc] at last

theorem Known.mono {earlier : List SessionCommandEntry} {id : Nat}
    (known : Known processed before id) (within : before <+: earlier) :
    Known processed earlier id :=
  known.imp_right fun ⟨row, listed, rest⟩ => ⟨row, within.subset listed, rest⟩

theorem TurnOf.mem (turn : TurnOf rows processed before entry) : entry ∈ rows :=
  turn.1.subset (List.mem_append_right _ List.mem_cons_self)

end Drain

def stop (id issuedAt turn : Nat) : SessionCommandEntry where
  id := id
  payload := .interrupt
  issuedAt := issuedAt
  basedOn := some turn
  expiresAt := none
  status := .pending

/-- A drain while the turn of the second of two messages is running. -/
def secondTurn : Pass where
  nowMs := 3000
  messages := [7, 8]
  succeeds _ := true

end Zeron.Commands
