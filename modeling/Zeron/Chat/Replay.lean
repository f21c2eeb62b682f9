import Mathlib.Data.List.Nodup
import Zeron.Chat.Log
import Zeron.Transition.Run

/-!
# Pushes that are sent again

A client that lost an answer pushes its batch again.  The log keeps the batch
ids of the rows it stores, so a second push of a stored batch is answered with
the number of the first.  A checkpoint deletes rows and their batch ids with
them.
-/

namespace Zeron.Chat

open Transition

/-- A call of the log, as the room's handlers make it. -/
inductive LogCall where
  | append (device batchId : String) (bytes : List UInt8)
  | checkpoint (seqCovered : Nat) (frontier bytes : List UInt8)

namespace ChatRoom

/-- `checkpointSeq` of `logStats`. -/
def checkpointSeq (room : ChatRoom) : Nat :=
  (room.checkpoint.map Checkpoint.seqCovered).getD 0

/-- The rows between floor and head, each with a batch of its own. -/
structure Shape (room : ChatRoom) : Prop where
  floor_le_head : room.seqFloor ≤ room.headSeq
  numbers : room.rows.map LogRow.seq =
    List.range' (room.seqFloor + 1) (room.headSeq - room.seqFloor)
  batches : (room.rows.map LogRow.batchId).Nodup
  checkpoint : room.checkpointSeq = room.seqFloor

/-- Floor and head move forward only. -/
structure Forward (before after : ChatRoom) : Prop where
  seqFloor : before.seqFloor ≤ after.seqFloor
  headSeq : before.headSeq ≤ after.headSeq

/-- Bytes that pass the size checks of `appendRow`. -/
def Fits (bytes : List UInt8) : Prop :=
  0 < bytes.length ∧ bytes.length ≤ maxRowBytes

theorem Forward.refl (room : ChatRoom) : Forward room room :=
  ⟨le_rfl, le_rfl⟩

theorem shape_initial : Shape initial :=
  ⟨le_rfl, Eq.refl _, List.nodup_nil, Eq.refl _⟩

/-- All that `appendRow` does. -/
theorem appendRow_cases (room : ChatRoom) (device batchId : String) (bytes : List UInt8) :
    (¬ Fits bytes ∧ ∃ error, room.appendRow device batchId bytes = (room, .rejected error)) ∨
    (Fits bytes ∧ ∃ row ∈ room.rows, row.batchId = batchId ∧
      room.appendRow device batchId bytes = (room, .dup row.seq)) ∨
    (Fits bytes ∧ (∀ row ∈ room.rows, row.batchId ≠ batchId) ∧
      room.appendRow device batchId bytes =
        ({ room with
            rows := room.rows ++ [{ seq := room.headSeq + 1, device, batchId, bytes }]
            headSeq := room.headSeq + 1 },
          .appended (room.headSeq + 1))) := by
  unfold appendRow Fits
  by_cases none_sent : bytes.length = 0
  · rw [if_pos none_sent]
    exact .inl ⟨by omega, _, Eq.refl _⟩
  · rw [if_neg none_sent]
    by_cases oversized : maxRowBytes < bytes.length
    · rw [if_pos oversized]
      exact .inl ⟨by omega, _, Eq.refl _⟩
    · rw [if_neg oversized]
      have fits : 0 < bytes.length ∧ bytes.length ≤ maxRowBytes := by omega
      cases found : room.rows.find? fun row => row.batchId == batchId with
      | some existing =>
          have same := List.find?_some found
          exact .inr (.inl ⟨fits, existing, List.mem_of_find?_eq_some found,
            eq_of_beq same, Eq.refl _⟩)
      | none =>
          have absent := List.find?_eq_none.mp found
          simp only [beq_iff_eq] at absent
          exact .inr (.inr ⟨fits, absent, Eq.refl _⟩)

/-- All that `commitCheckpoint` does. -/
theorem commitCheckpoint_cases (room : ChatRoom) (seqCovered : Nat)
    (frontier bytes : List UInt8) :
    (∃ error, room.commitCheckpoint seqCovered frontier bytes = (room, .rejected error)) ∨
    (room.seqFloor ≤ seqCovered ∧ seqCovered ≤ room.headSeq ∧ ∃ pruned,
      room.commitCheckpoint seqCovered frontier bytes =
        ({ room with
            rows := room.rows.filter fun row => seqCovered < row.seq
            seqFloor := seqCovered
            checkpoint := some { seqCovered, frontier, bytes } },
          .committed seqCovered pruned)) := by
  unfold commitCheckpoint
  split
  · exact .inl ⟨_, Eq.refl _⟩
  · split
    · exact .inl ⟨_, Eq.refl _⟩
    · split
      · exact .inl ⟨_, Eq.refl _⟩
      · exact .inr ⟨by omega, by omega, _, Eq.refl _⟩

/-- The numbers left of a run of numbers when all up to `covered` go. -/
theorem range'_filter_lt {first covered length : Nat} (inside : first ≤ covered + 1)
    (within : covered + 1 ≤ first + length) :
    (List.range' first length).filter (fun seq => decide (covered < seq)) =
      List.range' (covered + 1) (first + length - (covered + 1)) := by
  have split_at : length = (covered + 1 - first) + (first + length - (covered + 1)) := by omega
  have gone : (List.range' first (covered + 1 - first)).filter
      (fun seq => decide (covered < seq)) = [] := by
    rw [List.filter_eq_nil_iff]
    intro seq listed
    rw [List.mem_range'_1] at listed
    rw [decide_eq_true_eq]
    omega
  have kept : (List.range' (covered + 1) (first + length - (covered + 1))).filter
      (fun seq => decide (covered < seq)) =
        List.range' (covered + 1) (first + length - (covered + 1)) := by
    rw [List.filter_eq_self]
    intro seq listed
    rw [List.mem_range'_1] at listed
    rw [decide_eq_true_eq]
    omega
  have start : first + (covered + 1 - first) = covered + 1 := by omega
  calc
    _ = ((List.range' first (covered + 1 - first)) ++
          List.range' (covered + 1) (first + length - (covered + 1))).filter
            (fun seq => decide (covered < seq)) := by
        conv_lhs => rw [split_at, ← List.range'_append_1, start]
    _ = _ := by rw [List.filter_append, gone, kept, List.nil_append]

variable {room : ChatRoom}

theorem Shape.mem_le_headSeq (shape : Shape room) {row : LogRow} (stored : row ∈ room.rows) :
    row.seq ≤ room.headSeq := by
  have listed : row.seq ∈ room.rows.map LogRow.seq := List.mem_map_of_mem stored
  rw [shape.numbers, List.mem_range'_1] at listed
  have ordered := shape.floor_le_head
  omega

theorem Shape.seqFloor_lt_mem (shape : Shape room) {row : LogRow} (stored : row ∈ room.rows) :
    room.seqFloor < row.seq := by
  have listed : row.seq ∈ room.rows.map LogRow.seq := List.mem_map_of_mem stored
  rw [shape.numbers, List.mem_range'_1] at listed
  omega

theorem Shape.appendRow (shape : Shape room) (device batchId : String) (bytes : List UInt8) :
    Shape (room.appendRow device batchId bytes).1 := by
  obtain ⟨_, _, result⟩ | ⟨_, _, _, _, result⟩ | ⟨_, absent, result⟩ :=
    room.appendRow_cases device batchId bytes
  · rw [result]
    exact shape
  · rw [result]
    exact shape
  · rw [result]
    have ordered := shape.floor_le_head
    constructor
    · exact Nat.le_succ_of_le shape.floor_le_head
    · have longer : room.headSeq + 1 - room.seqFloor = room.headSeq - room.seqFloor + 1 := by
        omega
      have last : room.seqFloor + 1 + (room.headSeq - room.seqFloor) = room.headSeq + 1 := by
        omega
      simp only [List.map_append, List.map_cons, List.map_nil, shape.numbers, longer]
      rw [List.range'_1_concat, last]
    · rw [List.map_append, List.map_cons, List.map_nil]
      refine List.nodup_append.mpr ⟨shape.batches, List.nodup_singleton _, ?_⟩
      intro stored mem other other_eq same
      obtain ⟨row, in_log, rfl⟩ := List.mem_map.mp mem
      rw [List.mem_singleton] at other_eq
      exact absent row in_log (same.trans other_eq)
    · exact shape.checkpoint

theorem Shape.commitCheckpoint (shape : Shape room) (seqCovered : Nat)
    (frontier bytes : List UInt8) :
    Shape (room.commitCheckpoint seqCovered frontier bytes).1 := by
  obtain ⟨_, result⟩ | ⟨above, below, _, result⟩ :=
    room.commitCheckpoint_cases seqCovered frontier bytes
  · rw [result]
    exact shape
  · rw [result]
    constructor
    · exact below
    · have ordered := shape.floor_le_head
      have numbers : (room.rows.filter fun row => seqCovered < row.seq).map LogRow.seq =
          (room.rows.map LogRow.seq).filter (fun seq => decide (seqCovered < seq)) := by
        rw [List.filter_map]
        exact Eq.refl _
      have rest : room.seqFloor + 1 + (room.headSeq - room.seqFloor) - (seqCovered + 1) =
          room.headSeq - seqCovered := by omega
      simp only [numbers, shape.numbers]
      rw [range'_filter_lt (by omega) (by omega), rest]
    · exact shape.batches.sublist (List.filter_sublist.map _)
    · exact Eq.refl _

/-- Two stored rows of one batch are one row. -/
theorem Shape.row_unique (shape : Shape room) {first second : LogRow}
    (first_stored : first ∈ room.rows) (second_stored : second ∈ room.rows)
    (same : first.batchId = second.batchId) : first = second :=
  List.inj_on_of_nodup_map shape.batches first_stored second_stored same

end ChatRoom

/-- A log with the answers it has given to pushes, the newest first. -/
structure LogHistory where
  room : ChatRoom
  acks : List (String × Nat)

namespace LogHistory

open ChatRoom

def fresh : LogHistory :=
  { room := ChatRoom.initial, acks := [] }

/-- The number a batch was first acknowledged with. -/
def original (history : LogHistory) (batchId : String) : Option Nat :=
  (history.acks.reverse.find? fun ack => ack.1 == batchId).map Prod.snd

/-- The acknowledgement in an answer to a push. -/
def ackOf (batchId : String) : AppendOutcome → List (String × Nat)
  | .appended seq => [(batchId, seq)]
  | .dup seq => [(batchId, seq)]
  | .rejected _ => []

def call (history : LogHistory) : LogCall → LogHistory
  | .append device batchId bytes =>
      let (room, outcome) := history.room.appendRow device batchId bytes
      { room, acks := ackOf batchId outcome ++ history.acks }
  | .checkpoint seqCovered frontier bytes =>
      { history with room := (history.room.commitCheckpoint seqCovered frontier bytes).1 }

/-- Every call is answered. -/
def step : Step LogHistory LogCall := fun history event => some (history.call event)

/-- The log refuses the call. -/
def Refused (history : LogHistory) : LogCall → Prop
  | .append device batchId bytes =>
      ∃ error, (history.room.appendRow device batchId bytes).2 = .rejected error
  | .checkpoint seqCovered frontier bytes =>
      ∃ error, (history.room.commitCheckpoint seqCovered frontier bytes).2 = .rejected error

/-- A call moves the log forward, and not at all when it is refused. -/
structure Orderly (history : LogHistory) (event : LogCall) : Prop where
  forward : Forward history.room (history.call event).room
  refused : history.Refused event → (history.call event).room = history.room

/-- A push of a batch that was acknowledged before is answered with the number
of the first answer, and the log stays as it is. -/
def AnsweredAgain (history : LogHistory) : LogCall → Prop
  | .append device batchId bytes => ∀ seq, history.original batchId = some seq →
      history.room.appendRow device batchId bytes = (history.room, .dup seq)
  | .checkpoint _ _ _ => True

/-- A push of a batch that was acknowledged before passes the size checks and
comes before a checkpoint has covered the batch. -/
def NotCovered (history : LogHistory) : LogCall → Prop
  | .append _ batchId bytes => ∀ seq, history.original batchId = some seq →
      Fits bytes ∧ history.room.seqFloor < seq
  | .checkpoint _ _ _ => True

/-- The log's shape, and where the row of every acknowledged batch is. -/
structure Inv (history : LogHistory) : Prop where
  shape : Shape history.room
  /-- A stored batch was acknowledged. -/
  known : ∀ row ∈ history.room.rows, (history.original row.batchId).isSome
  /-- Above the floor a batch has the row it was first acknowledged with. -/
  kept : ∀ batchId seq, history.original batchId = some seq → history.room.seqFloor < seq →
    ∃ row ∈ history.room.rows, row.batchId = batchId ∧ row.seq = seq

theorem original_append (room : ChatRoom) (history : LogHistory) (batchId other : String)
    (seq : Nat) :
    original { room, acks := (batchId, seq) :: history.acks } other =
      (history.original other).or (if batchId = other then some seq else none) := by
  unfold original
  rw [List.reverse_cons, List.find?_append]
  cases history.acks.reverse.find? fun ack => ack.1 == other with
  | some _ => rfl
  | none =>
      by_cases same : batchId = other
      · simp [same]
      · simp [same]

theorem inv_fresh : Inv fresh :=
  ⟨shape_initial, nofun,
    fun _ _ acknowledged => absurd acknowledged (by simp [original, fresh])⟩

variable {history : LogHistory}

/-- An answer from the table adds nothing new about its batch. -/
theorem original_of_dup (inv : Inv history) {row : LogRow} (stored : row ∈ history.room.rows)
    (room : ChatRoom) (other : String) :
    original { room, acks := (row.batchId, row.seq) :: history.acks } other =
      history.original other := by
  rw [original_append]
  by_cases same : row.batchId = other
  · obtain ⟨seq, acknowledged⟩ := Option.isSome_iff_exists.mp (inv.known row stored)
    rw [same] at acknowledged
    rw [acknowledged, Option.some_or]
  · rw [if_neg same, Option.or_none]

theorem Inv.append (inv : Inv history) (device batchId : String) (bytes : List UInt8) :
    Inv (history.call (.append device batchId bytes)) := by
  have shape := inv.shape.appendRow device batchId bytes
  obtain ⟨_, _, result⟩ | ⟨_, row, stored, rfl, result⟩ | ⟨_, absent, result⟩ :=
    history.room.appendRow_cases device batchId bytes
  · simp only [call, result]
    exact inv
  · simp only [call, result, ackOf, List.singleton_append]
    have same := original_of_dup inv stored history.room
    constructor
    · exact inv.shape
    · intro other other_stored
      rw [same]
      exact inv.known other other_stored
    · intro other seq acknowledged above
      rw [same] at acknowledged
      exact inv.kept other seq acknowledged above
  · rw [result] at shape
    simp only [call, result, ackOf, List.singleton_append]
    constructor
    · exact shape
    · intro row stored
      rw [original_append]
      obtain old | new := List.mem_append.mp stored
      · obtain ⟨seq, acknowledged⟩ := Option.isSome_iff_exists.mp (inv.known row old)
        rw [acknowledged]
        rfl
      · rw [List.mem_singleton] at new
        subst new
        cases history.original batchId <;> simp
    · intro other seq acknowledged above
      rw [original_append] at acknowledged
      cases before : history.original other with
      | some first =>
          rw [before] at acknowledged
          obtain rfl := Option.some.inj acknowledged
          obtain ⟨row, stored, named, numbered⟩ := inv.kept other first before above
          exact ⟨row, List.mem_append_left _ stored, named, numbered⟩
      | none =>
          rw [before] at acknowledged
          by_cases same : batchId = other
          · rw [if_pos same] at acknowledged
            cases acknowledged
            exact ⟨_, List.mem_concat_self, same, Eq.refl _⟩
          · rw [if_neg same] at acknowledged
            cases acknowledged

theorem Inv.checkpoint (inv : Inv history) (seqCovered : Nat) (frontier bytes : List UInt8) :
    Inv (history.call (.checkpoint seqCovered frontier bytes)) := by
  have shape := inv.shape.commitCheckpoint seqCovered frontier bytes
  obtain ⟨_, result⟩ | ⟨above, _, _, result⟩ :=
    history.room.commitCheckpoint_cases seqCovered frontier bytes
  · simp only [call, result]
    exact inv
  · rw [result] at shape
    simp only [call, result]
    constructor
    · exact shape
    · intro row stored
      exact inv.known row (List.mem_of_mem_filter stored)
    · intro batchId seq acknowledged uncovered
      obtain ⟨row, stored, named, numbered⟩ :=
        inv.kept batchId seq acknowledged (above.trans_lt uncovered)
      refine ⟨row, List.mem_filter.mpr ⟨stored, ?_⟩, named, numbered⟩
      rw [decide_eq_true_eq, numbered]
      exact uncovered

theorem Inv.step {next : LogHistory} {event : LogCall} (inv : Inv history)
    (stepped : LogHistory.step history event = some next) : Inv next := by
  cases stepped
  cases event with
  | append device batchId bytes => exact inv.append device batchId bytes
  | checkpoint seqCovered frontier bytes => exact inv.checkpoint seqCovered frontier bytes

theorem orderly (history : LogHistory) (event : LogCall) : history.Orderly event := by
  cases event with
  | append device batchId bytes =>
      obtain ⟨_, _, result⟩ | ⟨_, _, _, _, result⟩ | ⟨_, _, result⟩ :=
        history.room.appendRow_cases device batchId bytes
      · constructor
        · simp only [call, result]
          exact Forward.refl _
        · intro _
          simp only [call, result]
      · constructor
        · simp only [call, result]
          exact Forward.refl _
        · intro _
          simp only [call, result]
      · constructor
        · simp only [call, result]
          exact ⟨le_rfl, Nat.le_succ _⟩
        · rintro ⟨error, refused⟩
          rw [result] at refused
          cases refused
  | checkpoint seqCovered frontier bytes =>
      obtain ⟨_, result⟩ | ⟨above, _, _, result⟩ :=
        history.room.commitCheckpoint_cases seqCovered frontier bytes
      · constructor
        · simp only [call, result]
          exact Forward.refl _
        · intro _
          simp only [call, result]
      · constructor
        · simp only [call, result]
          exact ⟨above, le_rfl⟩
        · rintro ⟨error, refused⟩
          rw [result] at refused
          cases refused

/-- The table answers a push with a number above the floor. -/
theorem Inv.answeredAgain_iff_notCovered (inv : Inv history) (event : LogCall) :
    history.AnsweredAgain event ↔ history.NotCovered event := by
  cases event with
  | checkpoint _ _ _ => exact Iff.rfl
  | append device batchId bytes =>
      refine forall_congr' fun seq => imp_congr_right fun acknowledged => ?_
      obtain ⟨unfit, _, result⟩ | ⟨fits, row, stored, named, result⟩ |
          ⟨fits, absent, result⟩ := history.room.appendRow_cases device batchId bytes
      · rw [result]
        constructor
        · intro same
          cases congrArg Prod.snd same
        · rintro ⟨fits, _⟩
          exact absurd fits unfit
      · rw [result]
        constructor
        · intro same
          have numbered : row.seq = seq := by
            have outcome := congrArg Prod.snd same
            injection outcome
          exact ⟨fits, numbered ▸ inv.shape.seqFloor_lt_mem stored⟩
        · rintro ⟨_, above⟩
          obtain ⟨kept, kept_stored, kept_named, numbered⟩ :=
            inv.kept batchId seq acknowledged above
          have same := inv.shape.row_unique stored kept_stored (named.trans kept_named.symm)
          rw [same, numbered]
      · rw [result]
        constructor
        · intro same
          have outcome := congrArg Prod.snd same
          cases outcome
        · rintro ⟨_, above⟩
          obtain ⟨kept, kept_stored, kept_named, _⟩ :=
            inv.kept batchId seq acknowledged above
          exact absurd kept_named (absent kept kept_stored)

/-- In every run the log keeps its shape and moves forward, and all pushes of
acknowledged batches get their first answer again exactly when each of them
comes before a checkpoint has covered its batch. -/
theorem shape_and_replay (calls : List LogCall) :
    EveryState step (fun history => Shape history.room) fresh calls ∧
    EveryStep step Orderly fresh calls ∧
    (EveryStep step AnsweredAgain fresh calls ↔ EveryStep step NotCovered fresh calls) := by
  refine ⟨?_, ?_, ?_⟩
  · exact everyState_of_invariant Inv.step Inv.shape inv_fresh calls
  · exact everyStep_of_forall orderly calls
  · exact everyStep_congr Inv.step (fun inv => inv.answeredAgain_iff_notCovered _) calls
      inv_fresh

/-- A batch that is pushed, covered and pushed again is stored twice. -/
theorem covered_batch_is_appended_again :
    let calls : List LogCall :=
      [.append "laptop" "batch" [1], .checkpoint 1 [7] [1], .append "laptop" "batch" [1]]
    (run step fresh calls).map (fun history => (history.room.rows, history.acks)) =
        some ([{ seq := 2, device := "laptop", batchId := "batch", bytes := [1] }],
          [("batch", 2), ("batch", 1)]) ∧
      ¬ EveryStep step AnsweredAgain fresh calls := by
  intro calls
  constructor
  · decide +kernel
  · intro answered
    have last := (answered.2 _ rfl).2 _ rfl
    have again := last.1 1 (by decide +kernel)
    have outcome := congrArg Prod.snd again
    revert outcome
    decide +kernel

end LogHistory

end Zeron.Chat
