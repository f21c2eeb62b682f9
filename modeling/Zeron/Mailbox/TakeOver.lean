import Zeron.Data.Move
import Zeron.Mailbox.QueueOrder

/-!
# The document's queue

The host keeps a queue of its own in the document.  What a command changes in the
queue is left as a patch beside its events, and the host applies it later; the
document's queue in turn is taken over by a command.
-/

namespace Zeron.Mailbox

open Data Transition

/-- `char::is_whitespace`. -/
def whitespace (char : Char) : Bool :=
  decide (0x09 ≤ char.toNat ∧ char.toNat ≤ 0x0D) ||
    decide (0x2000 ≤ char.toNat ∧ char.toNat ≤ 0x200A) ||
    decide (char.toNat ∈ [0x20, 0x85, 0xA0, 0x1680, 0x2028, 0x2029, 0x202F, 0x205F, 0x3000])

/-- `remove_queued`. -/
def removeQueued (rows : List QueuedMessage) (id : String) : List QueuedMessage :=
  rows.eraseP fun row => row.id == id

/-- `set_queued_text`: a blank text removes the row. -/
def setQueuedText (rows : List QueuedMessage) (id text : String) : List QueuedMessage :=
  if text.toList.all whitespace then removeQueued rows id
  else rows.replaceF fun row => if row.id = id then some { row with text } else none

/-- The rows that a reorder names are moved to the front in its order. -/
def moveQueued (rows : List QueuedMessage) (ids : List String) : List QueuedMessage :=
  moveAll QueuedMessage.id 0 (ids.filter fun id => rows.any fun row => row.id == id) rows

/-- What `apply_patches` does to the document for one patch. -/
def QueuePatch.apply (rows : List QueuedMessage) : QueuePatch → List QueuedMessage
  | .edit id text => setQueuedText rows id text
  | .cancel id => removeQueued rows id
  | .cancelMany ids => ids.foldl removeQueued rows
  | .reorder _ ids => moveQueued rows ids

/-- A thread and the document's queue. -/
structure Host where
  thread : Thread
  document : List QueuedMessage
  deriving DecidableEq

inductive HostEvent where
  /-- A patch is applied to the document; the host can crash before it deletes it. -/
  | applyPatch (deleted : Bool)
  | synchronize
  deriving DecidableEq

namespace Host

/-- One round of `apply_patches`. -/
def applyPatch (host : Host) (deleted : Bool) : Host :=
  match host.thread.patches with
  | [] => host
  | patch :: patches => {
      thread := if deleted then { host.thread with patches } else host.thread
      document := patch.apply host.document }

/-- `synchronize`. -/
def synchronize (host : Host) : Option Host :=
  if host.document = host.thread.intents then some host
  else (host.thread.step (.syncLoro host.document)).map fun thread => { host with thread }

def step (host : Host) : HostEvent → Option Host
  | .applyPatch deleted => some (host.applyPatch deleted)
  | .synchronize => host.synchronize

end Host

end Zeron.Mailbox

/-!
## Taking over the document's queue

The patch of a reorder arranges the document's rows in the order of the queue, and
the rows then give their runs the first numbers.
-/

namespace Zeron.Mailbox

open Data Transition
open Orchestration (RunStatus)

namespace Projection

variable {p q : Projection} {rows : List QueuedMessage}

/-! ## Taking over rows that are known -/

/-- The runs of the document's rows, numbered from a position on. -/
def takenOver (p : Projection) : Int → List QueuedMessage → List Run
  | _, [] => []
  | position, row :: rows =>
      match p.runOf row.id with
      | some run =>
          if run.status = .queued then
            { run with queuePosition := some position } :: p.takenOver (position + 1) rows
          else p.takenOver (position + 1) rows
      | none => p.takenOver (position + 1) rows

/-- Two threads with the same mail. -/
def SameMail (p q : Projection) : Prop :=
  ∀ id, ((p.messages.get id).bind Message.delegatedCompletion) =
    (q.messages.get id).bind Message.delegatedCompletion

theorem runOf_id {id : String} {run : Run} (found : p.runOf id = some run) :
    run ∈ p.runs.rows ∧ run.userMessageId = id := by
  exact ⟨mem_orderedRuns.mp (List.mem_of_find?_eq_some found), by simpa using List.find?_some found⟩

/-- A message event that keeps the mail. -/
theorem sameMail_put {message : Message} (mail : p.SameMail q)
    (kept : message.delegatedCompletion =
      (p.messages.get message.id).bind Message.delegatedCompletion) :
    p.SameMail { q with messages := q.messages.put message } := by
  intro id
  rw [Table.get_put]
  split
  · rename_i same
    rw [← same]
    exact kept.symm
  · exact mail id

/-- The text of a row that has changed. -/
theorem applyAll_textEvents (mail : p.SameMail q) (row : QueuedMessage) :
    ∃ messages, q.applyAll
        (((p.messages.get row.id).filter fun message => message.text != row.text).toList.map
          fun message => .messageUpdated { message with text := row.text }) =
        { q with messages } ∧ p.SameMail { q with messages } := by
  cases found : (p.messages.get row.id).filter fun message => message.text != row.text with
  | none => exact ⟨q.messages, rfl, mail⟩
  | some message =>
      obtain ⟨stored, _⟩ := Option.filter_eq_some_iff.mp found
      refine ⟨q.messages.put { message with text := row.text }, rfl, sameMail_put mail ?_⟩
      rw [Table.key_of_get stored, stored]
      rfl

/-- Rows whose runs are known only move their runs. -/
theorem applyAll_syncRows (position ordinal : Int)
    (known : ∀ row ∈ rows, (p.runOf row.id).isSome)
    (stored : ∀ row ∈ rows, ∀ run, p.runOf row.id = some run → run ∈ q.runs.rows)
    (distinct : (rows.map QueuedMessage.id).Nodup) (mail : p.SameMail q) :
    ∃ messages, q.applyAll (p.syncRows position ordinal rows) =
        { q with runs := q.runs.putAll (p.takenOver position rows), messages } ∧
      p.SameMail { q with messages } := by
  induction rows generalizing q position with
  | nil => exact ⟨q.messages, rfl, mail⟩
  | cons row rows ih =>
      obtain ⟨run, found⟩ := Option.isSome_iff_exists.mp (known row List.mem_cons_self)
      rw [List.map_cons, List.nodup_cons] at distinct
      have known_rest := fun other listed => known other (List.mem_cons_of_mem row listed)
      have stored_rest := fun other listed => stored other (List.mem_cons_of_mem row listed)
      unfold syncRows takenOver
      simp only [found]
      split
      · obtain ⟨messages, texts, mail'⟩ := applyAll_textEvents mail row
        rw [applyAll_append, applyAll_append, texts,
          applyAll_positionEvent { q with messages } (stored row List.mem_cons_self run found)]
        refine ih _ known_rest (fun other listed run' found' => ?_) distinct.2 mail'
        refine Table.mem_put_iff.mpr (.inr ⟨stored_rest other listed run' found', ?_⟩)
        intro same
        have equal : run' = run := Table.eq_of_mem (stored_rest other listed run' found')
          (stored row List.mem_cons_self run found) same
        have same_row : other.id = row.id := by
          rw [← (runOf_id found').2, equal, (runOf_id found).2]
        exact distinct.1 (same_row ▸ List.mem_map_of_mem listed)
      · exact ih _ known_rest stored_rest distinct.2 mail

/-! ## The document's part of the queue -/

/-- The document and the rows know each other: every document row has a run, and no
run shares the message of one that is queued. -/
structure Linked (p : Projection) (document : List QueuedMessage) : Prop where
  distinct : (document.map QueuedMessage.id).Nodup
  known : ∀ row ∈ document, ∃ run ∈ p.runs.rows, run.userMessageId = row.id
  named : ∀ run ∈ p.queued, ∀ other ∈ p.runs.rows,
    other.userMessageId = run.userMessageId → other = run

theorem isSome_runOf {id : String} :
    (p.runOf id).isSome = true ↔ ∃ run ∈ p.runs.rows, run.userMessageId = id := by
  simp [runOf]

variable {document : List QueuedMessage}

theorem Linked.runOf_queued (linked : p.Linked document) {run : Run} (queued : run ∈ p.queued) :
    p.runOf run.userMessageId = some run := by
  have known := isSome_runOf.mpr ⟨run, (mem_queued.mp queued).1, rfl⟩
  obtain ⟨other, found⟩ := Option.isSome_iff_exists.mp known
  rw [found, linked.named run queued other (runOf_id found).1 (runOf_id found).2]

/-- The run's message is a row of the document. -/
def backed (document : List QueuedMessage) (run : Run) : Bool :=
  document.any fun row => row.id == run.userMessageId

/-- Rows that stand for queued runs give them the numbers from a position on. -/
theorem takenOver_append (linked : p.Linked document) (position : Int) {rest : List QueuedMessage}
    {runs : List Run} (same : rows.map QueuedMessage.id = runs.map Run.userMessageId)
    (queued : ∀ run ∈ runs, run ∈ p.queued) :
    p.takenOver position (rows ++ rest) =
      positioned position runs ++ p.takenOver (position + runs.length) rest := by
  induction runs generalizing rows position with
  | nil =>
      obtain rfl := List.map_eq_nil_iff.mp same
      simp [positioned]
  | cons run runs ih =>
      cases rows with
      | nil => cases same
      | cons row rows =>
          obtain ⟨row_eq, rows_eq⟩ := List.cons.inj same
          have listed := queued run List.mem_cons_self
          have found : p.runOf row.id = some run := by
            rw [row_eq]
            exact linked.runOf_queued listed
          have length : position + ((run :: runs).length : Int) = position + 1 + runs.length := by
            rw [List.length_cons]
            push_cast
            omega
          rw [List.cons_append, length, positioned_cons, List.cons_append,
            ← ih _ rows_eq fun other later => queued other (List.mem_cons_of_mem _ later)]
          conv_lhs => unfold takenOver
          simp only [found]
          rw [if_pos (mem_queued.mp listed).2]

/-- Rows whose runs have left the queue move nothing. -/
theorem takenOver_of_gone (gone : ∀ row ∈ rows, ∀ run ∈ p.queued, run.userMessageId ≠ row.id)
    (position : Int) : p.takenOver position rows = [] := by
  induction rows generalizing position with
  | nil => rfl
  | cons row rows ih =>
      have rest := ih (fun other listed => gone other (List.mem_cons_of_mem _ listed))
        (position + 1)
      unfold takenOver
      cases found : p.runOf row.id with
      | none => exact rest
      | some run =>
          have left : run.status ≠ .queued := by
            intro queued
            exact gone row List.mem_cons_self run (mem_queued.mpr ⟨(runOf_id found).1, queued⟩)
              (runOf_id found).2
          simp only [if_neg left]
          exact rest

/-- No row that the document lacks is shown before one that it has. -/
def DocumentFirst (document : List QueuedMessage) (runs : List Run) : Prop :=
  runs.Pairwise fun first second => backed document second = true → backed document first = true

/-- The positions of the rows that the document lacks are all above the number of the
others exactly when those come first. -/
theorem documentFirst_iff (position : Int) {runs : List Run} :
    DocumentFirst document runs ↔
      ∀ run ∈ positioned position runs, backed document run = false →
        ∃ place, run.queuePosition = some place ∧
          position + (runs.countP (backed document)) ≤ place := by
  unfold DocumentFirst
  induction runs generalizing position with
  | nil => simp [positioned]
  | cons run runs ih =>
      rw [List.pairwise_cons, positioned_cons, List.forall_mem_cons, ih (position + 1)]
      have own : backed document { run with queuePosition := some position } =
          backed document run := rfl
      rw [own]
      cases here : backed document run with
      | true =>
          rw [List.countP_cons_of_pos here]
          have shift : position + ((runs.countP (backed document) + 1 : Nat) : Int) =
              position + 1 + runs.countP (backed document) := by
            push_cast
            omega
          rw [shift]
          simp
      | false =>
          rw [List.countP_cons_of_neg (by simp [here])]
          constructor
          · rintro ⟨none_backed, _⟩
            have zero : runs.countP (backed document) = 0 :=
              List.countP_eq_zero.mpr fun other listed held =>
                Bool.false_ne_true (none_backed other listed held)
            refine ⟨fun _ => ⟨position, rfl, by omega⟩, fun other listed _ => ?_⟩
            obtain ⟨old, _, place, above, _, rfl⟩ := exists_of_mem_positioned listed
            exact ⟨place, rfl, by omega⟩
          · rintro ⟨head, _⟩
            obtain ⟨place, place_eq, above⟩ := head rfl
            cases place_eq
            have zero : runs.countP (backed document) = 0 := by omega
            have none_backed := List.countP_eq_zero.mp zero
            refine ⟨fun other listed held => absurd held (none_backed other listed), ?_⟩
            intro other listed _
            obtain ⟨old, _, place, above, _, rfl⟩ := exists_of_mem_positioned listed
            exact ⟨place, rfl, by omega⟩

/-- Numbering and selecting the document's runs commute when they come first. -/
theorem filter_positioned {runs : List Run} (first : DocumentFirst document runs) (position : Int) :
    (positioned position runs).filter (backed document) =
      positioned position (runs.filter (backed document)) := by
  induction runs generalizing position with
  | nil => rfl
  | cons run runs ih =>
      obtain ⟨head, tail⟩ := List.pairwise_cons.mp first
      have own : backed document { run with queuePosition := some position } =
          backed document run := rfl
      rw [positioned_cons]
      cases here : backed document run with
      | true =>
          rw [List.filter_cons_of_pos (own.trans here), List.filter_cons_of_pos here,
            positioned_cons, ih tail]
      | false =>
          have none_backed : runs.filter (backed document) = [] :=
            List.filter_eq_nil_iff.mpr fun other listed held =>
              Bool.false_ne_true (here.symm.trans (head other listed held))
          have rest := ih tail (position + 1)
          rw [List.filter_cons_of_neg (by rw [own, here]; decide),
            List.filter_cons_of_neg (by rw [here]; decide), rest, none_backed]
          rfl

/-! ## Taking over the document after a reorder -/

section Taken

variable {order : List Run} {before after : List QueuedMessage}

theorem backed_iff {run : Run} :
    backed document run = true ↔ run.userMessageId ∈ document.map QueuedMessage.id := by
  simp [backed]

/-- The document after the patch of a reorder: the rows of the queue in its order, and
the others behind. -/
structure Arranged (order : List Run) (before after : List QueuedMessage) : Prop where
  exists_picked : ∃ picked,
    picked.map QueuedMessage.id = (order.filter (backed before)).map Run.userMessageId ∧
      after = picked ++ before.filter fun row => decide (row.id ∉ picked.map QueuedMessage.id)
  perm : after.Perm before

theorem backed_of_perm (perm : after.Perm before) : backed after = backed before := by
  funext run
  rw [Bool.eq_iff_iff, backed_iff, backed_iff]
  exact (perm.map QueuedMessage.id).mem_iff

theorem filter_messages (document : List QueuedMessage) (order : List Run) :
    ((order.map Run.userMessageId).filter fun id => document.any fun row => row.id == id) =
      (order.filter (backed document)).map Run.userMessageId :=
  List.filter_map

section

variable (distinct : (before.map QueuedMessage.id).Nodup) (order_distinct : (order.map Run.userMessageId).Nodup)
include distinct order_distinct

/-- A patch puts the rows of the queue to the front, in its order. -/
theorem moveQueued_of_picked {picked : List QueuedMessage}
    (ids : picked.map QueuedMessage.id = (order.filter (backed before)).map Run.userMessageId)
    (listed : ∀ row ∈ picked, row ∈ before) :
    moveQueued before (order.map Run.userMessageId) =
      picked ++ before.filter fun row => decide (row.id ∉ picked.map QueuedMessage.id) := by
  have picked_distinct : (picked.map QueuedMessage.id).Nodup := by
    rw [ids]
    exact (List.filter_sublist.map _).nodup order_distinct
  unfold moveQueued
  rw [filter_messages, ← ids]
  exact moveAll_zero distinct picked_distinct listed

theorem arranged_moveQueued :
    Arranged order before (moveQueued before (order.map Run.userMessageId)) := by
  have known : ∀ id ∈ (order.filter (backed before)).map Run.userMessageId,
      id ∈ before.map QueuedMessage.id := by
    intro id member
    obtain ⟨run, run_listed, rfl⟩ := List.mem_map.mp member
    exact backed_iff.mp (List.mem_filter.mp run_listed).2
  obtain ⟨picked, ids, listed⟩ := exists_rows_of_keys known
  have moved := moveQueued_of_picked distinct order_distinct ids listed
  refine ⟨⟨picked, ids, moved⟩, ?_⟩
  rw [moved]
  apply perm_picked distinct _ listed
  rw [ids]
  exact (List.filter_sublist.map _).nodup order_distinct

/-- Applying the patch once more changes nothing. -/
theorem moveQueued_of_arranged (arranged : Arranged order before after) :
    moveQueued after (order.map Run.userMessageId) = after := by
  obtain ⟨picked, ids, shape⟩ := arranged.exists_picked
  have after_distinct : (after.map QueuedMessage.id).Nodup :=
    (arranged.perm.map _).nodup_iff.mpr distinct
  have listed : ∀ row ∈ picked, row ∈ after := by
    intro row member
    rw [shape]
    exact List.mem_append_left _ member
  rw [moveQueued_of_picked after_distinct order_distinct
    (by rw [backed_of_perm arranged.perm, ids]) listed]
  have rest : after.filter (fun row => decide (row.id ∉ picked.map QueuedMessage.id)) =
      before.filter fun row => decide (row.id ∉ picked.map QueuedMessage.id) := by
    have none_picked : picked.filter
        (fun row => decide (row.id ∉ picked.map QueuedMessage.id)) = [] := by
      rw [List.filter_eq_nil_iff]
      intro row member outside
      exact of_decide_eq_true outside (List.mem_map_of_mem member)
    rw [shape, List.filter_append, none_picked]
    simp
  rw [rest]
  exact shape.symm

end

/-- A row behind the queue's rows belongs to no run of the queue. -/
theorem outside_of_rest {picked : List QueuedMessage} {row : QueuedMessage} {run : Run}
    (ids : picked.map QueuedMessage.id = (order.filter (backed before)).map Run.userMessageId)
    (rest : row ∈ before.filter fun row => decide (row.id ∉ picked.map QueuedMessage.id))
    (listed : run ∈ order) : run.userMessageId ≠ row.id := by
  intro same
  obtain ⟨stored, outside⟩ := List.mem_filter.mp rest
  apply of_decide_eq_true outside
  rw [ids, ← same]
  refine List.mem_map_of_mem (List.mem_filter.mpr ⟨listed, ?_⟩)
  rw [backed_iff, same]
  exact List.mem_map_of_mem stored

/-- In the document the rows of the queue have the order of the reorder. -/
theorem Arranged.same_order (arranged : Arranged order before after) :
    (after.map QueuedMessage.id).filter (fun id => decide (id ∈ order.map Run.userMessageId)) =
      (order.map Run.userMessageId).filter
        fun id => decide (id ∈ after.map QueuedMessage.id) := by
  obtain ⟨picked, ids, shape⟩ := arranged.exists_picked
  have kept : (order.map Run.userMessageId).filter
      (fun id => decide (id ∈ after.map QueuedMessage.id)) = picked.map QueuedMessage.id := by
    have same_test : (fun id => decide (id ∈ after.map QueuedMessage.id)) =
        fun id => before.any fun row => row.id == id := by
      funext id
      rw [Bool.eq_iff_iff, decide_eq_true_eq, (arranged.perm.map QueuedMessage.id).mem_iff]
      simp
    rw [same_test, filter_messages, ids]
  have own : (picked.map QueuedMessage.id).filter
      (fun id => decide (id ∈ order.map Run.userMessageId)) = picked.map QueuedMessage.id := by
    rw [List.filter_eq_self, ids]
    intro id member
    exact decide_eq_true ((List.filter_sublist.map Run.userMessageId).mem member)
  have others : ((before.filter fun row =>
      decide (row.id ∉ picked.map QueuedMessage.id)).map QueuedMessage.id).filter
        (fun id => decide (id ∈ order.map Run.userMessageId)) = [] := by
    rw [List.filter_eq_nil_iff]
    intro id member
    obtain ⟨row, rest, rfl⟩ := List.mem_map.mp member
    intro listed
    obtain ⟨run, run_listed, same⟩ := List.mem_map.mp (of_decide_eq_true listed)
    exact outside_of_rest ids rest run_listed same
  rw [kept]
  conv_lhs => rw [shape, List.map_append, List.filter_append, own, others, List.append_nil]

/-- Taking over an arranged document numbers its runs in the order of the queue. -/
theorem takenOver_arranged (linked : p.Linked before) (arranged : Arranged order before after)
    (shown : p.queued.map Run.userMessageId = order.map Run.userMessageId) :
    p.takenOver 1 after = positioned 1 (p.queued.filter (backed before)) := by
  obtain ⟨picked, ids, shape⟩ := arranged.exists_picked
  have own_ids : picked.map QueuedMessage.id =
      (p.queued.filter (backed before)).map Run.userMessageId := by
    rw [ids, ← filter_messages, ← shown, filter_messages]
  rw [shape, takenOver_append linked 1 own_ids fun run listed => (List.mem_filter.mp listed).1,
    takenOver_of_gone (fun row rest run listed => outside_of_rest own_ids rest listed),
    List.append_nil]

end Taken

end Projection

end Zeron.Mailbox
