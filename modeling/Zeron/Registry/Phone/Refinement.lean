import Zeron.Registry.Phone.Mirror

/-!
# The phone's replica against the engine's

The two replicas under one device id get the same frames, the same writes and the same
readings of the clock.  The system takes an event for both; where rows are walked for
their seeds, each map comes in an order of its own.
-/

namespace Zeron.Registry.Phone

open Zeron.Data
open Zeron.Wire
open Zeron.Transition

/-- A replica of each kind. -/
structure Replicas where
  phone : RegistryDoc
  doc : Registry.RegistryDoc

inductive Event where
  /-- A state frame; the two maps are walked in these orders. -/
  | state (now : Nat → Nat) (frame : StateFrame) (phoneWalk walk : List RegistryRow)
  | rows (seq : Nat) (rows : List RegistryRow)
  | ack (batch : String)
  | write (now : Nat → Nat) (kind id : String) (op : OpKind) (set : FieldMap Json)
  | deleteRows (now : Nat → Nat) (keys : List RowKey)
  | takePushable
  | markDisconnected
  /-- Saved and loaded; or a snapshot from before the last epoch. -/
  | reload (outdated : Bool)

namespace Replicas

/-- Both replicas as new. -/
def start (deviceId : String) : Replicas :=
  ⟨.new deviceId, .new deviceId⟩

/-- The event on both replicas. -/
def step (unicode : Unicode) : Transition.Step Replicas Event
  | ⟨phone, doc⟩, .state now frame phoneWalk walk =>
      if phoneWalk.Perm (values phone.authoritative) ∧ walk.Perm (values doc.authoritative) then
        some ⟨(phone.applyState unicode now phoneWalk frame).1, doc.applyStateAlong now walk frame⟩
      else none
  | ⟨phone, doc⟩, .rows seq rows =>
      some ⟨(phone.applyRows unicode seq rows).1, (doc.applyRows seq rows).1⟩
  | ⟨phone, doc⟩, .ack batch => some ⟨phone.ackBatch unicode batch, doc.ackBatch batch⟩
  | ⟨phone, doc⟩, .write now kind id op set =>
      some ⟨phone.write now kind id op set, doc.write now kind id op set⟩
  | ⟨phone, doc⟩, .deleteRows now keys =>
      some ⟨phone.deleteRows now keys, doc.deleteRowOps now keys⟩
  | ⟨phone, doc⟩, .takePushable => some ⟨phone.takePushable.1, doc.takePushable.1⟩
  | ⟨phone, doc⟩, .markDisconnected => some ⟨phone.markDisconnected, doc.markDisconnected⟩
  | ⟨phone, doc⟩, .reload outdated =>
      match RegistryDoc.ofData unicode
          { phone.toData with resyncEpoch := if outdated then none else phone.toData.resyncEpoch }
          phone.deviceId with
      | .ok loaded => some ⟨loaded, doc.reload outdated⟩
      | .error _ => none

/-- Names and clocks are ASCII, no more rows are deleted at once than a batch holds, and
the seeds of a state frame fit into one batch or are cut alike. -/
def Within (unicode : Unicode) (pair : Replicas) : Event → Prop
  | .state _ frame phoneWalk walk =>
      (∀ row ∈ frame.rows, RowAscii row) ∧
        ((pair.doc.reseeded walk frame).length ≤ Registry.RegistryDoc.maxOpsPerBatch ∨
          SameCuts (pair.phone.seeds unicode phoneWalk frame)
            ((pair.doc.reseeded walk frame).map Registry.rowToSeedOp))
  | .rows _ rows => ∀ row ∈ rows, RowAscii row
  | .ack batch => IsAscii batch
  | .write _ kind id _ set => IsAscii kind ∧ IsAscii id ∧ ∀ field ∈ set.keys, IsAscii field
  | .deleteRows _ keys =>
      (∀ key ∈ keys, IsAscii key.kind ∧ IsAscii key.id) ∧
        keys.length ≤ Registry.RegistryDoc.maxOpsPerBatch
  | .takePushable | .markDisconnected | .reload _ => True

/-- What the two replicas have in common. -/
structure Agree (unicode : Unicode) (pair : Replicas) : Prop where
  authoritative : pair.phone.authoritative = pair.doc.authoritative
  cursor : pair.phone.cursor = pair.doc.cursor
  gcFloor : pair.phone.gcFloor = pair.doc.gcFloor
  clock : pair.phone.clock = pair.doc.clock
  overlay : ∀ kind id, IsAscii kind → IsAscii id →
    pair.phone.overlayRow unicode kind id = pair.doc.overlayRow ⟨kind, id⟩
  overlays : ∀ kind, IsAscii kind →
    (pair.phone.overlayRows unicode kind).Perm (pair.doc.overlayRows kind)
  /-- The same batches with the same operations, up to the order of a batch's seeds. -/
  pending : List.Forall₂ SameBatch pair.phone.pending pair.doc.pending
  small : ∀ batch ∈ pair.phone.pending, batch.ops.length ≤ RegistryRoom.maxBatchOps

/-- The invariant of the system. -/
def InStep (pair : Replicas) : Prop :=
  Joined pair.phone pair.doc

theorem inStep_start {deviceId : String} (ascii : IsAscii deviceId) : (start deviceId).InStep :=
  ⟨⟨rfl, rfl, rfl, rfl, rfl, .nil⟩,
    ⟨ascii, by simp [start, Registry.RegistryDoc.new], by simp [start, Registry.RegistryDoc.new]⟩⟩

variable {unicode : Unicode}

/-- Every event within the bounds keeps the replicas joined. -/
theorem InStep.step {pair next : Replicas} {event : Event} (joined : pair.InStep)
    (within : Within unicode pair event) (stepped : step unicode pair event = some next) :
    next.InStep := by
  rcases pair with ⟨phone, doc⟩
  cases event with
  | state now frame phoneWalk walk =>
      rcases within with ⟨ascii, cuts⟩
      rw [Replicas.step] at stepped
      split at stepped
      · rename_i walks
        cases stepped
        exact joined.applyState unicode now ascii walks.1 walks.2 cuts
      · cases stepped
  | rows seq rows =>
      cases stepped
      exact joined.applyRows unicode seq within
  | ack batch =>
      cases stepped
      exact joined.ackBatch unicode within
  | write now kind id op set =>
      rcases within with ⟨kind_ascii, id_ascii, names⟩
      cases stepped
      exact joined.write now op kind_ascii id_ascii (namesAscii_iff.mpr names)
  | deleteRows now keys =>
      cases stepped
      exact joined.deleteRows now within.1 within.2
  | takePushable =>
      cases stepped
      exact joined.flagged true
  | markDisconnected =>
      cases stepped
      exact joined.flagged false
  | reload outdated =>
      rcases joined.reload unicode outdated with ⟨loaded, read, rejoined⟩
      rw [Replicas.step, read] at stepped
      cases stepped
      exact rejoined

theorem InStep.agree {pair : Replicas} (joined : pair.InStep) : Agree unicode pair where
  authoritative := joined.mirrors.authoritative
  cursor := joined.mirrors.serverSeq
  gcFloor := joined.mirrors.gcFloor
  clock := joined.mirrors.clock
  overlay _ _ kind id := joined.overlayRow_eq unicode kind id
  overlays _ kind := joined.perm_overlayRows unicode kind
  pending := joined.mirrors.pending
  small := by
    intro batch listed
    rcases exists_sameBatch joined.mirrors.pending listed with ⟨theirs, member, same⟩
    rw [same.ops.perm.length_eq]
    exact (joined.regular.batches theirs member).2.2.trans (by decide)

/-- On ASCII rows the merge is the engine's, and validation is the room's where an operation
is plain and its size is not in dispute. -/
structure Conforms (unicode : Unicode) : Prop where
  applyOp : ∀ (row : Option RegistryRow) (op : RowOp), (∀ held ∈ row, RowAscii held) →
    Edge.validateOp (encodeOp op) = none →
      Phone.applyOp unicode row op = Registry.applyOp row op
  maxClock : ∀ row, RowAscii row → Phone.maxClock unicode row = row.maxClock
  rowToSeedOp : ∀ row, RowAscii row →
    Phone.rowToSeedOp unicode row = Registry.rowToSeedOp row
  /-- The phone counts each slash twice. -/
  validateOp : ∀ op, (∀ text ∈ opTexts op, Plain text) →
    bytes (encoded op) ≤ registryMaxOpBytes ∨ Edge.maxOpBytes < (encodeOp op).byteLength →
      (Phone.validateOp unicode op = none ↔ Edge.validateOp (encodeOp op) = none)

theorem conforms (unicode : Unicode) : Conforms unicode where
  applyOp _ _ row_ascii valid := (applyOp_eq unicode row_ascii (ascii_of_valid valid)).1
  maxClock _ ascii := maxClock_eq unicode ascii
  rowToSeedOp _ ascii := rowToSeedOp_eq unicode ascii
  validateOp op plain size := by
    constructor
    · exact room_of_valid unicode plain
    · intro valid
      rcases size with small | large
      · exact valid_of_room unicode valid small
      · have fits := ((room_validateOp_iff op).mp valid).2.2.2.2.2
        omega

/-- Within the bounds the phone's replica shows what the engine's shows and queues the same
batches, in every state of every run; and the merge and the validation agree. -/
theorem phone_refines_replica (unicode : Unicode) {deviceId : String} (ascii : IsAscii deviceId)
    {events : List Event} (within : EveryStep (step unicode) (Within unicode) (start deviceId) events) :
    EveryState (step unicode) (Agree unicode) (start deviceId) events ∧ Conforms unicode :=
  ⟨everyState_of_everyStep InStep.step InStep.agree (inStep_start ascii) within, conforms unicode⟩

/-- A list of events within the bounds: rows are seeded in two orders, pushed, acknowledged,
deleted, saved and loaded. -/
theorem phone_refines_replica_through_reset :
    let row (id : String) : RegistryRow :=
      { kind := "chats", id, seq := 2, deleted := false, delHlc := none
        fields := .ofList [("title", .str id)] compare
        clocks := .ofList [("title", Registry.encodeHlc 1 0 "laptop")] compare }
    let events : List Event := [.state (fun _ => 5) ⟨2, true, 0, [row "c1", row "c2"]⟩ [] [],
      .write (fun _ => 5) "chats" "c1" .update (.ofList [("title", .str "plan")] compare),
      .state (fun _ => 6) ⟨1, true, 0, []⟩ [row "c2", row "c1"] [row "c1", row "c2"],
      .takePushable, .ack "b-0000000000005-000001-phone", .rows 2 [row "c1"], .markDisconnected,
      .deleteRows (fun _ => 7) [⟨"chats", "c1"⟩, ⟨"sessions", "c1"⟩], .reload false]
    (EveryState (step .ascii) (Agree .ascii) (start "phone") events ∧ Conforms .ascii) ∧
      (run (step .ascii) (start "phone") events).isSome = true := by
  intro row events
  let check (pair : Replicas) : Event → Bool
    | .state _ frame _ walk =>
        decide ((∀ row ∈ frame.rows, RowAscii row) ∧
          (pair.doc.reseeded walk frame).length ≤ Registry.RegistryDoc.maxOpsPerBatch)
    | .rows _ rows => decide (∀ row ∈ rows, RowAscii row)
    | .ack batch => decide (IsAscii batch)
    | .write _ kind id _ set =>
        decide (IsAscii kind ∧ IsAscii id ∧ ∀ field ∈ set.keys, IsAscii field)
    | .deleteRows _ keys =>
        decide ((∀ key ∈ keys, IsAscii key.kind ∧ IsAscii key.id) ∧
          keys.length ≤ Registry.RegistryDoc.maxOpsPerBatch)
    | _ => true
  have sound : ∀ pair event, check pair event = true → Within .ascii pair event := by
    intro pair event checked
    cases event with
    | state now frame phoneWalk walk =>
        rcases of_decide_eq_true checked with ⟨ascii, few⟩
        exact ⟨ascii, .inl few⟩
    | takePushable | markDisconnected | reload outdated => trivial
    | _ =>
        have holds := of_decide_eq_true checked
        exact holds
  exact ⟨phone_refines_replica .ascii (by decide)
    (everyStep_of_checkSteps check sound (by decide +kernel)), by decide +kernel⟩

/-! ## Where they part -/

/-- Slashes are printed as they are at the edge, and with a backslash each on the phone. -/
theorem bytes_encoded (op : RowOp) :
    bytes (encoded op) = (encodeOp op).byteLength + (encodeOp op).stringify.count '/' := by
  rw [Json.byteLength_eq, encoded]
  induction (encodeOp op).stringify with
  | nil => rfl
  | cons char rest ih =>
      rw [List.flatMap_cons, bytes_append, List.count_cons]
      by_cases slash : char = '/'
      · subst slash
        simp only [bytes_cons, bytes_nil, if_true, beq_self_eq_true]
        have backslash : Char.utf8Size '\\' = 1 := by decide
        omega
      · simp only [slash, bytes_cons, bytes_nil, if_false, beq_iff_eq]
        omega

theorem count_quote_slashes (length : Nat) :
    (Json.quote (String.ofList (List.replicate length '/'))).count '/' = length := by
  have plain : Json.escapeChar '/' = ['/'] := by decide
  have marks : ['"'].count '/' = 0 := by decide
  rw [Json.quote, String.toList_ofList, List.flatMap_replicate, plain,
    List.flatten_replicate_singleton, List.count_append, List.count_append, List.count_replicate_self]
  omega

theorem count_namedSpaceOp (id name : String) :
    (Json.quote name).count '/' ≤ (encodeOp (namedSpaceOp id name)).stringify.count '/' := by
  rw [encodeOp_namedSpaceOp]
  simp only [Json.stringify, Json.stringifyMembers, List.count_append]
  omega

/-- A space under a long name of slashes is too large for the phone alone. -/
theorem validateOp_slashes :
    validateOp .ascii (namedSpaceOp "s1" (String.ofList (List.replicate 9000 '/'))) ≠ none ∧
      Edge.validateOp (encodeOp (namedSpaceOp "s1" (String.ofList (List.replicate 9000 '/')))) =
        none := by
  have slashes := count_quote_slashes 9000
  have name : bytes (Json.quote (String.ofList (List.replicate 9000 '/'))) = 9002 := by
    rw [Json.bytes_quote_replicate (by decide)]
    decide
  have id : bytes (Json.quote "s1") = 4 := by decide
  generalize String.ofList (List.replicate 9000 '/') = long at slashes name ⊢
  have printed := count_namedSpaceOp "s1" long
  have size := byteLength_namedSpaceOp "s1" long
  have around : 6 ≤ (encodeOp (namedSpaceOp "" "")).byteLength := by decide +kernel
  constructor
  · intro valid
    have small := ((validateOp_eq_none_iff .ascii _).mp valid).2.2.2.2.2
    rw [bytes_encoded, registryMaxOpBytes] at small
    omega
  · exact validateOp_namedSpaceOp (by decide) (by omega)

/-- A chat as the laptop has left it. -/
def chatRow (id : String) : RegistryRow :=
  { kind := "chats", id, seq := 2, deleted := false, delHlc := none
    fields := .ofList [("title", .str id)] compare
    clocks := .ofList [("title", Registry.encodeHlc 1 0 "laptop")] compare }

/-- More rows than a batch holds. -/
def manyRows : List RegistryRow :=
  (List.range 401).map fun n =>
    .blank "c" (String.ofList [Char.ofNat (65 + n / 26), Char.ofNat (65 + n % 26)])

/-- A frame without rows, for which the two maps are walked in opposite orders, and then the
acknowledgement of a batch. -/
def emptied (pair : Replicas) (batch : String) : Replicas where
  phone := (pair.phone.applyState .ascii (fun _ => 1) (values pair.doc.authoritative).reverse
    ⟨2, true, 0, []⟩).1.ackBatch .ascii batch
  doc := (pair.doc.applyStateAlong (fun _ => 1) (values pair.doc.authoritative)
    ⟨2, true, 0, []⟩).ackBatch batch

theorem run_emptied {pair : Replicas} (joined : pair.InStep) (batch : String) :
    run (step .ascii) pair
      [.state (fun _ => 1) ⟨2, true, 0, []⟩ (values pair.doc.authoritative).reverse
        (values pair.doc.authoritative), .ack batch] = some (pair.emptied batch) := by
  have walks : (values pair.doc.authoritative).reverse.Perm (values pair.phone.authoritative) := by
    rw [joined.mirrors.authoritative]
    exact List.reverse_perm _
  refine run_cons_eq_some_iff.mpr ⟨_, if_pos ⟨walks, .refl _⟩, ?_⟩
  rfl

/-- The first batch is without another row on each side, so its acknowledgement leaves
another row in sight. -/
theorem overlay_parts_from_replica :
    ∃ events final, run (step .ascii) (start "phone") events = some final ∧
      final.phone.overlayRow .ascii "c" "AA" ≠ final.doc.overlayRow ⟨"c", "AA"⟩ := by
  have ascii : ∀ row ∈ manyRows, RowAscii row := by
    have ids : ∀ n ∈ List.range 401,
        IsAscii (String.ofList [Char.ofNat (65 + n / 26), Char.ofNat (65 + n % 26)]) := by
      decide +kernel
    have kind : IsAscii "c" := by decide
    rw [manyRows, List.forall_mem_map]
    exact fun n listed => rowAscii_bare kind (ids n listed) (by rintro _ ⟨⟩) rfl rfl
  have within : Within .ascii (start "phone") (.state (fun _ => 1) ⟨2, true, 0, manyRows⟩ [] []) :=
    ⟨ascii, .inl ((Registry.RegistryDoc.reseeded_sublist _ _ _).length_le.trans (Nat.zero_le _))⟩
  have parts : (step .ascii (start "phone") (.state (fun _ => 1) ⟨2, true, 0, manyRows⟩ [] [])).any
      (fun pair =>
        decide ((pair.emptied "b-0000000000001-000000-phone").phone.overlayRow .ascii "c" "AA" ≠
          (pair.emptied "b-0000000000001-000000-phone").doc.overlayRow ⟨"c", "AA"⟩)) = true := by
    decide +kernel
  rcases (Option.any_eq_true _ _).mp parts with ⟨pair, stepped, differ⟩
  have joined : pair.InStep := (inStep_start (by decide)).step within stepped
  exact ⟨_, pair.emptied "b-0000000000001-000000-phone",
    run_cons_eq_some_iff.mpr ⟨pair, stepped, run_emptied joined _⟩, of_decide_eq_true differ⟩

/-- Deletes of many rows make one batch, seeds come in another order, and the patterns and
the size of validation differ. -/
theorem phone_parts_from_replica :
    (∃ events final, run (step .ascii) (start "phone") events = some final ∧
      ∃ batch ∈ final.phone.pending, RegistryRoom.maxBatchOps < batch.ops.length) ∧
    (∃ events final, run (step .ascii) (start "phone") events = some final ∧
      final.phone.pending.flatMap PendingBatch.ops ≠ final.doc.pending.flatMap PendingBatch.ops) ∧
    (∃ events final, run (step .ascii) (start "phone") events = some final ∧
      final.phone.overlayRow .ascii "c" "AA" ≠ final.doc.overlayRow ⟨"c", "AA"⟩) ∧
    (∃ op, validateOp .ascii op = none ∧ Edge.validateOp (encodeOp op) ≠ none) ∧
    ∃ op, validateOp .ascii op ≠ none ∧ Edge.validateOp (encodeOp op) = none := by
  let deleting : List Event :=
    [.deleteRows (fun _ => 1) ((List.range 501).map fun n => ⟨"chats", "c" ++ toString n⟩)]
  let resetting : List Event :=
    [.state (fun _ => 1) ⟨2, true, 0, [chatRow "c1", chatRow "c2"]⟩ [] [],
      .state (fun _ => 1) ⟨1, true, 0, []⟩ [chatRow "c2", chatRow "c1"]
        [chatRow "c1", chatRow "c2"]]
  have large : (run (step .ascii) (start "phone") deleting).any (fun pair =>
      pair.phone.pending.any fun batch => decide (RegistryRoom.maxBatchOps < batch.ops.length)) =
        true := by decide +kernel
  have turned : (run (step .ascii) (start "phone") resetting).any (fun pair =>
      decide (pair.phone.pending.flatMap PendingBatch.ops ≠
        pair.doc.pending.flatMap PendingBatch.ops)) = true := by decide +kernel
  refine ⟨?_, ?_, overlay_parts_from_replica, ?_, ⟨_, validateOp_slashes⟩⟩
  · rcases (Option.any_eq_true _ _).mp large with ⟨final, ran, found⟩
    rcases List.any_eq_true.mp found with ⟨batch, listed, long⟩
    exact ⟨deleting, final, ran, batch, listed, of_decide_eq_true long⟩
  · rcases (Option.any_eq_true _ _).mp turned with ⟨final, ran, differ⟩
    exact ⟨resetting, final, ran, of_decide_eq_true differ⟩
  · exact ⟨.fieldWrite "chats\n" "c1" .upsert ∅ (Registry.encodeHlc 1 0 "phone"),
      by decide +kernel, by decide +kernel⟩

end Replicas

end Zeron.Registry.Phone
