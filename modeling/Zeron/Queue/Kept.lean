import Zeron.Queue.Delivery

/-!
# Queued messages are neither lost nor sent twice

Every id that was pushed is in exactly one of four places: it has a row in a document
with all commits, or a device has taken it for a send that has not reached the agent
yet, or a user has dropped it, or the agent was given it.

A row is lost if the host stops between the commit that takes it and the agent, and it
is given twice if a dispatch fails after the agent has accepted it, or if two devices
take it before they have seen the commits of each other.  The document library promises
nothing of a row that one device takes while another moves it.
-/

namespace Zeron.Queue

open Zeron.Data.Replicated
open Zeron.Transition

variable {τ : Type}

/-- The id that the device has taken and the agent does not have. -/
def Device.carried (device : Device τ) : Option Nat :=
  match device.drainLock with
  | .sending sending => if sending.accepted then none else some sending.item.id
  | .free => none
  | .draining => none

namespace Chat

/-- The rows of an id in a document with all commits. -/
def queued (list : QueueList τ) (chat : Chat τ) (id : Nat) : Nat :=
  (list chat.log).countP fun row => decide (row.value.id = id)

/-- The sends of an id that have not reached the agent. -/
def inFlight (chat : Chat τ) (id : Nat) : Nat :=
  chat.devices.countP fun device => decide (device.carried = some id)

/-- One if a user has dropped the message. -/
def dropped (chat : Chat τ) (id : Nat) : Nat :=
  if id ∈ chat.removed then 1 else 0

/-- Everywhere that a message is. -/
def places (list : QueueList τ) (chat : Chat τ) (id : Nat) : Nat :=
  chat.queued list id + chat.inFlight id + chat.dropped id + chat.delivered.count id

/-- Every message is in one place, and devices that have all commits see the queue. -/
def Kept (list : QueueList τ) (chat : Chat τ) : Prop :=
  (∀ id ∈ chat.pushed, chat.places list id = 1) ∧
    ∀ device ∈ chat.devices, (∀ commit ∈ chat.log, commit.name ∈ device.names) →
      ∀ id, (device.doc list).countP (fun row => decide (row.value.id = id)) =
        chat.queued list id

/-! ## When the queue is safe -/

/-- No commit deletes the row. -/
def undeleted (chat : Chat τ) (name : Nat) : Bool :=
  chat.log.all fun commit => !deletes name commit

/-- A device that has taken all moves of the row deletes it, and it is still there. -/
def onLive (chat : Chat τ) (device : Device τ) : QueueOp τ → Bool
  | .delete name =>
      chat.undeleted name &&
        chat.log.all fun commit => !moves name commit || decide (commit.name ∈ device.names)
  | _ => true

/-- A row is taken while it is still in the queue. -/
def takeCareful (list : QueueList τ) (chat : Chat τ) (device : Device τ) (id : Nat) : Bool :=
  ((device.doc list).takeQueued id).all fun taken => chat.onLive device taken.2

/-- A row is dropped while it is still in the queue, or was dropped before. -/
def editCareful (chat : Chat τ) (device : Device τ) (id : Nat) (op : Option (QueueOp τ)) : Bool :=
  op.all fun op => decide (id ∈ chat.removed) || chat.onLive device op

/-- A call takes or drops no row that another device has taken or dropped. -/
def serveCareful [DecidableEq τ] (list : QueueList τ) (chat : Chat τ) (device : Device τ)
    (now : Nat) (call : HostCall τ) : Bool :=
  match call with
  | .drainQueue => true
  | .sendQueuedNow id => chat.takeCareful list device id
  | .steerQueuedNow id =>
      ((device.doc list).find id).all fun row =>
        decide (row.value.attachments ≠ []) || chat.takeCareful list device id
  | call =>
      (editOf (device.doc list) now call).all fun edit => chat.editCareful device edit.1 edit.2

/-- Rows are taken, dropped and moved by devices for which they are still in the queue,
no dispatch fails that the agent has accepted, and no device stops with a row in hand. -/
def careful [DecidableEq τ] (list : QueueList τ) (chat : Chat τ) : Event τ → Bool
  | .setText i id text =>
      (chat.devices[i]?).all fun device =>
        chat.editCareful device id ((device.doc list).setQueuedText id text)
  | .move i id toIndex =>
      (chat.devices[i]?).all fun device =>
        ((device.doc list).moveQueued id toIndex).all fun op => op.target.all chat.undeleted
  | .serve i k now =>
      (chat.devices[i]?).all fun device =>
        (device.calls[k]?).all fun call => chat.serveCareful list device now call
  | .drain i _ =>
      (chat.devices[i]?).all fun device =>
        !device.hosts || device.turnInFlight ||
          ((device.doc list).head?).all fun head => chat.takeCareful list device head.value.id
  | .failed i =>
      (chat.devices[i]?).all fun device =>
        match device.drainLock with
        | .sending sending => !sending.accepted
        | .free | .draining => true
  | .crash i => (chat.devices[i]?).all fun device => device.carried.isNone
  | _ => true

end Chat

/-! ## Replicas -/

/-- Every replica has commits of the log, and every row that is gone is gone for good. -/
structure Tracked (log : List (QueueCommit τ)) (devices : List (Device τ)) : Prop where
  history : History log
  named : ∀ commit ∈ log, commit.name < log.length
  settled : Settled log
  replicas : ∀ device ∈ devices, History device.taken ∧ ∀ commit ∈ device.taken, commit ∈ log

variable {id : Nat}

section Replicas

variable {list : QueueList τ} {log : List (QueueCommit τ)} {devices : List (Device τ)} {i : Nat}
  {device changed : Device τ}

theorem Tracked.replica (tracked : Tracked log devices) (found : devices[i]? = some device) :
    History device.taken ∧ ∀ commit ∈ device.taken, commit ∈ log :=
  tracked.replicas device (List.mem_of_getElem? found)

theorem Tracked.put (tracked : Tracked log devices)
    (replica : History changed.taken ∧ ∀ commit ∈ changed.taken, commit ∈ log) :
    Tracked log (devices.set i changed) :=
  { tracked with
    replicas := fun other listed => by
      obtain listed | rfl := List.mem_or_eq_of_mem_set listed
      · exact tracked.replicas other listed
      · exact replica }

/-- A commit goes to the log and to the replica of its device. -/
theorem Tracked.commit {chat : Chat τ} (tracked : Tracked chat.log chat.devices)
    (replica : History changed.taken ∧ ∀ commit ∈ changed.taken, commit ∈ chat.log)
    {op : QueueOp τ} (ready : ∀ target, op.target = some target → target ∈ changed.names)
    (settled : Settled (chat.newCommit changed op :: chat.log)) :
    Tracked (chat.commit i changed op).log (chat.commit i changed op).devices := by
  obtain ⟨own, stored⟩ := replica
  have older : ∀ name ∈ changed.names, name ∈ chat.log.map Commit.name := by
    intro name listed
    obtain ⟨other, taken, rfl⟩ := List.mem_map.mp listed
    exact List.mem_map_of_mem (stored other taken)
  have fresh : chat.log.length ∉ chat.log.map Commit.name := by
    intro listed
    obtain ⟨other, made, named⟩ := List.mem_map.mp listed
    exact Nat.ne_of_lt (tracked.named other made) named
  have grown : Tracked (chat.newCommit changed op :: chat.log) chat.devices :=
    { history := ⟨fresh, older, ready, tracked.history⟩
      named := List.forall_mem_cons.mpr ⟨Nat.lt_succ_self _, fun other made =>
        Nat.lt_succ_of_lt (tracked.named other made)⟩
      settled
      replicas := fun other listed => ⟨(tracked.replicas other listed).1, fun held taken =>
        List.mem_cons_of_mem _ ((tracked.replicas other listed).2 held taken)⟩ }
  exact grown.put ⟨⟨fun taken => fresh (older _ taken), fun _ taken => taken, ready, own⟩,
    List.forall_mem_cons.mpr ⟨List.mem_cons_self, fun other taken =>
      List.mem_cons_of_mem _ (stored other taken)⟩⟩

section

variable (lawful : Lawful RowEdit.write list) (replica : History device.taken ∧ ∀ commit ∈ device.taken, commit ∈ log)
include lawful replica

/-- A row that a replica shows was inserted under its id. -/
theorem exists_inserts_of_mem {row : Container (QueuedMessage τ)} (shown : row ∈ device.doc list) :
    row.name ∈ device.names ∧ ∃ item, Inserts log row.name item ∧ item.id = row.value.id := by
  obtain ⟨own, stored⟩ := replica
  obtain ⟨item, inserts, same⟩ :=
    lawful.exists_inserts (fun edit item => edit.id_write item) own shown
  refine ⟨inserts.mem, item, ?_, same⟩
  obtain ⟨commit, taken, made⟩ := inserts
  exact ⟨commit, stored commit taken, made⟩

/-- A commit for a row that the replica shows. -/
theorem SessionDoc.Touches.ready {op : QueueOp τ} (touches : (device.doc list).Touches id op) :
    ∀ target, op.target = some target → target ∈ device.names := by
  obtain ⟨row, here, made⟩ := touches
  have seen := (exists_inserts_of_mem lawful replica (SessionDoc.find_some here).1).1
  intro target named
  obtain rfl | ⟨edit, rfl⟩ := made
  all_goals
    cases named
    exact seen

end

end Replicas

/-! ## Where messages are -/

namespace Chat

variable {list : QueueList τ} {chat : Chat τ} {i : Nat} {device changed : Device τ}

/-- A device's send counts where it counted before. -/
theorem inFlight_set (changed : Device τ) (found : chat.devices[i]? = some device) (id : Nat) :
    (chat.devices.set i changed).countP (fun device => decide (device.carried = some id)) +
        (if device.carried = some id then 1 else 0) =
      chat.inFlight id + if changed.carried = some id then 1 else 0 := by
  obtain ⟨inside, same⟩ := List.getElem?_eq_some_iff.mp found
  rw [List.countP_set inside, same, inFlight]
  simp only [decide_eq_true_eq]
  by_cases carries : device.carried = some id
  · have counted : 0 < chat.devices.countP fun device => decide (device.carried = some id) :=
      List.countP_pos_iff.mpr ⟨device, List.mem_of_getElem? found, decide_eq_true carries⟩
    rw [if_pos carries]
    omega
  · rw [if_neg carries]
    omega

theorem inFlight_set_of_same (changed : Device τ) (found : chat.devices[i]? = some device)
    (same : changed.carried = device.carried) (id : Nat) :
    (chat.devices.set i changed).countP (fun device => decide (device.carried = some id)) =
      chat.inFlight id := by
  have counted := inFlight_set changed found id
  rw [same] at counted
  omega

/-- What a device has in hand is no matter of its replica. -/
theorem inFlight_commit (changed : Device τ) (found : chat.devices[i]? = some device)
    (op : QueueOp τ) (id : Nat) :
    (chat.commit i changed op).inFlight id + (if device.carried = some id then 1 else 0) =
      chat.inFlight id + if changed.carried = some id then 1 else 0 :=
  inFlight_set { changed with taken := chat.newCommit changed op :: changed.taken } found id

theorem places_commit (changed : Device τ) (op : QueueOp τ) (id : Nat) :
    (chat.commit i changed op).places list id =
      (chat.commit i changed op).queued list id + (chat.commit i changed op).inFlight id +
        chat.dropped id + chat.delivered.count id :=
  rfl

theorem queued_eq (chat : Chat τ) (id : Nat) : chat.queued list id =
    (pairs QueuedMessage.id (list chat.log)).countP fun pair => decide (pair.2 = id) := by
  rw [pairs, List.countP_map]
  rfl

/-- Nothing is in flight twice, or in flight and in the queue. -/
structure Sound (list : QueueList τ) (chat : Chat τ) : Prop where
  tracked : Tracked chat.log chat.devices
  account : ∀ id, chat.places list id = if id ∈ chat.pushed then 1 else 0

theorem Sound.places_le (sound : chat.Sound list) (id : Nat) : chat.places list id ≤ 1 := by
  rw [sound.account]
  split <;> omega

/-- A device changes neither its replica nor what it has in hand. -/
theorem Sound.put (sound : chat.Sound list) (found : chat.devices[i]? = some device)
    (same : changed.taken = device.taken) (carried : changed.carried = device.carried) :
    (chat.put i changed).Sound list where
  tracked := sound.tracked.put (same ▸ sound.tracked.replica found)
  account id := by
    refine Eq.trans ?_ (sound.account id)
    have flying : (chat.put i changed).inFlight id = chat.inFlight id :=
      inFlight_set_of_same changed found carried id
    simp only [places, flying]
    rfl

theorem undeleted_iff {name : Nat} :
    chat.undeleted name = true ↔ ∀ commit ∈ chat.log, commit.op ≠ .delete name := by
  simp only [undeleted, List.all_eq_true, Bool.not_eq_true', ← Bool.not_eq_true, deletes_iff]

/-- A row is inserted. -/
theorem Sound.insert (lawful : Lawful RowEdit.write list) (sound : chat.Sound list)
    (found : chat.devices[i]? = some device) (same : changed.taken = device.taken) (index : Nat)
    (item : QueuedMessage τ) :
    Tracked (chat.commit i changed (.insert index item)).log
        (chat.commit i changed (.insert index item)).devices ∧
      ∀ id, (chat.commit i changed (.insert index item)).queued list id =
        chat.queued list id + if item.id = id then 1 else 0 := by
  have settled : Settled (chat.newCommit changed (.insert index item) :: chat.log) :=
    sound.tracked.settled.cons nofun nofun
  have tracked : Tracked (chat.commit i changed (.insert index item)).log
      (chat.commit i changed (.insert index item)).devices :=
    sound.tracked.commit (same ▸ sound.tracked.replica found) nofun settled
  refine ⟨tracked, fun id => ?_⟩
  have grown := (lawful.perm_insert (fun edit item => edit.id_write item) tracked.history settled
    sound.tracked.settled rfl).countP_eq fun pair => decide (pair.2 = id)
  rw [queued_eq, queued_eq]
  refine grown.trans ?_
  rw [List.countP_cons]
  simp only [decide_eq_true_eq]

section Commits

variable (lawful : Lawful RowEdit.write list) (sound : chat.Sound list)
  (found : chat.devices[i]? = some device) (same : changed.taken = device.taken)
  {op : QueueOp τ} (ready : ∀ target, op.target = some target → target ∈ changed.names)

include lawful sound found same ready

/-- A commit that neither inserts a row nor deletes one that is there. -/
theorem Sound.change (carried : changed.carried = device.carried)
    (changes : ∀ index item, op ≠ .insert index item)
    (gone : ∀ name, op = .delete name → ∃ other ∈ chat.log, other.op = .delete name)
    (settled : Settled (chat.newCommit changed op :: chat.log)) :
    (chat.commit i changed op).Sound list := by
  have tracked : Tracked (chat.commit i changed op).log (chat.commit i changed op).devices :=
    sound.tracked.commit (same ▸ sound.tracked.replica found) ready settled
  refine ⟨tracked, fun id => Eq.trans ?_ (sound.account id)⟩
  have kept : (chat.commit i changed op).queued list id = chat.queued list id := by
    rw [queued_eq, queued_eq]
    exact (lawful.perm_of_kept (fun edit item => edit.id_write item) tracked.history settled
      sound.tracked.settled changes gone).countP_eq _
  have flying := inFlight_commit changed found op id
  rw [carried] at flying
  rw [places_commit, places]
  omega

/-- A row that is there leaves the queue. -/
theorem Sound.delete {row : Container (QueuedMessage τ)} (shown : row ∈ changed.doc list)
    (deletes : op = .delete row.name) (onLive : chat.onLive changed op = true) :
    Tracked (chat.commit i changed op).log (chat.commit i changed op).devices ∧
      ∀ id, (chat.commit i changed op).queued list id + (if row.value.id = id then 1 else 0) =
        chat.queued list id := by
  subst deletes
  have replica : History changed.taken ∧ ∀ commit ∈ changed.taken, commit ∈ chat.log :=
    same ▸ sound.tracked.replica found
  obtain ⟨item, inserts, named⟩ := (exists_inserts_of_mem lawful replica shown).2
  simp only [Chat.onLive, Bool.and_eq_true, List.all_eq_true, Bool.or_eq_true, decide_eq_true_eq] at onLive
  obtain ⟨undeleted, seen⟩ := onLive
  have final : Final (chat.newCommit changed (.delete row.name) :: chat.log) row.name := by
    refine ⟨_, List.mem_cons_self, rfl, List.forall_mem_cons.mpr ⟨nofun, fun mover made index
      moving => ?_⟩⟩
    refine (seen mover made).resolve_left fun still => ?_
    rw [moves_iff.mpr ⟨index, moving⟩] at still
    cases still
  have settled : Settled (chat.newCommit changed (.delete row.name) :: chat.log) := by
    refine sound.tracked.settled.cons (fun name deleting => ?_) nofun
    obtain rfl := Op.delete.inj deleting
    exact final
  have tracked := sound.tracked.commit (i := i) replica ready settled
  refine ⟨tracked, fun id => ?_⟩
  have fewer := (lawful.perm_delete (fun edit item => edit.id_write item) tracked.history settled
    sound.tracked.settled rfl ⟨⟨item, inserts, named⟩, undeleted_iff.mp undeleted⟩).countP_eq
      fun pair => decide (pair.2 = id)
  rw [queued_eq, queued_eq, fewer, List.countP_cons]
  simp only [decide_eq_true_eq]
  rfl

end Commits

/-- A row that is there was not dropped by a user. -/
theorem Sound.not_mem_removed (sound : chat.Sound list) (listed : 0 < chat.queued list id) :
    id ∉ chat.removed := by
  intro gone
  have bound := sound.places_le id
  simp only [places, dropped, if_pos gone] at bound
  omega

section

variable (lawful : Lawful RowEdit.write list) (sound : chat.Sound list)
  (found : chat.devices[i]? = some device)
include lawful sound found

/-- A row that is there, and that no commit has deleted, is in the queue. -/
theorem Sound.queued_pos (same : changed.taken = device.taken)
    {row : Container (QueuedMessage τ)} (shown : row ∈ changed.doc list)
    (undeleted : chat.undeleted row.name = true) : 0 < chat.queued list row.value.id := by
  have replica : History changed.taken ∧ ∀ commit ∈ changed.taken, commit ∈ chat.log :=
    same ▸ sound.tracked.replica found
  obtain ⟨item, inserts, named⟩ := (exists_inserts_of_mem lawful replica shown).2
  have stands : Stands QueuedMessage.id chat.log row.name row.value.id :=
    ⟨⟨item, inserts, named⟩, undeleted_iff.mp undeleted⟩
  rw [queued_eq, List.countP_pos_iff]
  exact ⟨(row.name, row.value.id), (lawful.mem_pairs_iff (fun edit item => edit.id_write item)
    sound.tracked.history sound.tracked.settled).mpr stands, decide_eq_true rfl⟩

/-- A user drops a row that is there, or one whose message was dropped before. -/
theorem Sound.drop (same : changed.taken = device.taken)
    (carried : changed.carried = device.carried) {row : Container (QueuedMessage τ)}
    (ready : ∀ target, (Op.delete row.name : QueueOp τ).target = some target →
      target ∈ changed.names) (shown : row ∈ changed.doc list)
    (safe : row.value.id ∈ chat.removed ∨ chat.onLive changed (.delete row.name) = true) :
    (chat.edit i changed row.value.id (some (.delete row.name))).Sound list := by
  have parts (other : Nat) :
      (chat.edit i changed row.value.id (some (.delete row.name))).places list other =
        (chat.commit i changed (.delete row.name)).queued list other +
          (chat.commit i changed (.delete row.name)).inFlight other +
          (if other ∈ row.value.id :: chat.removed then 1 else 0) +
          chat.delivered.count other := rfl
  by_cases undeleted : chat.undeleted row.name = true
  · -- The row is still in the queue, so nobody has dropped it before.
    have kept := sound.not_mem_removed (sound.queued_pos lawful found same shown undeleted)
    obtain ⟨tracked, fewer⟩ :=
      sound.delete lawful found same ready shown rfl (safe.resolve_left kept)
    refine ⟨tracked, fun other => Eq.trans ?_ (sound.account other)⟩
    have flying := inFlight_commit changed found (.delete row.name) other
    rw [carried] at flying
    have dropping : (if other ∈ row.value.id :: chat.removed then 1 else 0) =
        chat.dropped other + if row.value.id = other then 1 else 0 := by
      unfold dropped
      by_cases same : row.value.id = other
      · subst same
        simp [kept]
      · simp [same, Ne.symm same]
    rw [parts, places, ← fewer other]
    omega
  · -- The row is gone, and the message was dropped before.
    have gone : row.value.id ∈ chat.removed := by
      refine safe.resolve_right fun onLive => undeleted ?_
      exact (Bool.and_eq_true _ _ ▸ onLive).1
    have deleted : ∃ other ∈ chat.log, other.op = .delete row.name := by
      by_contra absent
      exact undeleted (undeleted_iff.mpr fun other made deletes =>
        absent ⟨other, made, deletes⟩)
    have before := sound.change lawful found same ready carried nofun
      (fun name deleting => Op.delete.inj deleting ▸ deleted)
      (sound.tracked.settled.delete_again rfl deleted)
    refine ⟨before.tracked, fun other => Eq.trans ?_ (before.account other)⟩
    have dropping : (if other ∈ row.value.id :: chat.removed then 1 else 0) =
        chat.dropped other := by
      unfold dropped
      by_cases same : other = row.value.id
      · subst same
        simp [gone]
      · simp [same]
    rw [parts, dropping, places_commit]

/-- A user's edit, which drops the row only while it is there or was dropped before. -/
theorem Sound.edit (changed : Device τ) (same : changed.taken = device.taken)
    (carried : changed.carried = device.carried) {op : Option (QueueOp τ)}
    (touches : ∀ commit, op = some commit → (changed.doc list).Touches id commit)
    (safe : chat.editCareful changed id op = true) : (chat.edit i changed id op).Sound list := by
  cases op with
  | none => exact sound.put found same carried
  | some op =>
      have ready := (touches op rfl).ready lawful (same ▸ sound.tracked.replica found)
      obtain ⟨row, here, made⟩ := touches op rfl
      obtain ⟨shown, rfl⟩ := SessionDoc.find_some here
      obtain rfl | ⟨written, rfl⟩ := made
      · simp only [editCareful, Option.all_some, Bool.or_eq_true, decide_eq_true_eq] at safe
        exact sound.drop lawful found same carried ready shown safe
      · exact sound.change lawful found same ready carried nofun nofun
          (sound.tracked.settled.cons nofun nofun)

/-- A row goes from the queue into the hands of a device that has none. -/
theorem Sound.takeFor (same : changed.taken = device.taken) (empty : device.carried = none)
    {send : QueueSend} (safe : chat.takeCareful list changed id = true) :
    (chat.takeFor list i changed send id).Sound list := by
  unfold Chat.takeFor
  cases taken : (changed.doc list).takeQueued id with
  | none => exact sound.put found same empty.symm
  | some taking =>
      obtain ⟨item, op⟩ := taking
      obtain ⟨row, here, rfl, rfl⟩ := SessionDoc.takeQueued_some taken
      obtain ⟨shown, rfl⟩ := SessionDoc.find_some here
      have touches : (changed.doc list).Touches row.value.id (.delete row.name) :=
        ⟨row, here, Or.inl rfl⟩
      have ready := touches.ready lawful (same ▸ sound.tracked.replica found)
      simp only [takeCareful, taken] at safe
      have same_taken : (changed.beginSending row.value send).taken = device.taken := same
      obtain ⟨tracked, fewer⟩ :=
        sound.delete lawful found same_taken ready shown rfl safe
      refine ⟨tracked, fun other => ?_⟩
      refine Eq.trans ?_ (sound.account other)
      have flying := inFlight_commit (changed.beginSending row.value send) found
        (.delete row.name) other
      have carries : (changed.beginSending row.value send).carried = some row.value.id := rfl
      simp only [empty, carries, reduceCtorEq, if_false, Option.some.injEq] at flying
      rw [places_commit, places, ← fewer other]
      omega

/-- A row goes back from the hands of a device, under its own id. -/
theorem Sound.putBack (changed : Device τ) (same : changed.taken = device.taken)
    {item : QueuedMessage τ} (carries : device.carried = some item.id)
    (empty : changed.carried = none) : (chat.commit i changed (.insert 0 item)).Sound list := by
  obtain ⟨tracked, grown⟩ := sound.insert lawful found same 0 item
  refine ⟨tracked, fun other => Eq.trans ?_ (sound.account other)⟩
  have flying := inFlight_commit changed found (.insert 0 item) other
  simp only [carries, empty, reduceCtorEq, if_false, Option.some.injEq] at flying
  rw [places_commit, grown, places]
  omega

end

/-- The agent has what the device had in hand. -/
theorem Sound.deliver (sound : chat.Sound list) (found : chat.devices[i]? = some device)
    {sending : Sending τ} (lock : device.drainLock = .sending sending)
    (fresh : sending.accepted = false) : (chat.deliver i device sending).Sound list where
  tracked := by
    have replica := sound.tracked.replica found
    exact sound.tracked.put replica
  account other := by
    refine Eq.trans ?_ (sound.account other)
    have carries : device.carried = some sending.item.id := by
      simp [Device.carried, lock, fresh]
    have flying := inFlight_set
      { device.setSending { sending with accepted := true } with turnInFlight := true } found other
    have empty : Device.carried { device.setSending { sending with accepted := true } with
        turnInFlight := true } = none := rfl
    rw [carries, empty] at flying
    simp only [reduceCtorEq, if_false, Option.some.injEq] at flying
    have parts : (chat.deliver i device sending).places list other =
        chat.queued list other + (chat.deliver i device sending).inFlight other +
          chat.dropped other + (sending.item.id :: chat.delivered).count other := rfl
    have there : (chat.deliver i device sending).inFlight other =
        (chat.devices.set i { device.setSending { sending with accepted := true } with
          turnInFlight := true }).countP fun device => decide (device.carried = some other) := rfl
    rw [parts, there, List.count_cons, places]
    simp only [beq_iff_eq]
    omega

/-- A message under a new id. -/
theorem Sound.push (lawful : Lawful RowEdit.write list) (sound : chat.Sound list)
    (found : chat.devices[i]? = some device) {index : Nat} {item : QueuedMessage τ}
    (fresh : item.id ∉ chat.pushed) :
    Sound list { chat.commit i device (.insert index item) with
      pushed := item.id :: chat.pushed } := by
  obtain ⟨tracked, grown⟩ := sound.insert lawful found rfl index item
  refine ⟨tracked, fun other => ?_⟩
  have flying := inFlight_commit device found (.insert index item) other
  have before := sound.account other
  have parts : places list { chat.commit i device (.insert index item) with
      pushed := item.id :: chat.pushed } other =
    (chat.commit i device (.insert index item)).places list other := rfl
  rw [parts, places_commit, grown]
  simp only [List.mem_cons]
  unfold places at before
  by_cases equal : item.id = other
  · subst equal
    rw [if_neg fresh] at before
    rw [if_pos rfl, if_pos (Or.inl rfl)]
    omega
  · rw [if_neg equal]
    simp only [Ne.symm equal, false_or]
    omega

/-- A commit of another device arrives. -/
theorem Sound.sync (sound : chat.Sound list) (found : chat.devices[i]? = some device)
    {commit : QueueCommit τ} (made : commit ∈ chat.log) (fresh : commit.name ∉ device.names)
    (ready : ∀ seen ∈ commit.seen, seen ∈ device.names) :
    (chat.put i { device with taken := commit :: device.taken }).Sound list where
  tracked := by
    obtain ⟨own, stored⟩ := sound.tracked.replica found
    refine sound.tracked.put ⟨⟨fresh, ready, fun target named => ?_, own⟩,
      List.forall_mem_cons.mpr ⟨made, stored⟩⟩
    exact (sound.tracked.history.seen_of_mem made).2 target named
  account id := by
    refine Eq.trans ?_ (sound.account id)
    have flying : (chat.put i { device with taken := commit :: device.taken }).inFlight id =
        chat.inFlight id :=
      inFlight_set_of_same { device with taken := commit :: device.taken } found rfl id
    simp only [places, flying]
    rfl

/-! ## Steps -/

variable [DecidableEq τ]

theorem touches_of_editOf {doc : SessionDoc τ} {now : Nat} {call : HostCall τ}
    {op : Option (QueueOp τ)} (edits : editOf doc now call = some (id, op)) :
    ∀ commit, op = some commit → doc.Touches id commit := by
  intro commit made
  cases call with
  | drainQueue | sendQueuedNow _ | steerQueuedNow _ => cases edits
  | removeQueuedMessage other =>
      obtain ⟨rfl, rfl⟩ := Prod.mk.inj (Option.some.inj edits)
      exact SessionDoc.touches_of_removeQueued made
  | beginEdit other leaseId =>
      obtain ⟨rfl, rfl⟩ := Prod.mk.inj (Option.some.inj edits)
      exact SessionDoc.touches_of_beginEdit made
  | renewEdit other leaseId =>
      obtain ⟨rfl, rfl⟩ := Prod.mk.inj (Option.some.inj edits)
      exact SessionDoc.touches_of_renewEdit made
  | finishEdit other leaseId action =>
      obtain ⟨rfl, rfl⟩ := Prod.mk.inj (Option.some.inj edits)
      exact SessionDoc.touches_of_finishEdit made
  | expireEdit other leaseId scheduledMs =>
      obtain ⟨rfl, rfl⟩ := Prod.mk.inj (Option.some.inj edits)
      exact SessionDoc.touches_of_expireEdit made

theorem Sound.serve (lawful : Lawful RowEdit.write list) (sound : chat.Sound list)
    (found : chat.devices[i]? = some device) (changed : Device τ)
    (same : changed.taken = device.taken)
    (carried : changed.carried = device.carried) (empty : device.carried = none) {now : Nat}
    {call : HostCall τ} (safe : chat.serveCareful list changed now call = true) :
    (chat.serve list i changed now call).Sound list := by
  have edits : (editOf (changed.doc list) now call).all
        (fun edit => chat.editCareful changed edit.1 edit.2) = true →
      Sound list ((editOf (changed.doc list) now call).elim (chat.put i changed) fun edit =>
        chat.edit i changed edit.1 edit.2) := by
    intro safe
    cases made : editOf (changed.doc list) now call with
    | none => exact sound.put found same carried
    | some edit =>
        rw [made] at safe
        exact sound.edit lawful found changed same carried (touches_of_editOf made) safe
  cases call with
  | drainQueue =>
      by_cases paused : changed.queuePaused = true
      · simpa only [Chat.serve, if_pos paused] using sound.put found same carried
      · simp only [Chat.serve, if_neg paused]
        exact sound.put found same empty.symm
  | sendQueuedNow id => exact sound.takeFor lawful found same empty safe
  | steerQueuedNow id =>
      simp only [serveCareful] at safe
      simp only [Chat.serve]
      cases here : (changed.doc list).find id with
      | none => exact sound.put found same carried
      | some row =>
          simp only [here, Option.all_some, Bool.or_eq_true, decide_eq_true_eq] at safe
          by_cases attached : row.value.attachments ≠ []
          · simp only [if_pos attached]
            exact sound.put found same carried
          · simp only [if_neg attached]
            exact sound.takeFor lawful found same empty (safe.resolve_left attached)
  | removeQueuedMessage id => exact edits safe
  | beginEdit id leaseId => exact edits safe
  | renewEdit id leaseId => exact edits safe
  | finishEdit id leaseId action => exact edits safe
  | expireEdit id leaseId scheduledMs => exact edits safe

omit [DecidableEq τ] in
/-- A gate is written on a row without taking it. -/
theorem editCareful_gate (chat : Chat τ) (device : Device τ) (doc : SessionDoc τ) (id : Nat)
    (gate : Option (QueueDeliveryGate τ)) :
    chat.editCareful device id (doc.setQueuedDeliveryGate id gate) = true := by
  unfold SessionDoc.setQueuedDeliveryGate
  cases doc.find id with
  | none => rfl
  | some row => simp [editCareful, onLive]

omit [DecidableEq τ] in
theorem Sound.drain (lawful : Lawful RowEdit.write list) (sound : chat.Sound list)
    (found : chat.devices[i]? = some device) (empty : device.carried = none) {now : Nat}
    (safe : (!device.hosts || device.turnInFlight ||
      ((device.doc list).head?).all fun head =>
        chat.takeCareful list device head.value.id) = true) :
    (chat.drain list i device now).Sound list := by
  have idle : (chat.put i device.free).Sound list := sound.put found rfl empty.symm
  unfold Chat.drain
  by_cases hosts : device.hosts = false
  · rw [if_pos hosts]
    exact idle
  rw [if_neg hosts]
  cases front : (device.doc list).head? with
  | none => exact idle
  | some head =>
      simp only
      split
      · split
        · exact sound.edit lawful found device.free rfl empty.symm
            (fun commit made => SessionDoc.touches_of_setQueuedDeliveryGate made)
            (editCareful_gate chat _ _ _ _)
        · exact idle
      · exact idle
      · split
        · exact idle
        · rename_i busy
          simp only [front, Bool.or_eq_true, Bool.not_eq_true'] at safe
          have safe := safe.resolve_left (not_or.mpr ⟨hosts, busy⟩)
          exact sound.takeFor lawful found rfl empty safe

omit [DecidableEq τ] in
theorem carried_of_lock {lock : DrainLock τ} (held : device.drainLock = lock)
    (quiet : lock = .free ∨ lock = .draining) : device.carried = none := by
  unfold Device.carried
  rw [held]
  obtain rfl | rfl := quiet <;> rfl

theorem Sound.step (lawful : Lawful RowEdit.write list) {next : Chat τ} {event : Event τ}
    (sound : chat.Sound list) (safe : chat.careful list event = true)
    (stepped : Queue.step list chat event = some next) : next.Sound list := by
  cases event with
  | push i id text attachments =>
      obtain ⟨device, found, stepped⟩ := Option.bind_eq_some_iff.mp stepped
      split at stepped
      · cases stepped
      · rename_i fresh
        cases stepped
        have unlisted : ({ id, text, attachments, deliveryGate := none } : QueuedMessage τ).id ∉
            chat.pushed := fresh
        exact sound.push lawful found unlisted
  | setText i id text =>
      obtain ⟨device, found, rfl⟩ := Option.map_eq_some_iff.mp stepped
      simp only [careful, found] at safe
      exact sound.edit lawful found device rfl rfl
        (fun commit made => SessionDoc.touches_of_setQueuedText made) safe
  | move i id toIndex =>
      obtain ⟨device, found, stepped⟩ := Option.bind_eq_some_iff.mp stepped
      obtain ⟨op, made, rfl⟩ := Option.map_eq_some_iff.mp stepped
      simp only [careful, found, made, Option.all_some] at safe
      obtain ⟨row, index, here, rfl⟩ := SessionDoc.moveQueued_some made
      have shown := (SessionDoc.find_some here).1
      have seen := (exists_inserts_of_mem lawful (sound.tracked.replica found) shown).1
      refine sound.change lawful found rfl (fun target named => ?_) rfl nofun nofun
        (sound.tracked.settled.cons nofun fun name place moving => ?_)
      · exact Option.some.inj named ▸ seen
      · obtain ⟨rfl, rfl⟩ := Op.move.inj moving
        exact undeleted_iff.mp safe
  | sync i name =>
      obtain ⟨device, found, stepped⟩ := Option.bind_eq_some_iff.mp stepped
      obtain ⟨commit, committed, stepped⟩ := Option.bind_eq_some_iff.mp stepped
      split at stepped
      · cases stepped
      · rename_i enabled
        obtain ⟨fresh, ready⟩ := not_or.mp enabled
        cases stepped
        have named : commit.name = name := by simpa using List.find?_some committed
        exact sound.sync found (List.mem_of_find?_eq_some committed) (named ▸ fresh)
          (not_not.mp ready)
  | setHost i hosts =>
      obtain ⟨device, found, rfl⟩ := Option.map_eq_some_iff.mp stepped
      exact sound.put found rfl rfl
  | turn i inFlight =>
      obtain ⟨device, found, rfl⟩ := Option.map_eq_some_iff.mp stepped
      exact sound.put found rfl rfl
  | pause i paused =>
      obtain ⟨device, found, rfl⟩ := Option.map_eq_some_iff.mp stepped
      exact sound.put found rfl rfl
  | call i call =>
      obtain ⟨device, found, stepped⟩ := Option.bind_eq_some_iff.mp stepped
      split at stepped
      · cases stepped
      · cases stepped
        exact sound.put found rfl rfl
  | refuse i k =>
      obtain ⟨device, found, rfl⟩ := Option.map_eq_some_iff.mp stepped
      exact sound.put found rfl rfl
  | serve i k now =>
      obtain ⟨device, found, stepped⟩ := Option.bind_eq_some_iff.mp stepped
      split at stepped
      · rename_i free
        obtain ⟨call, waiting, rfl⟩ := Option.map_eq_some_iff.mp stepped
        simp only [careful, found, waiting, Option.all_some] at safe
        exact sound.serve lawful found { device with calls := device.calls.eraseIdx k } rfl rfl
          (carried_of_lock free (Or.inl rfl)) safe
      · cases stepped
  | drain i now =>
      obtain ⟨device, found, stepped⟩ := Option.bind_eq_some_iff.mp stepped
      split at stepped
      · rename_i draining
        cases stepped
        simp only [careful, found] at safe
        exact sound.drain lawful found (carried_of_lock draining (Or.inr rfl)) safe
      · cases stepped
  | advance i =>
      obtain ⟨device, found, stepped⟩ := Option.bind_eq_some_iff.mp stepped
      split at stepped
      · rename_i sending lock
        have carries : device.carried =
            if sending.accepted then none else some sending.item.id := by
          rw [Device.carried, lock]
        split at stepped
        · split at stepped
          · cases stepped
          · cases stepped
            exact sound.put found rfl carries.symm
        · cases stepped
          exact sound.put found rfl carries.symm
        · cases stepped
      · cases stepped
      · cases stepped
  | accept i =>
      obtain ⟨device, found, stepped⟩ := Option.bind_eq_some_iff.mp stepped
      split at stepped
      · rename_i sending lock
        split at stepped
        · cases stepped
        · rename_i enabled
          cases stepped
          refine sound.deliver found lock ?_
          simp only [Bool.or_eq_true, not_or] at enabled
          exact Bool.not_eq_true _ ▸ enabled.1.1
      · cases stepped
      · cases stepped
  | sent i =>
      obtain ⟨device, found, stepped⟩ := Option.bind_eq_some_iff.mp stepped
      split at stepped
      · rename_i sending lock
        split at stepped
        · rename_i accepted
          cases stepped
          have empty : device.carried = none := by
            rw [Device.carried, lock]
            exact if_pos accepted
          refine sound.put found rfl (Eq.trans ?_ empty.symm)
          unfold Device.endSending Device.carried
          by_cases goesOn : sending.send = .nextTurn
          · simp [goesOn]
          · simp [goesOn]
        · cases stepped
      · cases stepped
      · cases stepped
  | failed i =>
      obtain ⟨device, found, stepped⟩ := Option.bind_eq_some_iff.mp stepped
      split at stepped
      · rename_i sending lock
        cases stepped
        simp only [careful, found, Option.all_some, lock, Bool.not_eq_true'] at safe
        have carries : device.carried = some sending.item.id := by
          simp [Device.carried, lock, safe]
        exact sound.putBack lawful found (device.pauseAgain sending) rfl carries rfl
      · cases stepped
      · cases stepped
  | stop i stopped =>
      obtain ⟨device, found, stepped⟩ := Option.bind_eq_some_iff.mp stepped
      split at stepped
      · cases stepped
        exact sound.put found rfl rfl
      · cases stepped
  | crash i =>
      obtain ⟨device, found, rfl⟩ := Option.map_eq_some_iff.mp stepped
      simp only [careful, found, Option.all_some, Option.isNone_iff_eq_none] at safe
      exact sound.put found rfl safe.symm

omit [DecidableEq τ] in
theorem sound_initial (lawful : Lawful RowEdit.write list) (count : Nat) :
    (initial count : Chat τ).Sound list where
  tracked := by
    refine ⟨trivial, nofun, nofun, fun device listed => ?_⟩
    obtain ⟨-, rfl⟩ := List.mem_replicate.mp listed
    exact ⟨trivial, nofun⟩
  account id := by
    have idle : (initial count : Chat τ).inFlight id = 0 := by
      refine List.countP_eq_zero.mpr fun device listed => ?_
      obtain ⟨-, rfl⟩ := List.mem_replicate.mp listed
      simp [Device.carried, Device.fresh]
    have empty : (initial count : Chat τ).queued list id = 0 := by
      refine List.countP_eq_zero.mpr fun row shown => ?_
      obtain ⟨item, ⟨commit, made, -⟩, -⟩ := lawful.inserted [] trivial row shown
      cases made
    rw [places, idle, empty]
    rfl

omit [DecidableEq τ] in
theorem Sound.kept (lawful : Lawful RowEdit.write list) (sound : chat.Sound list) :
    chat.Kept list := by
  refine ⟨fun id pushed => ?_, fun device listed complete id => ?_⟩
  · rw [sound.account, if_pos pushed]
  · obtain ⟨own, stored⟩ := sound.tracked.replicas device listed
    have all (commit : QueueCommit τ) : commit ∈ device.taken ↔ commit ∈ chat.log := by
      refine ⟨stored commit, fun made => ?_⟩
      obtain ⟨other, taken, named⟩ := List.mem_map.mp (complete commit made)
      exact sound.tracked.history.eq_of_name (stored other taken) made named ▸ taken
    have same := (lawful.perm_pairs (fun edit item => edit.id_write item) own
      sound.tracked.history all sound.tracked.settled).countP_eq fun pair => decide (pair.2 = id)
    rw [queued_eq, ← same, pairs, List.countP_map]
    rfl

end Chat

end Zeron.Queue
