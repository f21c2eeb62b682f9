import Zeron.Chat.Log
import Zeron.Transition.Run

/-!
# Downloads of a checkpoint

A checkpoint comes in one body, and a download that is cut off goes on where it stopped, with a
range.  The number of the checkpoint tells whether it is still the same one; the room also
takes another checkpoint under the number of the one it has.
-/

namespace Zeron.Chat

open Transition

/-- The answers to `GET /checkpoint`; only a body names the number of its checkpoint. -/
inductive CheckpointAnswer where
  | notFound
  | beyondEnd (total : Nat)
  /-- With status 206 if a range was asked for, and 200 otherwise. -/
  | body (ranged : Bool) (seq : Nat) (bytes : List UInt8)
  deriving DecidableEq

/-- `GET /checkpoint`, with the start of a range. -/
def ChatRoom.serveCheckpoint (room : ChatRoom) (range : Option Nat) : CheckpointAnswer :=
  match room.checkpoint with
  | none => .notFound
  | some checkpoint =>
      if range.any fun start => checkpoint.bytes.length ≤ start then
        .beyondEnd checkpoint.bytes.length
      else .body range.isSome checkpoint.seqCovered (checkpoint.bytes.drop (range.getD 0))

inductive FetchPhase where
  /-- At the head of the loop. -/
  | ready
  /-- The request is out. -/
  | waiting
  /-- The answer is on its way. -/
  | answered (answer : CheckpointAnswer)
  /-- The body comes in, and this much of it is still to come. -/
  | streaming (rest : List UInt8)
  | returned (bytes : List UInt8)
  | failed (reason : String)
  deriving DecidableEq

/-- `EdgeCheckpointFetcher::fetch`. -/
structure Fetch where
  got : List UInt8
  seenSeq : Option Nat
  lastFailure : Option String
  /-- The attempts that have begun. -/
  attempts : Nat
  phase : FetchPhase

namespace Fetch

def start : Fetch :=
  { got := [], seenSeq := none, lastFailure := none, attempts := 0, phase := .ready }

/-- The `range` header: where the last attempt stopped. -/
def range (fetch : Fetch) : Option Nat :=
  if fetch.got.isEmpty then none else some fetch.got.length

/-- The error after the last attempt. -/
def exhausted (fetch : Fetch) : String :=
  let message := "checkpoint fetch exhausted resume attempts"
  match fetch.lastFailure with
  | some failure => message ++ ": " ++ failure
  | none => message

/-- The next round of the loop, or its end after four. -/
def attempt (fetch : Fetch) : Fetch :=
  if fetch.attempts < 4 then
    { fetch with attempts := fetch.attempts + 1, phase := .waiting }
  else { fetch with phase := .failed fetch.exhausted }

/-- An attempt that fails is tried again, with the bytes that have come. -/
def retry (fetch : Fetch) (failure : String) : Fetch :=
  { fetch with lastFailure := some failure, phase := .ready }

/-- The head of an answer: another number restarts the download, with the next attempt. -/
def receiveHead (fetch : Fetch) : CheckpointAnswer → Fetch
  | .notFound => { fetch with phase := .failed "no checkpoint" }
  | .beyondEnd _ => { fetch with phase := .failed "checkpoint range beyond end" }
  | .body ranged seq bytes =>
      if fetch.seenSeq.isSome ∧ fetch.seenSeq ≠ some seq then
        { fetch with got := [], seenSeq := some seq, phase := .ready }
      else
        { fetch with
          got := if ranged then fetch.got else []
          seenSeq := some seq
          phase := .streaming bytes }

/-- The next bytes of a body. -/
def receiveChunk (fetch : Fetch) (rest : List UInt8) (count : Nat) : Fetch :=
  { fetch with got := fetch.got ++ rest.take count, phase := .streaming (rest.drop count) }

end Fetch

/-- A room, a download from it, and the blobs that the room has stored so far. -/
structure Download where
  room : ChatRoom
  fetch : Fetch
  /-- For the statements only. -/
  stored : List (List UInt8)

inductive DownloadEvent where
  | write (write : ChatWrite)
  | reset
  | send
  /-- No permit, no token, or the caller has stopped waiting. -/
  | abandon (reason : String)
  /-- The request or its answer is lost. -/
  | lose (failure : String)
  | serve
  /-- An answer that is not the room's. -/
  | refuse (code : Nat)
  | receiveHead
  | receiveChunk (count : Nat)
  /-- The connection breaks within the body. -/
  | drop (failure : String)
  | finish

namespace Download

/-- A room without checkpoint. -/
def start : Download :=
  { room := .initial, fetch := .start, stored := [] }

/-- What the room holds now, it has stored. -/
def withRoom (state : Download) (room : ChatRoom) : Download :=
  { state with
    room
    stored := state.stored ++ (room.checkpoint.map Checkpoint.bytes).toList }

def step : Step Download DownloadEvent
  | state, .write write => some (state.withRoom (state.room.write write))
  | state, .reset => some (state.withRoom state.room.reset)
  | state, .send =>
      match state.fetch.phase with
      | .ready => some { state with fetch := state.fetch.attempt }
      | _ => none
  | state, .abandon reason => some { state with
      fetch := { state.fetch with phase := .failed reason } }
  | state, .lose failure =>
      match state.fetch.phase with
      | .waiting => some { state with fetch := state.fetch.retry failure }
      | .answered _ => some { state with fetch := state.fetch.retry failure }
      | _ => none
  | state, .serve =>
      match state.fetch.phase with
      | .waiting => some { state with
          fetch := { state.fetch with
            phase := .answered (state.room.serveCheckpoint state.fetch.range) } }
      | _ => none
  | state, .refuse code =>
      match state.fetch.phase with
      | .waiting => some { state with
          fetch := { state.fetch with phase := .failed s!"checkpoint HTTP {code}" } }
      | _ => none
  | state, .receiveHead =>
      match state.fetch.phase with
      | .answered answer => some { state with fetch := state.fetch.receiveHead answer }
      | _ => none
  | state, .receiveChunk count =>
      match state.fetch.phase with
      | .streaming rest => some { state with fetch := state.fetch.receiveChunk rest count }
      | _ => none
  | state, .drop failure =>
      match state.fetch.phase with
      | .streaming _ => some { state with fetch := state.fetch.retry failure }
      | _ => none
  | state, .finish =>
      match state.fetch.phase with
      | .streaming [] => some { state with
          fetch := { state.fetch with phase := .returned state.fetch.got } }
      | _ => none

/-- What the download returns is a blob that the room has stored. -/
def Whole (state : Download) : Prop :=
  ∀ bytes, state.fetch.phase = .returned bytes → bytes ∈ state.stored

/-- A request is answered from a checkpoint with the number that the download has seen only if
its blob begins with the bytes that the download holds. -/
def Continues (state : Download) : DownloadEvent → Prop
  | .serve => ∀ checkpoint ∈ state.room.checkpoint,
      state.fetch.seenSeq = some checkpoint.seqCovered → state.fetch.got <+: checkpoint.bytes
  | _ => True

instance (state : Download) (event : DownloadEvent) : Decidable (state.Continues event) :=
  match event with
  | .serve => inferInstanceAs (Decidable (∀ checkpoint ∈ state.room.checkpoint,
      state.fetch.seenSeq = some checkpoint.seqCovered → state.fetch.got <+: checkpoint.bytes))
  | .write _ | .reset | .send | .abandon _ | .lose _ | .refuse _ | .receiveHead | .receiveChunk _
  | .drop _ | .finish => .isTrue trivial

/-! ## The invariant -/

/-- An answer that the download takes over completes what it holds to a stored blob. -/
def Completes (fetch : Fetch) (stored : List (List UInt8)) : CheckpointAnswer → Prop
  | .body ranged seq bytes =>
      fetch.seenSeq.isSome ∧ fetch.seenSeq ≠ some seq ∨
        (if ranged then fetch.got else []) ++ bytes ∈ stored
  | _ => True

/-- What has come together with what is to come is a stored blob. -/
def InPhase (fetch : Fetch) (stored : List (List UInt8)) : FetchPhase → Prop
  | .answered answer => Completes fetch stored answer
  | .streaming rest => fetch.seenSeq.isSome ∧ fetch.got ++ rest ∈ stored
  | .returned bytes => bytes ∈ stored
  | _ => True

structure Sound (state : Download) : Prop where
  held : ∀ checkpoint, state.room.checkpoint = some checkpoint → checkpoint.bytes ∈ state.stored
  seen : state.fetch.got ≠ [] → state.fetch.seenSeq.isSome = true
  phase : InPhase state.fetch state.stored state.fetch.phase

theorem sound_start : start.Sound where
  held _ stored := by cases stored
  seen some_byte := absurd rfl some_byte
  phase := trivial

theorem Completes.mono {fetch : Fetch} {stored more : List (List UInt8)}
    {answer : CheckpointAnswer} (completes : Completes fetch stored answer)
    (grows : stored ⊆ more) : Completes fetch more answer := by
  cases answer with
  | notFound => trivial
  | beyondEnd total => trivial
  | body ranged seq bytes => exact completes.imp id fun listed => grows listed

theorem InPhase.mono {fetch : Fetch} {stored more : List (List UInt8)} {phase : FetchPhase}
    (inPhase : InPhase fetch stored phase) (grows : stored ⊆ more) : InPhase fetch more phase := by
  cases phase with
  | ready => trivial
  | waiting => trivial
  | answered answer => exact Completes.mono inPhase grows
  | streaming rest => exact ⟨inPhase.1, grows inPhase.2⟩
  | returned bytes => exact grows inPhase
  | failed reason => trivial

namespace Sound

variable {state : Download}

theorem withRoom (sound : state.Sound) (room : ChatRoom) : (state.withRoom room).Sound where
  held := by
    intro checkpoint stored
    apply List.mem_append_right
    change room.checkpoint = some checkpoint at stored
    rw [stored]
    exact List.mem_singleton_self _
  seen := sound.seen
  phase := sound.phase.mono (List.subset_append_left _ _)

/-- A phase in which nothing is on its way. -/
theorem withPhase (sound : state.Sound) (phase : FetchPhase)
    (quiet : InPhase state.fetch state.stored phase) :
    ({ state with fetch := { state.fetch with phase } } : Download).Sound where
  held := sound.held
  seen := sound.seen
  phase := by
    cases phase with
    | ready => trivial
    | waiting => trivial
    | answered answer =>
        cases answer with
        | notFound => trivial
        | beyondEnd total => trivial
        | body ranged seq bytes => exact quiet
    | streaming rest => exact quiet
    | returned bytes => exact quiet
    | failed reason => trivial

/-- What the room answers completes what the download holds, or restarts it. -/
theorem completes_serve (sound : state.Sound) (continues : state.Continues .serve) :
    Completes state.fetch state.stored (state.room.serveCheckpoint state.fetch.range) := by
  unfold ChatRoom.serveCheckpoint
  cases stored : state.room.checkpoint with
  | none => trivial
  | some checkpoint =>
      have listed := sound.held checkpoint stored
      dsimp only
      split
      · trivial
      · unfold Fetch.range
        cases empty : state.fetch.got.isEmpty with
        | true =>
            right
            exact listed
        | false =>
            have some_byte : state.fetch.got ≠ [] := by
              intro none
              rw [none] at empty
              cases empty
            by_cases same : state.fetch.seenSeq = some checkpoint.seqCovered
            · right
              rcases continues checkpoint stored same with ⟨rest, whole⟩
              change state.fetch.got ++ checkpoint.bytes.drop state.fetch.got.length ∈ state.stored
              rw [← whole, List.drop_left, whole]
              exact listed
            · left
              exact ⟨sound.seen some_byte, same⟩

theorem receiveHead (sound : state.Sound) {answer : CheckpointAnswer}
    (answered : state.fetch.phase = .answered answer) :
    ({ state with fetch := state.fetch.receiveHead answer } : Download).Sound := by
  have completes := sound.phase
  rw [answered] at completes
  cases answer with
  | notFound => exact sound.withPhase (.failed "no checkpoint") trivial
  | beyondEnd total => exact sound.withPhase (.failed "checkpoint range beyond end") trivial
  | body ranged seq bytes =>
      unfold Fetch.receiveHead
      dsimp only
      split
      · exact ⟨sound.held, fun some_byte => absurd rfl some_byte, trivial⟩
      · rename_i same
        refine ⟨sound.held, fun _ => rfl, rfl, ?_⟩
        rcases completes with other | listed
        · exact absurd other same
        · exact listed

theorem receiveChunk (sound : state.Sound) {rest : List UInt8}
    (streaming : state.fetch.phase = .streaming rest) (count : Nat) :
    ({ state with fetch := state.fetch.receiveChunk rest count } : Download).Sound := by
  have coming := sound.phase
  rw [streaming] at coming
  refine ⟨sound.held, fun _ => coming.1, coming.1, ?_⟩
  change (state.fetch.got ++ rest.take count) ++ rest.drop count ∈ state.stored
  rw [List.append_assoc, List.take_append_drop]
  exact coming.2

end Sound

theorem Sound.step {state next : Download} {event : DownloadEvent} (sound : state.Sound)
    (continues : state.Continues event) (stepped : step state event = some next) :
    next.Sound := by
  cases event with
  | write write =>
      cases stepped
      exact sound.withRoom _
  | reset =>
      cases stepped
      exact sound.withRoom _
  | send =>
      unfold Download.step at stepped
      dsimp only at stepped
      split at stepped
      · cases stepped
        unfold Fetch.attempt
        split
        · exact ⟨sound.held, sound.seen, trivial⟩
        · exact ⟨sound.held, sound.seen, trivial⟩
      · cases stepped
  | abandon reason =>
      cases stepped
      exact ⟨sound.held, sound.seen, trivial⟩
  | lose failure =>
      unfold Download.step at stepped
      dsimp only at stepped
      split at stepped
      · cases stepped
        exact ⟨sound.held, sound.seen, trivial⟩
      · cases stepped
        exact ⟨sound.held, sound.seen, trivial⟩
      · cases stepped
  | serve =>
      unfold Download.step at stepped
      dsimp only at stepped
      split at stepped
      · cases stepped
        exact sound.withPhase _ (sound.completes_serve continues)
      · cases stepped
  | refuse code =>
      unfold Download.step at stepped
      dsimp only at stepped
      split at stepped
      · cases stepped
        exact ⟨sound.held, sound.seen, trivial⟩
      · cases stepped
  | receiveHead =>
      unfold Download.step at stepped
      dsimp only at stepped
      split at stepped
      · rename_i answer answered
        cases stepped
        exact sound.receiveHead answered
      · cases stepped
  | receiveChunk count =>
      unfold Download.step at stepped
      dsimp only at stepped
      split at stepped
      · rename_i rest streaming
        cases stepped
        exact sound.receiveChunk streaming count
      · cases stepped
  | drop failure =>
      unfold Download.step at stepped
      dsimp only at stepped
      split at stepped
      · cases stepped
        exact ⟨sound.held, sound.seen, trivial⟩
      · cases stepped
  | finish =>
      unfold Download.step at stepped
      dsimp only at stepped
      split at stepped
      · rename_i streaming
        cases stepped
        have coming := sound.phase
        rw [streaming] at coming
        have listed := coming.2
        rw [List.append_nil] at listed
        exact ⟨sound.held, sound.seen, listed⟩
      · cases stepped

/-- A download that is never resumed on a blob which its bytes do not begin returns a blob that
the room has stored, whatever is committed, lost or cut off meanwhile. -/
theorem downloads_are_whole {events : List DownloadEvent}
    (continues : EveryStep step Continues start events) : EveryState step Whole start events := by
  apply everyState_of_everyStep Sound.step _ sound_start continues
  intro state sound bytes returned
  have listed := sound.phase
  rw [returned] at listed
  exact listed

/-- A download that is cut off, while the same checkpoint is committed once more. -/
def resumedDownload : List DownloadEvent :=
  [.write (.push "phone" "b" [0]), .write (.checkpoint 1 [1] [1, 2, 3]), .send, .serve,
    .receiveHead, .receiveChunk 2, .drop "reset", .write (.checkpoint 1 [1] [1, 2, 3]), .send, .serve,
    .receiveHead, .receiveChunk 1, .finish]

theorem downloads_are_whole_of_resumed : EveryState step Whole start resumedDownload :=
  downloads_are_whole (everyStep_of_checkSteps (fun state event => decide (state.Continues event))
    (fun _ _ => of_decide_eq_true) (by decide +kernel))

/-- The same download, and another checkpoint under the same number. -/
def splicedDownload : List DownloadEvent :=
  [.write (.push "phone" "b" [0]), .write (.checkpoint 1 [1] [1, 2, 3]), .send, .serve,
    .receiveHead, .receiveChunk 2, .drop "reset", .write (.checkpoint 1 [1] [4, 5, 6]), .send, .serve,
    .receiveHead, .receiveChunk 1, .finish]

/-- The head of one blob and the tail of another are returned. -/
theorem recommitted_checkpoint_is_spliced : ¬ EveryState step Whole start splicedDownload := by
  intro every
  have spliced : ∃ final ∈ run step start splicedDownload,
      final.fetch.phase = .returned [1, 2, 6] ∧ [1, 2, 6] ∉ final.stored := by
    decide +kernel
  rcases spliced with ⟨final, ran, phase, absent⟩
  exact absent (every.final ran [1, 2, 6] phase)

end Download

end Zeron.Chat
