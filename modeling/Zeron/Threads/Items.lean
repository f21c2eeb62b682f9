import Zeron.Orchestration.Store
import Zeron.Threads.Rows

/-!
# Turn items

What the planners put into the transcript, and the ordinals that they number it by: most
of them by the largest ordinal, two by the number of items.
-/

namespace Zeron.Threads

open Data
open Orchestration (encodeComponent)

/-- The ordinal of the item that an event brings. -/
def Event.itemOrdinal : Event → Option Int
  | .turnItemUpdated item => some item.ordinal
  | _ => none

/-- `task::message`. -/
def newMessage (run node : Option String) (id text role : String) (now : Int) : Message :=
  { id
    runId := run
    nodeId := node
    role
    text
    streaming := false
    createdAt := now
    updatedAt := now
    delegatedParent := none }

variable (items : Table TurnItem.id)

/-- The largest ordinal of the transcript. -/
def lastOrdinal : Int :=
  (items.rows.map TurnItem.ordinal).max?.getD 0

/-- `next_item_ordinal`, after the events of a plan. -/
def nextItemOrdinal (plan : List Event) : Int :=
  (plan.filterMap Event.itemOrdinal).foldl max (lastOrdinal items) + 1

/-- An item without the fields that few of them have. -/
def plainItem (id type : String) (run : Option String) (ordinal : Int) (status : String)
    (message : Option String) : TurnItem :=
  { id
    type
    runId := run
    ordinal
    status
    persistent := false
    appOwned := false
    subagentId := none
    messageId := message }

/-- `user_item`. -/
def userItem (run : Run) (message : Message) : TurnItem :=
  plainItem s!"turn-item:user:{encodeComponent message.id}" "user_message" (some run.id)
    (lastOrdinal items + 1) "completed" (some message.id)

/-- The item of a message that steers a run, out of the queue or as an answer. -/
def steerItem (run : Run) (message : Message) : TurnItem :=
  plainItem s!"turn-item:message:{encodeComponent message.id}" "user_message" (some run.id)
    (lastOrdinal items + 1) "completed" (some message.id)

/-- The user's item, at the acceptance of the input. -/
def acceptedItem (run : Run) (plan : List Event) (message : Message) : TurnItem :=
  let item :=
    match items.rows.find? fun item =>
      item.type == "user_message" && decide (item.messageId = some message.id) with
    | some item => item
    | none => { userItem items run message with ordinal := nextItemOrdinal items plan }
  { item with runId := some run.id }

/-- `assistant_item`. -/
def assistantItem (plan : List Event) (message : Message) : TurnItem :=
  let id := s!"turn-item:assistant:{encodeComponent message.id}"
  plainItem id "assistant_message" message.runId
    (((items.get id).map TurnItem.ordinal).getD (nextItemOrdinal items plan))
    (if message.streaming then "running" else "completed") (some message.id)

/-- The item of a turn that has failed. -/
def errorItem (run : Run) (plan : List Event) : TurnItem :=
  plainItem s!"turn-item:error:{encodeComponent run.id}" "error" (some run.id)
    (nextItemOrdinal items plan) "failed" none

/-- The item of a question, as `observe` numbers it. -/
def questionItem (run : Run) (requestId : String) : TurnItem :=
  plainItem s!"item:request:{encodeComponent requestId}" "user_input_request" (some run.id)
    (items.rows.length + 1) "running" none

/-- The item of a delegated task. -/
def taskItem (run : Run) (itemId taskId : String) : TurnItem :=
  { plainItem itemId "subagent" (some run.id) (items.rows.length + 1) "running" none with
    appOwned := true
    subagentId := some taskId }

/-- The item of a thread that a run has created. -/
def threadItem (commandId runId : String) : TurnItem :=
  plainItem s!"turn-item:created-thread:{encodeComponent commandId}" "thread_created" (some runId)
    (lastOrdinal items + 1) "completed" none

/-- The item that asks for an interrupt. -/
def interruptItem (run : Run) : TurnItem :=
  plainItem s!"turn-item:{encodeComponent run.id}:interrupt-request" "run_interrupt_request"
    (some run.id) (lastOrdinal items + 1) "completed" none

/-- The item that ends it, where no turn has been accepted. -/
def interruptedItem (run : Run) : TurnItem :=
  plainItem s!"turn-item:{encodeComponent run.id}:interrupt-result" "run_interrupt_result"
    (some run.id) ((interruptItem items run).ordinal + 1) "interrupted" none

/-- The item of background work that was stopped. -/
def stoppedItem (run : Run) (plan : List Event) (effectId : String) : TurnItem :=
  plainItem s!"turn-item:background-stop:{encodeComponent effectId}" "run_interrupt_result"
    (some run.id) (nextItemOrdinal items plan) "interrupted" none

/-- The item of an adopted message. -/
def legacyItem (index : Nat) (message : Message) : TurnItem :=
  plainItem s!"turn-item:legacy:{encodeComponent message.id}"
    (if message.role = "user" then "user_message" else "assistant_message") none (index + 1)
    "completed" (some message.id)

end Zeron.Threads
