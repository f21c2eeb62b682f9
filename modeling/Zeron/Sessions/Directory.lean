import Zeron.Data.Assoc
import Zeron.Orchestration.Store
import Mathlib.Data.List.MinMax

/-!
# The directory of the journals

Each chat has a journal file and a file with its resume attempts, named after its id.  The
name keeps letters, digits, dashes and underscores of the id and has an underscore for
anything else.  Names that differ in case are different files.  Reads and writes succeed.
-/

namespace Zeron.Sessions.Directory

open Data.Assoc

/-- What `sanitize_id` keeps. -/
def kept (c : Char) : Bool :=
  c.isAlphanum || c == '-' || c == '_'

def sanitizeId (chatId : String) : String :=
  String.ofList (chatId.toList.map fun c => if kept c then c else '_')

/-- `delegated_thread_id`. -/
def delegatedThreadId (command : String) : String :=
  "thread:delegated-task:" ++ Orchestration.encodeComponent command

/-- An open file: `linked` until the file of its name is removed. -/
structure ChatJournal where
  nextSeq : Nat
  used : Nat
  linked : Bool

/-- `RunJournal`: the files by their stems, and the open ones by their chats. -/
structure RunJournal (ε : Type) where
  files : List (String × List (Nat × ε))
  resumes : List (String × Nat)
  openFiles : List (String × ChatJournal)
  generation : Nat

inductive Call (ε : Type) where
  | append (chatId : String) (event : ε)
  | replay (chatId : String) (afterSeq : Nat)
  | lastEvent (chatId : String)
  | discard (chatId : String)
  | resumeAttempts (chatId : String)
  | noteResumeAttempt (chatId : String)
  | clearResumeAttempts (chatId : String)
  /-- The process starts again. -/
  | reopen

/-- The chat that a call is about. -/
def Call.chat {ε : Type} : Call ε → Option String
  | .append chatId _ | .replay chatId _ | .lastEvent chatId | .discard chatId
  | .resumeAttempts chatId | .noteResumeAttempt chatId | .clearResumeAttempts chatId =>
      some chatId
  | .reopen => none

inductive Answer (ε : Type) where
  | seq (seq : Nat)
  | events (events : List (Nat × ε))
  | last (event : Option (Nat × ε))
  | attempts (count : Nat)
  | done
  deriving DecidableEq

variable {ε : Type}

/-- `scan_tail`: the number after the last one. -/
def scanTail (lines : List (Nat × ε)) : Nat :=
  (lines.getLast?.map fun line => line.1 + 1).getD 1

/-- `replay` of the lines of a file. -/
def replayed (lines : List (Nat × ε)) (afterSeq : Nat) : List (Nat × ε) :=
  let lastSeq := (lines.getLast?.map Prod.fst).getD 0
  let start := if lastSeq < afterSeq then 0 else afterSeq
  lines.filter fun line => decide (start < line.1)

def openFileCap : Nat := 16

namespace RunJournal

def init : RunJournal ε where
  files := []
  resumes := []
  openFiles := []
  generation := 0

def lines (journal : RunJournal ε) (chatId : String) : List (Nat × ε) :=
  (journal.files.lookup (sanitizeId chatId)).getD []

def attempts (journal : RunJournal ε) (chatId : String) : Nat :=
  (journal.resumes.lookup (sanitizeId chatId)).getD 0

/-- The open files without the one that was used the longest time ago. -/
def evict (openFiles : List (String × ChatJournal)) : List (String × ChatJournal) :=
  match openFiles.argmin fun entry => entry.2.used with
  | some oldest => drop openFiles oldest.1
  | none => openFiles

/-- The file that `append` writes to, and the other open ones. -/
def opened (journal : RunJournal ε) (chatId : String) :
    ChatJournal × List (String × ChatJournal) :=
  match journal.openFiles.lookup chatId with
  | some file => ({ file with used := journal.generation }, journal.openFiles)
  | none =>
      ({ nextSeq := scanTail (journal.lines chatId), used := journal.generation, linked := true },
        if openFileCap ≤ journal.openFiles.length then evict journal.openFiles
        else journal.openFiles)

def append (journal : RunJournal ε) (chatId : String) (event : ε) : RunJournal ε × Nat :=
  let (file, others) := journal.opened chatId
  ({ journal with
      files :=
        if file.linked then
          put journal.files (sanitizeId chatId) (journal.lines chatId ++ [(file.nextSeq, event)])
        else journal.files
      openFiles := put others chatId { file with nextSeq := file.nextSeq + 1 }
      generation := journal.generation + 1 }, file.nextSeq)

/-- `discard`; the other open files of the name stay open, and their writes are lost. -/
def discard (journal : RunJournal ε) (chatId : String) : RunJournal ε :=
  { journal with
    files := drop journal.files (sanitizeId chatId)
    openFiles := (drop journal.openFiles chatId).map fun entry =>
      if sanitizeId entry.1 = sanitizeId chatId then (entry.1, { entry.2 with linked := false })
      else entry }

def step (journal : RunJournal ε) : Call ε → RunJournal ε × Answer ε
  | .append chatId event =>
      let (next, seq) := journal.append chatId event
      (next, .seq seq)
  | .replay chatId afterSeq => (journal, .events (replayed (journal.lines chatId) afterSeq))
  | .lastEvent chatId => (journal, .last (journal.lines chatId).getLast?)
  | .discard chatId => (journal.discard chatId, .done)
  | .resumeAttempts chatId => (journal, .attempts (journal.attempts chatId))
  | .noteResumeAttempt chatId =>
      let next := journal.attempts chatId + 1
      ({ journal with resumes := put journal.resumes (sanitizeId chatId) next }, .attempts next)
  | .clearResumeAttempts chatId =>
      ({ journal with resumes := drop journal.resumes (sanitizeId chatId) }, .done)
  | .reopen => ({ journal with openFiles := [], generation := 0 }, .done)

/-- The answers to the calls about a chat. -/
def answersTo (chatId : String) : RunJournal ε → List (Call ε) → List (Answer ε)
  | _, [] => []
  | journal, call :: calls =>
      if call.chat = some chatId then
        (journal.step call).2 :: answersTo chatId (journal.step call).1 calls
      else answersTo chatId (journal.step call).1 calls

def after : RunJournal ε → List (Call ε) → RunJournal ε
  | journal, [] => journal
  | journal, call :: calls => after (journal.step call).1 calls

/-- `stale_sessions`, unsorted.  A file with the empty stem is `.jsonl`, a name without an
extension. -/
def staleSessions (journal : RunJournal ε) (isDone : ε → Bool) : List String :=
  (journal.files.map Prod.fst).filter fun stem =>
    decide (stem ≠ "") && ((journal.files.lookup stem).bind List.getLast?).any fun line =>
      !isDone line.2

end RunJournal

/-- The calls about a chat, and the restarts. -/
def own (chatId : String) (calls : List (Call ε)) : List (Call ε) :=
  calls.filter fun call => decide (call.chat = none ∨ call.chat = some chatId)

/-- The last event in the journal of a chat: what was appended since it was discarded. -/
def lastAppended (chatId : String) : List (Call ε) → Option ε → Option ε
  | [], last => last
  | .append chat event :: calls, last =>
      lastAppended chatId calls (if chat = chatId then some event else last)
  | .discard chat :: calls, last =>
      lastAppended chatId calls (if chat = chatId then none else last)
  | _ :: calls, last => lastAppended chatId calls last

section Claim

variable (ids : Set String) (isDone : ε → Bool)

/-- All calls are about the given chats. -/
def Within (calls : List (Call ε)) : Prop :=
  ∀ call ∈ calls, ∀ chatId ∈ call.chat, chatId ∈ ids

/-- A chat is answered as if the others were not there. -/
def Separate (ε : Type) : Prop :=
  ∀ calls : List (Call ε), Within ids calls → ∀ chatId ∈ ids,
    RunJournal.answersTo chatId .init calls = RunJournal.answersTo chatId .init (own chatId calls)

/-- Exactly the chats are stale whose last event is not `Done`. -/
def StaleExactly : Prop :=
  ∀ calls, Within ids calls → ∀ chatId,
    chatId ∈ (RunJournal.init.after calls).staleSessions isDone ↔
      ∃ event, lastAppended chatId calls none = some event ∧ isDone event = false

end Claim

/-- An id that is its own file name. -/
def Plain (chatId : String) : Prop :=
  chatId ≠ "" ∧ ∀ c ∈ chatId.toList, kept c = true

/-! ## Names -/

theorem sanitizeId_eq_iff {chatId : String} :
    sanitizeId chatId = chatId ↔ ∀ c ∈ chatId.toList, kept c = true := by
  have keep : ∀ c : Char, (if kept c then c else '_') = c ↔ kept c = true := by
    intro c
    constructor
    · intro same
      by_contra lost
      rw [if_neg lost] at same
      exact lost (same ▸ by decide)
    · exact fun keeps => if_pos keeps
  rw [sanitizeId, ← String.toList_inj, String.toList_ofList]
  nth_rewrite 2 [← List.map_id chatId.toList]
  rw [List.map_inj_left]
  exact forall_congr' fun c => imp_congr_right fun _ => keep c

theorem plain_a : Plain "a" :=
  ⟨by decide, List.all_eq_true.mp (by decide)⟩

theorem Plain.sanitizeId {chatId : String} (plain : Plain chatId) :
    sanitizeId chatId = chatId :=
  sanitizeId_eq_iff.mpr plain.2

namespace RunJournal

variable {journal other : RunJournal ε} {chatId : String} {call : Call ε} {calls : List (Call ε)}

/-- What holds while all chats have plain ids: an open file is the one of its name, and it
goes on where that ends. -/
structure Sound (journal : RunJournal ε) : Prop where
  named : ∀ entry ∈ journal.files, Plain entry.1
  opened : ∀ entry ∈ journal.openFiles, Plain entry.1 ∧ entry.2.linked = true ∧
    entry.2.nextSeq = scanTail (journal.lines entry.1)

theorem sound_init : (init : RunJournal ε).Sound := by
  constructor <;> simp [init]

theorem Sound.opened_eq (sound : journal.Sound) (chatId : String) :
    (journal.opened chatId).1.linked = true ∧
      (journal.opened chatId).1.nextSeq = scanTail (journal.lines chatId) ∧
      ∀ entry ∈ (journal.opened chatId).2, entry ∈ journal.openFiles := by
  unfold RunJournal.opened
  split
  · rename_i file found
    have listed := sound.opened _ (mem_of_lookup found)
    exact ⟨listed.2.1, listed.2.2, fun _ same => same⟩
  · refine ⟨rfl, rfl, ?_⟩
    intro entry there
    split at there
    · unfold evict at there
      split at there
      · exact (List.mem_filter.mp there).1
      · exact there
    · exact there

theorem files_append (sound : journal.Sound) (chatId : String) (event : ε) :
    (journal.append chatId event).1.files = put journal.files (sanitizeId chatId)
      (journal.lines chatId ++ [(scanTail (journal.lines chatId), event)]) := by
  rcases sound.opened_eq chatId with ⟨linked, next, -⟩
  simp only [RunJournal.append, linked, if_true, next]

theorem lines_append (sound : journal.Sound) (chatId : String) (event : ε) :
    (journal.append chatId event).1.lines chatId =
      journal.lines chatId ++ [(scanTail (journal.lines chatId), event)] := by
  rw [lines, files_append sound, lookup_put_self, Option.getD_some]

/-- A call about another chat leaves the files of a chat alone. -/
theorem step_other (call : Call ε) (sound : journal.Sound) (plain : Plain chatId)
    (others : ∀ named ∈ call.chat, Plain named) (apart : call.chat ≠ some chatId) :
    (journal.step call).1.lines chatId = journal.lines chatId ∧
      (journal.step call).1.attempts chatId = journal.attempts chatId := by
  have names : ∀ named ∈ call.chat, sanitizeId chatId ≠ sanitizeId named := by
    intro named mentioned same
    rw [plain.sanitizeId, (others named mentioned).sanitizeId] at same
    exact apart (same ▸ mentioned)
  cases call with
  | append named event =>
      refine ⟨?_, rfl⟩
      change (((journal.append named event).1.files).lookup (sanitizeId chatId)).getD [] = _
      rw [files_append sound, lookup_put_of_ne (names named rfl)]
      rfl
  | discard named =>
      refine ⟨?_, rfl⟩
      simp only [lines, step, discard, lookup_drop_of_ne (names named rfl)]
  | noteResumeAttempt named =>
      refine ⟨rfl, ?_⟩
      simp only [attempts, step, lookup_put_of_ne (names named rfl)]
  | clearResumeAttempts named =>
      refine ⟨rfl, ?_⟩
      simp only [attempts, step, lookup_drop_of_ne (names named rfl)]
  | replay | lastEvent | resumeAttempts | reopen => exact ⟨rfl, rfl⟩

/-- A call about a chat reads and writes the files of this chat only. -/
theorem step_own (sound : journal.Sound) (soundToo : other.Sound)
    (about : call.chat = some chatId) (sameLines : journal.lines chatId = other.lines chatId)
    (sameAttempts : journal.attempts chatId = other.attempts chatId) :
    (journal.step call).2 = (other.step call).2 ∧
      (journal.step call).1.lines chatId = (other.step call).1.lines chatId ∧
      (journal.step call).1.attempts chatId = (other.step call).1.attempts chatId := by
  cases call with
  | append named event =>
      cases about
      refine ⟨?_, ?_, sameAttempts⟩
      · change Answer.seq (journal.opened chatId).1.nextSeq =
          Answer.seq (other.opened chatId).1.nextSeq
        rw [(sound.opened_eq chatId).2.1, (soundToo.opened_eq chatId).2.1, sameLines]
      · exact (lines_append sound chatId event).trans
          (sameLines ▸ (lines_append soundToo chatId event).symm)
  | discard named =>
      cases about
      exact ⟨rfl, by simp [lines, step, discard], sameAttempts⟩
  | noteResumeAttempt named =>
      cases about
      refine ⟨by simp only [step, sameAttempts], sameLines, ?_⟩
      rw [attempts, attempts, step, step]
      rw [lookup_put_self, lookup_put_self, sameAttempts]
  | clearResumeAttempts named =>
      cases about
      exact ⟨rfl, sameLines, by simp [attempts, step]⟩
  | replay named afterSeq =>
      cases about
      exact ⟨by simp only [step, sameLines], sameLines, sameAttempts⟩
  | lastEvent named =>
      cases about
      exact ⟨by simp only [step, sameLines], sameLines, sameAttempts⟩
  | resumeAttempts named =>
      cases about
      exact ⟨by simp only [step, sameAttempts], sameLines, sameAttempts⟩
  | reopen => cases about

theorem Sound.step (sound : journal.Sound) (plain : ∀ named ∈ call.chat, Plain named) :
    (journal.step call).1.Sound := by
  cases call with
  | append named event =>
      rcases sound.opened_eq named with ⟨linked, next, others⟩
      have own := plain named rfl
      constructor
      · intro entry listed
        change entry ∈ (journal.append named event).1.files at listed
        rw [files_append sound] at listed
        rcases List.mem_cons.mp listed with rfl | listed
        · exact own.sanitizeId.symm ▸ own
        · exact sound.named entry (List.mem_filter.mp listed).1
      · intro entry listed
        rcases List.mem_cons.mp listed with rfl | listed
        · refine ⟨own, linked, ?_⟩
          change (journal.opened named).1.nextSeq + 1 =
            scanTail ((journal.append named event).1.lines named)
          rw [lines_append sound, scanTail, List.getLast?_concat, next]
          rfl
        · rcases List.mem_filter.mp listed with ⟨before, apart⟩
          rcases sound.opened entry (others entry before) with ⟨theirs, linkedToo, nextToo⟩
          refine ⟨theirs, linkedToo, nextToo.trans (congrArg scanTail ?_)⟩
          have unchanged := step_other (.append named event) sound theirs plain fun same =>
            of_decide_eq_true apart (Option.some.inj same).symm
          exact unchanged.1.symm
  | discard named =>
      constructor
      · intro entry listed
        exact sound.named entry (List.mem_filter.mp listed).1
      · intro entry listed
        rcases List.mem_map.mp listed with ⟨before, kept, rfl⟩
        rcases List.mem_filter.mp kept with ⟨there, apart⟩
        rcases sound.opened before there with ⟨theirs, linked, next⟩
        have other : sanitizeId before.1 ≠ sanitizeId named := by
          rw [theirs.sanitizeId, (plain named rfl).sanitizeId]
          exact of_decide_eq_true apart
        rw [if_neg other]
        refine ⟨theirs, linked, next.trans (congrArg scanTail ?_)⟩
        have unchanged := step_other (.discard named) sound theirs plain fun same =>
          of_decide_eq_true apart (Option.some.inj same).symm
        exact unchanged.1.symm
  | reopen => exact ⟨sound.named, by simp [RunJournal.step]⟩
  | replay | lastEvent | resumeAttempts | noteResumeAttempt | clearResumeAttempts =>
      exact ⟨sound.named, sound.opened⟩

/-! ## Runs -/

theorem answersTo_own (sound : journal.Sound) (soundToo : other.Sound) (plain : Plain chatId)
    (within : ∀ call ∈ calls, ∀ named ∈ call.chat, Plain named)
    (sameLines : journal.lines chatId = other.lines chatId)
    (sameAttempts : journal.attempts chatId = other.attempts chatId) :
    answersTo chatId journal calls = answersTo chatId other (own chatId calls) := by
  induction calls generalizing journal other with
  | nil => rfl
  | cons call calls ih =>
      have named := within call List.mem_cons_self
      have rest := fun next listed => within next (List.mem_cons_of_mem _ listed)
      have next := sound.step named
      by_cases mine : call.chat = some chatId
      · rcases step_own sound soundToo mine sameLines sameAttempts with ⟨answer, first, second⟩
        rw [own, List.filter_cons_of_pos (by simp [mine]), answersTo, answersTo, if_pos mine,
          if_pos mine, answer]
        exact congrArg _ (ih next (soundToo.step named) rest first second)
      · rcases step_other _ sound plain named mine with ⟨first, second⟩
        rw [answersTo, if_neg mine]
        by_cases restart : call.chat = none
        · rcases step_other _ soundToo plain named mine with ⟨firstToo, secondToo⟩
          rw [own, List.filter_cons_of_pos (by simp [restart]), answersTo, if_neg mine]
          exact ih next (soundToo.step named) rest
            (first.trans (sameLines.trans firstToo.symm))
            (second.trans (sameAttempts.trans secondToo.symm))
        · rw [own, List.filter_cons_of_neg (by simp [restart, mine])]
          exact ih next soundToo rest (first.trans sameLines) (second.trans sameAttempts)

/-- The journal of a chat ends with the event that was appended last. -/
theorem last_after (sound : journal.Sound) (plain : Plain chatId)
    (within : ∀ call ∈ calls, ∀ named ∈ call.chat, Plain named) :
    (journal.after calls).Sound ∧ ((journal.after calls).lines chatId).getLast?.map Prod.snd =
      lastAppended chatId calls ((journal.lines chatId).getLast?.map Prod.snd) := by
  induction calls generalizing journal with
  | nil => exact ⟨sound, rfl⟩
  | cons call calls ih =>
      have named := within call List.mem_cons_self
      have run := ih (sound.step named) fun next listed =>
        within next (List.mem_cons_of_mem _ listed)
      refine ⟨run.1, run.2.trans ?_⟩
      have same := fun apart => (step_other _ sound plain named apart).1
      cases call with
      | append chat event =>
          rw [lastAppended]
          split
          · rename_i mine
            rw [← mine]
            change lastAppended chat calls
              (((journal.append chat event).1.lines chat).getLast?.map Prod.snd) = _
            rw [lines_append sound, List.getLast?_concat]
            rfl
          · rename_i apart
            rw [same fun mine => apart (Option.some.inj mine)]
      | discard chat =>
          rw [lastAppended]
          split
          · rename_i mine
            simp [← mine, lines, RunJournal.step, discard]
          · rename_i apart
            rw [same fun mine => apart (Option.some.inj mine)]
      | replay | lastEvent | resumeAttempts | noteResumeAttempt | clearResumeAttempts | reopen =>
          rfl

theorem mem_staleSessions_iff (plain : Plain chatId) {isDone : ε → Bool} :
    chatId ∈ journal.staleSessions isDone ↔
      ∃ event, (journal.lines chatId).getLast?.map Prod.snd = some event ∧
        isDone event = false := by
  rw [staleSessions, List.mem_filter, mem_keys_iff, lines, plain.sanitizeId]
  cases journal.files.lookup chatId with
  | none => simp
  | some lines => cases last : lines.getLast? <;> simp [plain.1, last]

end RunJournal

theorem lastAppended_of_absent {chatId : String} {calls : List (Call ε)}
    (absent : ∀ call ∈ calls, call.chat ≠ some chatId) (last : Option ε) :
    lastAppended chatId calls last = last := by
  induction calls with
  | nil => rfl
  | cons call calls ih =>
      have rest := ih fun other listed => absent other (List.mem_cons_of_mem _ listed)
      have apart := absent call List.mem_cons_self
      cases call with
      | append chat event =>
          rw [lastAppended, if_neg fun same => apart (congrArg some same), rest]
      | discard chat =>
          rw [lastAppended, if_neg fun same => apart (congrArg some same), rest]
      | replay | lastEvent | resumeAttempts | noteResumeAttempt | clearResumeAttempts | reopen =>
          exact rest

/-- Journals of different chats do not mix, and the stale ones are found under their ids,
exactly if each id is its own file name. -/
theorem journals_stay_separate_iff (ids : Set String) (isDone : ε → Bool)
    (live : ∃ event, isDone event = false) :
    (Separate ids ε ∧ StaleExactly ids isDone) ↔ ∀ chatId ∈ ids, Plain chatId := by
  constructor
  · rintro ⟨_, stale⟩ chatId listed
    rcases live with ⟨event, open_⟩
    have within : Within ids [Call.append chatId event] := by
      intro call only chat mentioned
      cases List.mem_singleton.mp only
      cases mentioned
      exact listed
    have found := (stale [.append chatId event] within chatId).mpr
      ⟨event, by simp [lastAppended], open_⟩
    have only : chatId = sanitizeId chatId ∧ sanitizeId chatId ≠ "" := by
      rcases List.mem_filter.mp found with ⟨key, stem⟩
      have same : chatId = sanitizeId chatId := List.mem_singleton.mp key
      exact ⟨same, same ▸ of_decide_eq_true (Bool.and_eq_true_iff.mp stem).1⟩
    exact ⟨only.1 ▸ only.2, sanitizeId_eq_iff.mp only.1.symm⟩
  · intro plain
    constructor
    · intro calls within chatId listed
      exact RunJournal.answersTo_own RunJournal.sound_init RunJournal.sound_init (plain chatId listed)
        (fun call there chat mentioned => plain chat (within call there chat mentioned)) rfl rfl
    · intro calls within chatId
      have named : ∀ call ∈ calls, ∀ chat ∈ call.chat, Plain chat :=
        fun call there chat mentioned => plain chat (within call there chat mentioned)
      by_cases own : Plain chatId
      · rw [RunJournal.mem_staleSessions_iff own, (RunJournal.last_after RunJournal.sound_init own named).2]
        rfl
      · have absent : ∀ call ∈ calls, call.chat ≠ some chatId :=
          fun call there same => own (named call there chatId same)
        rw [lastAppended_of_absent absent]
        simp only [reduceCtorEq, false_and, exists_false, iff_false]
        intro found
        have key := (List.mem_filter.mp found).1
        rcases List.mem_map.mp key with ⟨entry, there, rfl⟩
        have sound := (RunJournal.last_after RunJournal.sound_init plain_a named).1
        exact own (sound.named entry there)

theorem journals_stay_separate_of_letters :
    (Separate {"a", "b"} Bool ∧ StaleExactly {"a", "b"} id) ↔
      ∀ chatId ∈ ({"a", "b"} : Set String), Plain chatId :=
  journals_stay_separate_iff {"a", "b"} id ⟨false, rfl⟩

/-- The threads of two delegated tasks share one journal, and it is stale under neither id. -/
theorem delegated_journals_mix :
    delegatedThreadId "a.b" ≠ delegatedThreadId "a!b" ∧
      ¬Separate {delegatedThreadId "a.b", delegatedThreadId "a!b"} Bool ∧
        ¬StaleExactly {delegatedThreadId "a.b", delegatedThreadId "a!b"} id := by
  have first : delegatedThreadId "a.b" = "thread:delegated-task:a.b" := by decide +kernel
  have second : delegatedThreadId "a!b" = "thread:delegated-task:a!b" := by decide +kernel
  rw [first, second]
  have within : Within (ε := Bool) {"thread:delegated-task:a.b", "thread:delegated-task:a!b"}
      [.append "thread:delegated-task:a.b" false,
        .replay "thread:delegated-task:a!b" 0] := by
    intro call listed chatId mentioned
    rcases List.mem_pair.mp listed with rfl | rfl <;> cases mentioned <;> simp
  refine ⟨by decide, ?_, ?_⟩
  · intro separate
    exact absurd (separate _ within "thread:delegated-task:a!b" (by simp)) (by decide +kernel)
  · intro stale
    have found := (stale _ within "thread:delegated-task:a.b").mpr ⟨false, by decide, rfl⟩
    exact absurd found (by decide +kernel)

end Zeron.Sessions.Directory
