import Zeron.Data.Transaction

/-!
# Programs that answer each key once

A family of transactions records what it answers under the key of the call, and
answers a recorded key without doing anything.  However often calls are repeated
and cut short, what is left is what the first attempt to commit under each key
does, in the order of these attempts.
-/

namespace Zeron.Data

universe u

variable {σ β ε ρ χ κ : Type u}

/-- A call and the fault that meets it. -/
structure Attempt (χ β : Type u) where
  call : χ
  fault : Fault β

/-- The programs record their answers by key and replay recorded ones. -/
def AnswersOnce [DecidableEq κ] (program : χ → Tx σ β ε ρ) (key : χ → κ)
    (answer : σ → κ → Option ρ) : Prop :=
  ∀ call, (program call).Ensures fun before result final =>
    (answer before (key call) = some result ∧ final = before) ∨
      (answer before (key call) = none ∧
        ∀ k, answer final k = if key call = k then some result else answer before k)

section Attempts

variable [DecidableEq β] [DecidableEq κ] (before after : β) (program : χ → Tx σ β ε ρ)
  (key : χ → κ)

/-- What an attempt leaves. -/
def settle (state : σ) (attempt : Attempt χ β) : σ :=
  ((program attempt.call).commit before after state attempt.fault).state

def settleAll (state : σ) (attempts : List (Attempt χ β)) : σ :=
  attempts.foldl (settle before after program) state

/-- The first attempts to commit under keys that are not among `known`. -/
def firstCommitted : List κ → σ → List (Attempt χ β) → List χ
  | _, _, [] => []
  | known, state, attempt :: rest =>
      let next := settle before after program state attempt
      if (program attempt.call).commits before state attempt.fault && key attempt.call ∉ known then
        attempt.call :: firstCommitted (key attempt.call :: known) next rest
      else firstCommitted known next rest

/-- The calls, each undisturbed. -/
def runOnce (state : σ) (calls : List χ) : σ :=
  calls.foldl (fun state call => settle before after program state { call, fault := none }) state

variable {before after program key} {answer : σ → κ → Option ρ}

variable {state : σ} {attempt : Attempt χ β}

/-- An attempt that is cut short leaves nothing. -/
theorem settle_of_not_commits
    (cut : (program attempt.call).commits before state attempt.fault = false) :
    settle before after program state attempt = state :=
  Tx.commit_of_not_commits after cut

/-- One that commits leaves what it would leave undisturbed. -/
theorem settle_of_commits (through : (program attempt.call).commits before state attempt.fault) :
    settle before after program state attempt =
      settle before after program state { call := attempt.call, fault := none } := by
  obtain ⟨value, final, _, settled, calm⟩ := Tx.commit_of_commits after through
  unfold settle
  rw [settled, calm]

/-- What a committed attempt does to the answers. -/
theorem answer_of_commits (after : β) (once : AnswersOnce program key answer)
    (through : (program attempt.call).commits before state attempt.fault) :
    ((answer state (key attempt.call)).isSome ∧
        settle before after program state attempt = state) ∨
      (answer state (key attempt.call) = none ∧ ∃ result, ∀ k,
        answer (settle before after program state attempt) k =
          if key attempt.call = k then some result else answer state k) := by
  obtain ⟨value, final, ran, settled, _⟩ := Tx.commit_of_commits after through
  unfold settle
  rw [settled]
  obtain ⟨found, rfl⟩ | ⟨absent, recorded⟩ := (once attempt.call).sealed _ _ _ _ _ ran
  · left
    rw [found]
    exact ⟨rfl, rfl⟩
  · right
    exact ⟨absent, value, recorded⟩

variable {result : ρ}

/-- A recorded call is answered as before, if it is answered, and leaves nothing. -/
theorem replay (once : AnswersOnce program key answer)
    (answered : answer state (key attempt.call) = some result) :
    settle before after program state attempt = state ∧
      ∀ given, ((program attempt.call).commit before after state attempt.fault).answer = .ok given →
        given = result := by
  constructor
  · cases through : (program attempt.call).commits before state attempt.fault with
    | false => exact settle_of_not_commits through
    | true =>
        obtain ⟨_, same⟩ | ⟨absent, _⟩ := answer_of_commits after once through
        · exact same
        · rw [answered] at absent
          cases absent
  · intro given given_answer
    obtain ⟨left, ran⟩ := Tx.sealed_of_answer given_answer
    obtain ⟨found, _⟩ | ⟨absent, _⟩ := (once attempt.call).sealed.of_run ran
    · exact Option.some.inj (found.symm.trans answered)
    · rw [answered] at absent
      cases absent

variable {known : List κ}

/-- An attempt leaves nothing new, or it is the first to commit under its key. -/
theorem firstCommitted_cons (after : β) (once : AnswersOnce program key answer)
    (known_iff : ∀ k, k ∈ known ↔ (answer state k).isSome) (attempt : Attempt χ β)
    (rest : List (Attempt χ β)) :
    (settle before after program state attempt = state ∧
        firstCommitted before after program key known state (attempt :: rest) =
          firstCommitted before after program key known state rest) ∨
      ((program attempt.call).commits before state attempt.fault ∧
        firstCommitted before after program key known state (attempt :: rest) =
          attempt.call :: firstCommitted before after program key (key attempt.call :: known)
            (settle before after program state attempt) rest ∧
        ∀ k, k ∈ key attempt.call :: known ↔
          (answer (settle before after program state attempt) k).isSome) := by
  rw [firstCommitted]
  cases through : (program attempt.call).commits before state attempt.fault with
  | false =>
      left
      rw [settle_of_not_commits through]
      simp
  | true =>
      obtain ⟨found, same⟩ | ⟨absent, result, recorded⟩ :=
        answer_of_commits after once through
      · left
        have listed := (known_iff _).mpr found
        rw [same]
        simp [listed]
      · right
        have unlisted : key attempt.call ∉ known := by
          rw [known_iff, absent]
          simp
        refine ⟨rfl, by simp [unlisted], ?_⟩
        intro k
        rw [recorded, List.mem_cons, known_iff]
        by_cases same : key attempt.call = k
        · simp [same]
        · simp [same, Ne.symm same]

/-- The attempts leave what their first commits, each undisturbed, leave. -/
theorem settleAll_eq_runOnce (once : AnswersOnce program key answer)
    (known_iff : ∀ k, k ∈ known ↔ (answer state k).isSome) (attempts : List (Attempt χ β)) :
    settleAll before after program state attempts =
      runOnce before after program state
        (firstCommitted before after program key known state attempts) := by
  induction attempts generalizing known state with
  | nil => rfl
  | cons attempt rest ih =>
      have unfolded : settleAll before after program state (attempt :: rest) =
          settleAll before after program (settle before after program state attempt) rest := rfl
      rw [unfolded]
      obtain ⟨same, firsts⟩ | ⟨through, firsts, next_iff⟩ :=
        firstCommitted_cons after once known_iff attempt rest
      · rw [same, firsts]
        exact ih known_iff
      · rw [firsts, ih next_iff, settle_of_commits through]
        rfl

/-- No key is among them twice, and none that was known. -/
theorem firstCommitted_nodup (known : List κ) (state : σ) (attempts : List (Attempt χ β)) :
    ((firstCommitted before after program key known state attempts).map key).Nodup ∧
      ∀ call ∈ firstCommitted before after program key known state attempts,
        key call ∉ known := by
  induction attempts generalizing known state with
  | nil => simp [firstCommitted]
  | cons attempt rest ih =>
      unfold firstCommitted
      split
      · rename_i first
        obtain ⟨distinct, fresh⟩ := ih (key attempt.call :: known)
          (settle before after program state attempt)
        rw [Bool.and_eq_true, decide_eq_true_eq] at first
        constructor
        · rw [List.map_cons, List.nodup_cons]
          refine ⟨?_, distinct⟩
          intro again
          obtain ⟨call, listed, same⟩ := List.mem_map.mp again
          exact fresh call listed (same ▸ List.mem_cons_self)
        · intro call listed
          obtain rfl | later := List.mem_cons.mp listed
          · exact first.2
          · exact fun stored => fresh call later (List.mem_cons_of_mem _ stored)
      · exact ih known _

/-- An answer stays. -/
theorem answer_settle (once : AnswersOnce program key answer) {k : κ}
    (answered : answer state k = some result) (attempt : Attempt χ β) :
    answer (settle before after program state attempt) k = some result := by
  cases through : (program attempt.call).commits before state attempt.fault with
  | false => rw [settle_of_not_commits through, answered]
  | true =>
      obtain ⟨_, same⟩ | ⟨absent, _, recorded⟩ := answer_of_commits after once through
      · rw [same, answered]
      · rw [recorded, if_neg, answered]
        rintro rfl
        rw [answered] at absent
        cases absent

theorem answer_settleAll (once : AnswersOnce program key answer) {k : κ}
    (answered : answer state k = some result) (attempts : List (Attempt χ β)) :
    answer (settleAll before after program state attempts) k = some result := by
  induction attempts generalizing state with
  | nil => exact answered
  | cons attempt rest ih => exact ih (answer_settle once answered attempt)

/-- The first commits are of the keys that get an answer. -/
theorem isSome_settleAll_iff (once : AnswersOnce program key answer)
    (known_iff : ∀ k, k ∈ known ↔ (answer state k).isSome) (attempts : List (Attempt χ β)) (k : κ) :
    (answer (settleAll before after program state attempts) k).isSome ↔
      k ∈ known ∨
        k ∈ (firstCommitted before after program key known state attempts).map key := by
  induction attempts generalizing known state with
  | nil =>
      rw [known_iff]
      simp [settleAll, firstCommitted]
  | cons attempt rest ih =>
      have unfolded : settleAll before after program state (attempt :: rest) =
          settleAll before after program (settle before after program state attempt) rest := rfl
      rw [unfolded]
      obtain ⟨same, firsts⟩ | ⟨_, firsts, next_iff⟩ :=
        firstCommitted_cons after once known_iff attempt rest
      · rw [same, firsts]
        exact ih known_iff
      · rw [firsts, ih next_iff, List.map_cons, List.mem_cons, List.mem_cons, or_assoc,
          or_left_comm]

end Attempts

end Zeron.Data
