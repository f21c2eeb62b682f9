import Mathlib.Data.List.Basic

/-!
# Base64

Text in groups of four characters.  The last group may be padded, and no other one; the bits
that padding leaves unused are zero.  A decoder is known here by a few laws, and one that
follows them is given.
-/

namespace Zeron.Data.Base64

def pad : UInt8 := 61

/-- What is known of a decoder of padded text. -/
structure Lawful {ε : Type} (decode : List UInt8 → Except ε (List UInt8)) : Prop where
  nil : decode [] = .ok []
  /-- Whole groups without padding are decoded on their own. -/
  append : ∀ first second bytes, 4 ∣ first.length → pad ∉ first →
    (decode (first ++ second) = .ok bytes ↔
      ∃ early late, decode first = .ok early ∧ decode second = .ok late ∧ bytes = early ++ late)
  /-- Nothing follows a padded group. -/
  padded : ∀ first second, 4 ∣ first.length → pad ∈ first → second ≠ [] →
    ∀ bytes, decode (first ++ second) ≠ .ok bytes
  /-- Four characters give three bytes at most. -/
  short : ∀ text bytes, decode text = .ok bytes → 4 * bytes.length ≤ 3 * text.length

/-! ## A decoder -/

/-- The six bits of a character. -/
def sextet (char : UInt8) : Option Nat :=
  let code := char.toNat
  if 65 ≤ code ∧ code ≤ 90 then some (code - 65)
  else if 97 ≤ code ∧ code ≤ 122 then some (code - 71)
  else if 48 ≤ code ∧ code ≤ 57 then some (code + 4)
  else if code = 43 then some 62
  else if code = 47 then some 63
  else none

/-- The three bytes of four characters. -/
def group (a b c d : UInt8) : Option (List UInt8) := do
  let bits := (← sextet a) * 262144 + (← sextet b) * 4096 + (← sextet c) * 64 + (← sextet d)
  return [UInt8.ofNat (bits / 65536), UInt8.ofNat (bits / 256), UInt8.ofNat bits]

/-- The bytes of the last group, which may be padded. -/
def lastGroup (a b c d : UInt8) : Option (List UInt8) :=
  if d ≠ pad then group a b c d
  else if c ≠ pad then do
    let bits := (← sextet a) * 4096 + (← sextet b) * 64 + (← sextet c)
    if bits % 4 = 0 then some [UInt8.ofNat (bits / 1024), UInt8.ofNat (bits / 4)] else none
  else do
    let bits := (← sextet a) * 64 + (← sextet b)
    if bits % 16 = 0 then some [UInt8.ofNat (bits / 16)] else none

def decodeGroups : List UInt8 → Option (List UInt8)
  | [] => some []
  | [a, b, c, d] => lastGroup a b c d
  | a :: b :: c :: d :: rest => do
      let bytes ← group a b c d
      let later ← decodeGroups rest
      return bytes ++ later
  | _ => none

/-- The standard alphabet with canonical padding. -/
def decodeStandard (text : List UInt8) : Except String (List UInt8) :=
  match decodeGroups text with
  | some bytes => .ok bytes
  | none => .error "Invalid base64"

/-- Whole groups, one after another. -/
theorem groups_induction {motive : (text : List UInt8) → 4 ∣ text.length → Prop}
    (nil : motive [] (Nat.dvd_zero 4))
    (cons : ∀ a b c d rest (later : 4 ∣ rest.length), motive rest later →
      motive (a :: b :: c :: d :: rest)
        (show 4 ∣ rest.length + 4 from Nat.dvd_add later (Nat.dvd_refl 4))) :
    ∀ text whole, motive text whole
  | [], _ => nil
  | [_], whole => absurd whole (by simp)
  | [_, _], whole => absurd whole (by simp)
  | [_, _, _], whole => absurd whole (by simp)
  | a :: b :: c :: d :: rest, whole =>
      have later : 4 ∣ rest.length := (Nat.dvd_add_left (Nat.dvd_refl 4)).mp whole
      cons a b c d rest later (groups_induction nil cons rest later)

@[simp]
theorem sextet_pad : sextet pad = none := by
  decide

theorem decodeGroups_cons {a b c d : UInt8} {rest : List UInt8} (more : rest ≠ []) :
    decodeGroups (a :: b :: c :: d :: rest) =
      (group a b c d).bind fun bytes => (decodeGroups rest).map (bytes ++ ·) := by
  cases rest with
  | nil => exact absurd rfl more
  | cons e rest =>
      rw [decodeGroups]
      · cases group a b c d with
        | none => rfl
        | some bytes => cases decodeGroups (e :: rest) <;> rfl
      · simp

/-- A group without padding is a group anywhere. -/
theorem decodeGroups_cons_of_notMem {a b c d : UInt8} {rest : List UInt8}
    (plain : pad ∉ [a, b, c, d]) :
    decodeGroups (a :: b :: c :: d :: rest) =
      (group a b c d).bind fun bytes => (decodeGroups rest).map (bytes ++ ·) := by
  cases rest with
  | nil =>
      have last : d ≠ pad := by
        rintro rfl
        simp at plain
      have only : decodeGroups [a, b, c, d] = group a b c d := if_pos last
      rw [only]
      cases group a b c d with
      | none => rfl
      | some bytes => simp [decodeGroups]
  | cons e rest => exact decodeGroups_cons (by simp)

theorem group_eq_none_of_mem {a b c d : UInt8} (padded : pad ∈ [a, b, c, d]) :
    group a b c d = none := by
  simp only [List.mem_cons, List.not_mem_nil, or_false] at padded
  unfold group
  rcases padded with rfl | rfl | rfl | rfl <;> simp

theorem decodeGroups_append {first : List UInt8} (second : List UInt8)
    (whole : 4 ∣ first.length) (plain : pad ∉ first) :
    decodeGroups (first ++ second) =
      (decodeGroups first).bind fun bytes => (decodeGroups second).map (bytes ++ ·) := by
  induction first, whole using groups_induction with
  | nil => simp [decodeGroups]
  | cons a b c d rest whole ih =>
      have here : pad ∉ [a, b, c, d] := fun listed =>
        plain (List.mem_append_left rest listed)
      have there : pad ∉ rest := fun listed => plain (by simp [listed])
      simp only [List.cons_append]
      rw [decodeGroups_cons_of_notMem here, decodeGroups_cons_of_notMem here, ih there]
      cases group a b c d with
      | none => rfl
      | some bytes =>
          cases decodeGroups rest with
          | none => rfl
          | some later =>
              cases decodeGroups second with
              | none => rfl
              | some last => simp

theorem decodeGroups_padded {first second : List UInt8} (whole : 4 ∣ first.length)
    (padded : pad ∈ first) (more : second ≠ []) : decodeGroups (first ++ second) = none := by
  induction first, whole using groups_induction with
  | nil => cases padded
  | cons a b c d rest whole ih =>
      have rest_more : rest ++ second ≠ [] := by simp [more]
      simp only [List.cons_append]
      rw [decodeGroups_cons rest_more]
      by_cases here : pad ∈ [a, b, c, d]
      · rw [group_eq_none_of_mem here]
        rfl
      · have there : pad ∈ rest := by simpa using (List.mem_append.mp padded).resolve_left here
        rw [ih there]
        cases group a b c d <;> rfl

variable {bytes : List UInt8}

theorem length_group {a b c d : UInt8} (decoded : group a b c d = some bytes) :
    bytes.length = 3 := by
  simp only [group, Option.pure_def, Option.bind_eq_bind, Option.bind_eq_some_iff,
    Option.some.injEq] at decoded
  rcases decoded with ⟨_, -, _, -, _, -, _, -, rfl⟩
  rfl

theorem length_lastGroup {a b c d : UInt8} (decoded : lastGroup a b c d = some bytes) :
    bytes.length ≤ 3 := by
  unfold lastGroup at decoded
  split at decoded
  · exact Nat.le_of_eq (length_group decoded)
  · split at decoded
    all_goals
      simp only [Option.bind_eq_bind, Option.bind_eq_some_iff, Option.ite_none_right_eq_some,
        Option.some.injEq] at decoded
    · rcases decoded with ⟨_, -, _, -, _, -, -, rfl⟩
      simp
    · rcases decoded with ⟨_, -, _, -, -, rfl⟩
      simp

theorem length_decodeGroups {text : List UInt8} (decoded : decodeGroups text = some bytes) :
    4 * bytes.length ≤ 3 * text.length := by
  induction text using decodeGroups.induct generalizing bytes with
  | case1 =>
      cases decoded
      simp
  | case2 a b c d =>
      have short := length_lastGroup decoded
      simp only [List.length_cons]
      omega
  | case3 a b c d rest more ih =>
      rw [decodeGroups_cons (by simpa using more), Option.bind_eq_some_iff] at decoded
      rcases decoded with ⟨three, here, decoded⟩
      rcases Option.map_eq_some_iff.mp decoded with ⟨later, there, rfl⟩
      have short := ih there
      have three_length := length_group here
      simp only [List.length_cons, List.length_append]
      omega
  | case4 text =>
      rw [decodeGroups] at decoded
      all_goals simp_all

theorem decodeStandard_eq_ok_iff {text : List UInt8} :
    decodeStandard text = .ok bytes ↔ decodeGroups text = some bytes := by
  unfold decodeStandard
  cases decodeGroups text <;> simp

theorem decodeStandard_lawful : Lawful decodeStandard where
  nil := rfl
  append first second bytes whole plain := by
    simp only [decodeStandard_eq_ok_iff, decodeGroups_append second whole plain,
      Option.bind_eq_some_iff, Option.map_eq_some_iff]
    constructor
    · rintro ⟨early, before, late, after, rfl⟩
      exact ⟨early, late, before, after, rfl⟩
    · rintro ⟨early, late, before, after, rfl⟩
      exact ⟨early, before, late, after, rfl⟩
  padded first second whole padded more bytes decoded := by
    rw [decodeStandard_eq_ok_iff, decodeGroups_padded whole padded more] at decoded
    cases decoded
  short _ _ decoded := length_decodeGroups (decodeStandard_eq_ok_iff.mp decoded)

end Zeron.Data.Base64
