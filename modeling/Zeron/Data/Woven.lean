import Mathlib.Data.List.Infix

/-!
# Text with holes

A text with holes is printed once something is printed for each of them.  A word between marks
that stands in holes alone is replaced in these holes and nowhere else.
-/

namespace Zeron.Data

universe u v w

variable {α : Type u} {β : Type v} {γ : Type w}

/-- Pieces of text, each with the hole after it, and the text after the last hole. -/
structure Woven (α : Type u) (β : Type v) where
  pieces : List (List α × β)
  last : List α

variable {chars : List α}

namespace Woven

def plain (text : List α) : Woven α β where
  pieces := []
  last := text

def hole (content : β) : Woven α β where
  pieces := [([], content)]
  last := []

/-- The text with its holes printed. -/
def text (print : β → List α) (woven : Woven α β) : List α :=
  (woven.pieces.flatMap fun piece => piece.1 ++ print piece.2) ++ woven.last

def map (f : β → γ) (woven : Woven α β) : Woven α γ where
  pieces := woven.pieces.map fun piece => (piece.1, f piece.2)
  last := woven.last

/-- The text before the first hole grows. -/
def prepend (before : List α) (woven : Woven α β) : Woven α β :=
  match woven.pieces with
  | [] => plain (before ++ woven.last)
  | piece :: pieces => { pieces := (before ++ piece.1, piece.2) :: pieces, last := woven.last }

def append (first second : Woven α β) : Woven α β :=
  let second := second.prepend first.last
  { second with pieces := first.pieces ++ second.pieces }

instance : Append (Woven α β) :=
  ⟨append⟩

def holes (woven : Woven α β) : List β :=
  woven.pieces.map Prod.snd

def plains (woven : Woven α β) : List (List α) :=
  woven.pieces.map Prod.fst ++ [woven.last]

variable {first second woven : Woven α β} {print : β → List α} {before : List α}

@[simp]
theorem text_plain (chars : List α) : (plain chars : Woven α β).text print = chars := by
  simp [text, plain]

@[simp]
theorem text_hole (content : β) : (hole content : Woven α β).text print = print content := by
  simp [text, hole]

theorem text_prepend : (woven.prepend before).text print = before ++ woven.text print := by
  unfold prepend
  cases pieces : woven.pieces with
  | nil => simp [text, plain, pieces]
  | cons piece rest => simp [text, pieces]

@[simp]
theorem text_append : (first ++ second).text print = first.text print ++ second.text print := by
  have joined : (first ++ second).text print =
      (first.pieces.flatMap fun piece => piece.1 ++ print piece.2) ++
        (second.prepend first.last).text print := by
    change ((first.pieces ++ (second.prepend first.last).pieces).flatMap _) ++ _ = _
    rw [List.flatMap_append, List.append_assoc]
    rfl
  rw [joined, text_prepend, text, text, List.append_assoc]

theorem text_map (f : β → γ) (print : γ → List α) :
    (woven.map f).text print = woven.text fun content => print (f content) := by
  simp [text, map, List.flatMap_map]

theorem text_congr {other : β → List α}
    (same : ∀ content ∈ woven.holes, print content = other content) :
    woven.text print = woven.text other := by
  have pieces : ∀ piece ∈ woven.pieces,
      piece.1 ++ print piece.2 = piece.1 ++ other piece.2 := fun piece listed => by
    rw [same piece.2 (List.mem_map_of_mem listed)]
  simp [text, List.flatMap_def, List.map_congr_left pieces]

theorem holes_prepend : (woven.prepend before).holes = woven.holes := by
  rcases woven with ⟨pieces, last⟩
  cases pieces <;> simp [prepend, holes, plain]

@[simp]
theorem holes_append : (first ++ second).holes = first.holes ++ second.holes := by
  have later : (second.prepend first.last).holes = second.holes := holes_prepend
  rw [← later]
  change (first.pieces ++ (second.prepend first.last).pieces).map Prod.snd = _
  rw [List.map_append]
  rfl

@[simp]
theorem holes_plain (chars : List α) : (plain chars : Woven α β).holes = [] :=
  rfl

@[simp]
theorem holes_hole (content : β) : (hole content : Woven α β).holes = [content] :=
  rfl

@[simp]
theorem holes_map (f : β → γ) : (woven.map f).holes = woven.holes.map f := by
  simp [holes, map]

@[simp]
theorem plains_map (f : β → γ) : (woven.map f).plains = woven.plains := by
  simp [plains, map]

/-- A piece of the text stands in it, whatever is printed for the holes. -/
theorem infix_of_mem_plains (listed : chars ∈ woven.plains) : chars <:+: woven.text print := by
  rcases List.mem_append.mp listed with listed | listed
  · rcases List.mem_map.mp listed with ⟨piece, there, rfl⟩
    rcases List.append_of_mem there with ⟨earlier, later, split⟩
    rw [text, split, List.flatMap_append, List.flatMap_cons]
    refine ⟨earlier.flatMap fun piece => piece.1 ++ print piece.2, ?_, ?_⟩
    · exact print piece.2 ++ (later.flatMap fun piece => piece.1 ++ print piece.2) ++ woven.last
    · simp only [List.append_assoc]
  · rw [List.mem_singleton] at listed
    subst listed
    exact (List.suffix_append _ _).isInfix

end Woven

/-! ## Replacing a word -/

section

variable [DecidableEq α]

/-- The occurrences of a pattern are replaced from the left, after so many characters. -/
def replaceFrom (pattern other : List α) : Nat → List α → List α
  | _, [] => []
  | skip + 1, _ :: rest => replaceFrom pattern other skip rest
  | 0, first :: rest =>
      if pattern <+: first :: rest then other ++ replaceFrom pattern other (pattern.length - 1) rest
      else first :: replaceFrom pattern other 0 rest

/-- `str::replace`, of a pattern that is not empty. -/
def replaceAll (pattern other text : List α) : List α :=
  replaceFrom pattern other 0 text

variable {pattern other text : List α}

theorem replaceFrom_eq (skip : Nat) :
    replaceFrom pattern other skip text = replaceAll pattern other (text.drop skip) := by
  induction text generalizing skip with
  | nil => cases skip <;> rfl
  | cons first rest ih =>
      cases skip with
      | zero => rfl
      | succ skip => exact ih skip

theorem replaceAll_nil : replaceAll pattern other [] = [] :=
  rfl

theorem replaceAll_pattern (some_pattern : pattern ≠ []) :
    replaceAll pattern other (pattern ++ text) = other ++ replaceAll pattern other text := by
  cases pattern with
  | nil => exact absurd rfl some_pattern
  | cons first rest =>
      have here : first :: rest <+: first :: (rest ++ text) := List.prefix_append (first :: rest) text
      rw [replaceAll, List.cons_append, replaceFrom, replaceFrom_eq]
      simp

/-- Text in which no occurrence starts stays. -/
theorem replaceAll_append {before : List α}
    (absent : ∀ late, late ≠ [] → late <:+ before → ¬ pattern <+: late ++ text) :
    replaceAll pattern other (before ++ text) = before ++ replaceAll pattern other text := by
  induction before with
  | nil => rfl
  | cons first rest ih =>
      have here := absent (first :: rest) (List.cons_ne_nil first rest) (List.suffix_refl _)
      have later := ih fun late more ends => absent late more (ends.trans (List.suffix_cons first rest))
      rw [List.cons_append] at here ⊢
      rw [replaceAll, replaceFrom, if_neg here, List.cons_append, ← later]
      rfl

variable {mark : α} {word : List α} {rest : List α}

omit [DecidableEq α] in
/-- A word and the mark after it do not start in text that lacks the word. -/
theorem not_prefix_of_not_infix (inner : mark ∉ word) (absent : ¬ word <:+: chars)
    (bounded : ∀ first ∈ rest.head?, first = mark) :
    ¬ word ++ [mark] <+: chars ++ rest := by
  intro starts
  have word_starts : word <+: chars ++ rest := (List.prefix_append word [mark]).trans starts
  rcases List.prefix_or_prefix_of_prefix word_starts (List.prefix_append chars rest) with
    within | beyond
  · exact absent within.isInfix
  · rcases beyond with ⟨more, rfl⟩
    rw [List.append_assoc, List.prefix_append_right_inj] at starts
    cases more with
    | nil =>
        rw [List.append_nil] at absent
        exact absent (List.infix_refl chars)
    | cons first more =>
        rcases starts with ⟨after, rfl⟩
        have same : first = mark := bounded first rfl
        subst same
        simp at inner

omit [DecidableEq α] in
theorem eq_of_prefix_mark {content : List α} (inner : mark ∉ word) (closed : mark ∉ content)
    (starts : word ++ [mark] <+: content ++ mark :: rest) : word = content := by
  induction word generalizing content with
  | nil =>
      cases content with
      | nil => rfl
      | cons first more =>
          rw [List.nil_append, List.cons_append, List.cons_prefix_cons] at starts
          exact absurd (starts.1 ▸ List.mem_cons_self) closed
  | cons letter word ih =>
      cases content with
      | nil =>
          rw [List.nil_append, List.cons_append, List.cons_prefix_cons] at starts
          exact absurd (starts.1 ▸ List.mem_cons_self) inner
      | cons first more =>
          rw [List.cons_append, List.cons_append, List.cons_prefix_cons] at starts
          rcases starts with ⟨rfl, starts⟩
          rw [ih (fun listed => inner (List.mem_cons_of_mem _ listed))
            (fun listed => closed (List.mem_cons_of_mem _ listed)) starts]

/-- A word between marks. -/
def marked (mark : α) (word : List α) : List α :=
  mark :: (word ++ [mark])

omit [DecidableEq α] in
theorem marked_ne_nil : marked mark word ≠ [] :=
  List.cons_ne_nil _ _

theorem replaceAll_plain (inner : mark ∉ word) (absent : ¬ word <:+: chars)
    (bounded : ∀ first ∈ rest.head?, first = mark) :
    replaceAll (marked mark word) other (chars ++ rest) =
      chars ++ replaceAll (marked mark word) other rest := by
  refine replaceAll_append fun late more ends starts => ?_
  cases late with
  | nil => exact more rfl
  | cons first late =>
      rw [marked, List.cons_append, List.cons_prefix_cons] at starts
      have still : ¬ word <:+: late := fun found =>
        absent (found.trans (((List.suffix_cons first late).trans ends).isInfix))
      exact not_prefix_of_not_infix inner still bounded starts.2

theorem replaceAll_marked {content : List α} (inner : mark ∉ word) (closed : mark ∉ content)
    (absent : ¬ word <:+: chars) (bounded : ∀ first ∈ rest.head?, first = mark) :
    replaceAll (marked mark word) other (marked mark content ++ (chars ++ rest)) =
      (if content = word then other else marked mark content) ++
        replaceAll (marked mark word) other (chars ++ rest) := by
  by_cases same : content = word
  · rw [if_pos same, same, replaceAll_pattern marked_ne_nil]
  · rw [if_neg same]
    refine replaceAll_append fun late more ends starts => ?_
    cases late with
    | nil => exact more rfl
    | cons first late =>
        rw [marked, List.cons_append, List.cons_prefix_cons] at starts
        rcases starts with ⟨rfl, starts⟩
        rcases List.suffix_cons_iff.mp ends with whole | ends
        · rw [List.cons.injEq] at whole
          rw [whole.2, List.append_assoc] at starts
          exact same (eq_of_prefix_mark inner closed starts).symm
        · rcases List.eq_nil_or_concat late with rfl | ⟨front, final, rfl⟩
          · exact not_prefix_of_not_infix inner absent bounded starts
          · have listed : mark ∈ content := by
              rcases ends with ⟨before, split⟩
              rw [List.concat_eq_append, ← List.cons_append, ← List.append_assoc] at split
              rw [← List.append_inj_left' split rfl]
              simp
            exact closed listed

omit [DecidableEq α] in
/-- The text starts with a piece, and what follows the piece starts with a mark. -/
theorem Woven.exists_text_eq (woven : Woven α (List α)) :
    ∃ chars rest, woven.text (marked mark) = chars ++ rest ∧ chars ∈ woven.plains ∧
      ∀ first ∈ rest.head?, first = mark := by
  rcases woven with ⟨pieces, last⟩
  cases pieces with
  | nil => exact ⟨last, [], by simp [Woven.text], by simp [Woven.plains], by simp⟩
  | cons piece pieces =>
      refine ⟨piece.1, marked mark piece.2 ++ (Woven.mk pieces last).text (marked mark), ?_, ?_, ?_⟩
      · simp [Woven.text]
      · simp [Woven.plains]
      · simp [marked]

/-- Everywhere but in the holes the word does not stand, so only holes change. -/
theorem Woven.replaceAll_text {woven : Woven α (List α)} (inner : mark ∉ word)
    (absent : ∀ chars ∈ woven.plains, ¬ word <:+: chars)
    (closed : ∀ content ∈ woven.holes, mark ∉ content) :
    replaceAll (marked mark word) other (woven.text (marked mark)) =
      woven.text fun content => if content = word then other else marked mark content := by
  rcases woven with ⟨pieces, last⟩
  induction pieces with
  | nil =>
      have ended : ¬ word <:+: last := absent last (by simp [Woven.plains])
      have whole : replaceAll (marked mark word) other (last ++ []) = _ :=
        replaceAll_plain inner ended (by simp)
      simpa [Woven.text, replaceAll_nil] using whole
  | cons piece pieces ih =>
      rcases piece with ⟨chars, content⟩
      have later := ih (fun chars listed => absent chars (by
          exact List.mem_cons_of_mem _ listed))
        (fun content listed => closed content (List.mem_cons_of_mem _ listed))
      have cut (print : List α → List α) :
          (Woven.mk ((chars, content) :: pieces) last).text print =
            chars ++ (print content ++ (Woven.mk pieces last).text print) := by
        simp [Woven.text]
      rcases (Woven.mk pieces last).exists_text_eq with
        ⟨next, rest, split, listed, bounded⟩
      have next_absent : ¬ word <:+: next := absent next (by
        exact List.mem_cons_of_mem _ listed)
      rw [cut, cut, replaceAll_plain inner (absent chars (by simp [Woven.plains]))
        (by simp [marked]), split,
        replaceAll_marked inner (closed content (by simp [Woven.holes])) next_absent bounded,
        ← split, later]

end

end Zeron.Data
