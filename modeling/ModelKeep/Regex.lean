import Mathlib.Data.List.Infix

/-!
# Backtracking patterns

A pattern is tried at one place of a text, and its matches come in the order
in which a backtracking engine finds them; the first one counts.  `sub` takes a
text from left to right and rewrites what matches.
-/

namespace Regex

variable {α : Type}

/-- A pattern over the characters of a text, with at most one group. -/
inductive Pattern (α : Type)
  | empty
  /-- Between a character of a word and none. -/
  | boundary (word : α → Bool)
  | one (kind : α → Bool)
  /-- As many of a kind as possible, and so many at least. -/
  | many (least : Nat) (kind : α → Bool)
  | seq (first second : Pattern α)
  | either (first second : Pattern α)
  | group (inner : Pattern α)

/-- What was matched, and what its group matched. -/
structure Match (α : Type) where
  taken : List α
  group : List α

/-- The beginnings of a text that are of a kind, the longest first. -/
def stretches (kind : α → Bool) : List α → List (List α)
  | [] => [[]]
  | c :: rest =>
      if kind c then (stretches kind rest).map (c :: ·) ++ [[]] else [[]]

namespace Pattern

/-- One character after the other, as far as they are told apart. -/
def literal (alike : α → α → Bool) : List α → Pattern α
  | [] => .empty
  | c :: rest => .seq (.one (alike c)) (literal alike rest)

/-- The matches after a character, in the order in which they are tried. -/
def tried : Pattern α → Option α → List α → List (Match α)
  | .empty, _, _ => [⟨[], []⟩]
  | .boundary word, before, text =>
      if before.any word = text.head?.any word then [] else [⟨[], []⟩]
  | .one _, _, [] => []
  | .one kind, _, c :: _ => if kind c then [⟨[c], []⟩] else []
  | .many least kind, _, text =>
      ((stretches kind text).filter fun taken => least ≤ taken.length).map
        fun taken => ⟨taken, []⟩
  | .seq first second, before, text =>
      (first.tried before text).flatMap fun start =>
        (second.tried (start.taken.getLast?.or before)
          (text.drop start.taken.length)).map fun rest =>
            ⟨start.taken ++ rest.taken, start.group ++ rest.group⟩
  | .either first second, before, text =>
      first.tried before text ++ second.tried before text
  | .group inner, before, text =>
      (inner.tried before text).map fun found => ⟨found.taken, found.taken⟩

/-- The match of a pattern after a character. -/
def find? (pattern : Pattern α) (before : Option α) (text : List α) :
    Option (Match α) :=
  (pattern.tried before text).head?

/-- The loop of `sub`, with the character before and what is left of the last
match.  A match of nothing is passed over. -/
def subFrom (pattern : Pattern α) (rewritten : Match α → List α) :
    Option α → Nat → List α → List α
  | _, _, [] => []
  | _, left + 1, c :: rest => subFrom pattern rewritten (some c) left rest
  | before, 0, c :: rest =>
      match pattern.find? before (c :: rest) with
      | some ⟨d :: taken, held⟩ =>
          rewritten ⟨d :: taken, held⟩ ++
            subFrom pattern rewritten (some c) taken.length rest
      | _ => c :: subFrom pattern rewritten (some c) 0 rest

/-- Every match, from left to right, is rewritten. -/
def sub (pattern : Pattern α) (rewritten : Match α → List α)
    (text : List α) : List α :=
  pattern.subFrom rewritten none 0 text

/-- A pattern takes no character but these. -/
def Within (inside : α → Prop) : Pattern α → Prop
  | .empty => True
  | .boundary _ => True
  | .one kind => ∀ c, kind c = true → inside c
  | .many _ kind => ∀ c, kind c = true → inside c
  | .seq first second => first.Within inside ∧ second.Within inside
  | .either first second => first.Within inside ∧ second.Within inside
  | .group inner => inner.Within inside

end Pattern

attribute [local simp] stretches Pattern.tried Pattern.find? Pattern.subFrom

/-! ## What a match is -/

section matches_

variable
  {kind : α → Bool}
  {inside : α → Prop}
  {pattern : Pattern α}
  {before : Option α}
  {text taken : List α}
  {found : Match α}

theorem prefix_of_stretches
    (member : taken ∈ stretches kind text) :
    taken <+: text ∧ ∀ c ∈ taken, kind c = true := by
  induction text generalizing taken with
  | nil =>
      obtain rfl := List.mem_singleton.mp member
      exact ⟨⟨[], rfl⟩, nofun⟩
  | cons c rest inductionHypothesis =>
      rw [stretches] at member
      split at member
      · next here =>
          rcases List.mem_append.mp member with longer | none_
          · obtain ⟨shorter, known, rfl⟩ := List.mem_map.mp longer
            obtain ⟨starts, kinds⟩ := inductionHypothesis known
            refine ⟨List.prefix_cons_inj c |>.mpr starts, ?_⟩
            intro d member
            rcases List.mem_cons.mp member with rfl | later
            · exact here
            · exact kinds d later
          · obtain rfl := List.mem_singleton.mp none_
            exact ⟨⟨_, rfl⟩, nofun⟩
      · obtain rfl := List.mem_singleton.mp member
        exact ⟨⟨_, rfl⟩, nofun⟩

/-- What a match takes is the beginning of the text. -/
theorem prefix_of_tried
    (member : found ∈ pattern.tried before text) :
    found.taken <+: text := by
  induction pattern generalizing before text found with
  | empty =>
      obtain rfl := List.mem_singleton.mp member
      exact ⟨text, rfl⟩
  | boundary word =>
      rw [Pattern.tried] at member
      split at member
      · cases member
      · obtain rfl := List.mem_singleton.mp member
        exact ⟨text, rfl⟩
  | one kind =>
      cases text with
      | nil => cases member
      | cons c rest =>
          rw [Pattern.tried] at member
          split at member
          · obtain rfl := List.mem_singleton.mp member
            exact ⟨rest, rfl⟩
          · cases member
  | many least kind =>
      obtain ⟨taken, known, rfl⟩ := List.mem_map.mp member
      exact (prefix_of_stretches (List.mem_filter.mp known).1).1
  | seq first second firstHypothesis secondHypothesis =>
      obtain ⟨start, starts, later⟩ := List.mem_flatMap.mp member
      obtain ⟨rest, rests, rfl⟩ := List.mem_map.mp later
      obtain ⟨remaining, rfl⟩ := firstHypothesis starts
      have follows := secondHypothesis rests
      rw [List.drop_left] at follows
      exact (List.prefix_append_right_inj _).mpr follows
  | either first second firstHypothesis secondHypothesis =>
      rcases List.mem_append.mp member with left | right
      · exact firstHypothesis left
      · exact secondHypothesis right
  | group inner inductionHypothesis =>
      obtain ⟨whole, known, rfl⟩ := List.mem_map.mp member
      have starts := inductionHypothesis known
      exact starts

/-- A match takes nothing but what the pattern takes, in its group too. -/
theorem inside_of_tried
    (within : pattern.Within inside)
    (member : found ∈ pattern.tried before text) :
    (∀ c ∈ found.taken, inside c) ∧ ∀ c ∈ found.group, inside c := by
  induction pattern generalizing before text found with
  | empty =>
      obtain rfl := List.mem_singleton.mp member
      exact ⟨nofun, nofun⟩
  | boundary word =>
      rw [Pattern.tried] at member
      split at member
      · cases member
      · obtain rfl := List.mem_singleton.mp member
        exact ⟨nofun, nofun⟩
  | one kind =>
      cases text with
      | nil => cases member
      | cons c rest =>
          rw [Pattern.tried] at member
          split at member
          · next here =>
              obtain rfl := List.mem_singleton.mp member
              refine ⟨fun d same => ?_, nofun⟩
              obtain rfl := List.mem_singleton.mp same
              exact within d here
          · cases member
  | many least kind =>
      obtain ⟨taken, known, rfl⟩ := List.mem_map.mp member
      have kinds := (prefix_of_stretches (List.mem_filter.mp known).1).2
      exact ⟨fun c member => within c (kinds c member), nofun⟩
  | seq first second firstHypothesis secondHypothesis =>
      obtain ⟨start, starts, later⟩ := List.mem_flatMap.mp member
      obtain ⟨rest, rests, rfl⟩ := List.mem_map.mp later
      obtain ⟨startTaken, startGroup⟩ := firstHypothesis within.1 starts
      obtain ⟨restTaken, restGroup⟩ := secondHypothesis within.2 rests
      constructor
      · intro c member
        exact (List.mem_append.mp member).elim (startTaken c) (restTaken c)
      · intro c member
        exact (List.mem_append.mp member).elim (startGroup c) (restGroup c)
  | either first second firstHypothesis secondHypothesis =>
      rcases List.mem_append.mp member with left | right
      · exact firstHypothesis within.1 left
      · exact secondHypothesis within.2 right
  | group inner inductionHypothesis =>
      obtain ⟨whole, known, rfl⟩ := List.mem_map.mp member
      have inner := (inductionHypothesis within known).1
      exact ⟨inner, inner⟩

theorem within_literal
    {alike : α → α → Bool}
    {chars : List α}
    (insides : ∀ c ∈ chars, ∀ d, alike c d = true → inside d) :
    (Pattern.literal alike chars).Within inside := by
  induction chars with
  | nil => trivial
  | cons c chars inductionHypothesis =>
      exact ⟨insides c List.mem_cons_self, inductionHypothesis
        fun d member => insides d (List.mem_cons_of_mem _ member)⟩

/-- The longest stretch comes first. -/
theorem head?_stretches (kind : α → Bool) (text : List α) :
    (stretches kind text).head? = some (text.takeWhile kind) := by
  induction text with
  | nil => rfl
  | cons c rest inductionHypothesis =>
      rw [stretches, List.takeWhile_cons]
      split
      · rw [List.head?_append, List.head?_map, inductionHypothesis]
        rfl
      · rfl

/-- The group is a part of the match. -/
theorem mem_taken_of_mem_group
    (member : found ∈ pattern.tried before text) :
    ∀ c ∈ found.group, c ∈ found.taken := by
  induction pattern generalizing before text found with
  | empty =>
      obtain rfl := List.mem_singleton.mp member
      exact nofun
  | boundary word =>
      rw [Pattern.tried] at member
      split at member
      · cases member
      · obtain rfl := List.mem_singleton.mp member
        exact nofun
  | one kind =>
      cases text with
      | nil => cases member
      | cons c rest =>
          rw [Pattern.tried] at member
          split at member
          · obtain rfl := List.mem_singleton.mp member
            exact nofun
          · cases member
  | many least kind =>
      obtain ⟨taken, known, rfl⟩ := List.mem_map.mp member
      exact nofun
  | seq first second firstHypothesis secondHypothesis =>
      obtain ⟨start, starts, later⟩ := List.mem_flatMap.mp member
      obtain ⟨rest, rests, rfl⟩ := List.mem_map.mp later
      intro c member
      rcases List.mem_append.mp member with left | right
      · exact List.mem_append_left _ (firstHypothesis starts c left)
      · exact List.mem_append_right _ (secondHypothesis rests c right)
  | either first second firstHypothesis secondHypothesis =>
      rcases List.mem_append.mp member with left | right
      · exact firstHypothesis left
      · exact secondHypothesis right
  | group inner inductionHypothesis =>
      obtain ⟨whole, known, rfl⟩ := List.mem_map.mp member
      exact fun c => id

end matches_

/-! ## The first match -/

section first

variable
  {kind : α → Bool}
  {first second : Pattern α}
  {before : Option α}
  {text taken rest held later : List α}

theorem find?_seq
    (starts : first.find? before text = some ⟨taken, held⟩)
    (rests : second.find? (taken.getLast?.or before)
      (text.drop taken.length) = some ⟨rest, later⟩) :
    (Pattern.seq first second).find? before text =
      some ⟨taken ++ rest, held ++ later⟩ := by
  unfold Pattern.find? at starts rests ⊢
  obtain ⟨others, tried⟩ := List.head?_eq_some_iff.mp starts
  obtain ⟨more, triedToo⟩ := List.head?_eq_some_iff.mp rests
  rw [Pattern.tried, tried, List.flatMap_cons, triedToo]
  rfl

theorem find?_one
    {c : α}
    (here : kind c = true) :
    (Pattern.one kind).find? before (c :: text) = some ⟨[c], []⟩ := by
  rw [Pattern.find?, Pattern.tried, if_pos here]
  rfl

theorem find?_many :
    (Pattern.many 0 kind).find? before text =
      some ⟨text.takeWhile kind, []⟩ := by
  have all : (stretches kind text).filter (fun taken => 0 ≤ taken.length) =
      stretches kind text :=
    List.filter_eq_self.mpr fun taken _ => decide_eq_true (Nat.zero_le _)
  rw [Pattern.find?, Pattern.tried, all, List.head?_map, head?_stretches]
  rfl

theorem find?_boundary
    {word : α → Bool}
    {c : α}
    (start : before.any word = false)
    (here : word c = true) :
    (Pattern.boundary word).find? before (c :: text) = some ⟨[], []⟩ := by
  rw [Pattern.find?, Pattern.tried, List.head?_cons, Option.any_some, start,
    here]
  rfl

theorem find?_literal
    {alike : α → α → Bool}
    {chars : List α}
    (refl : ∀ c, alike c c = true) :
    (Pattern.literal alike chars).find? before (chars ++ text) =
      some ⟨chars, []⟩ := by
  induction chars generalizing before with
  | nil => rfl
  | cons c chars inductionHypothesis =>
      exact find?_seq (find?_one (refl c)) inductionHypothesis

end first

/-! ## A character that no match takes -/

section outside

variable
  {inside : α → Prop}
  {kind : α → Bool}
  {pattern : Pattern α}
  {rewritten : Match α → List α}
  {before : Option α}
  {stop : α}
  {text taken rest other : List α}

/-- What takes only what is inside ends before what is outside. -/
theorem starts_before
    (starts : taken <+: text ++ stop :: rest)
    (within : ∀ c ∈ taken, inside c)
    (outside : ¬inside stop) :
    taken <+: text := by
  have whole : text ++ [stop] <+: text ++ stop :: rest := ⟨rest, by simp⟩
  rcases List.prefix_or_prefix_of_prefix starts whole with short | long
  · rcases List.prefix_concat_iff.mp short with rfl | shorter
    · exact absurd (within stop (by simp)) outside
    · exact shorter
  · exact absurd (within stop (long.subset (by simp))) outside

theorem stretches_append
    (outside : kind stop = false) :
    stretches kind (text ++ stop :: rest) = stretches kind text := by
  induction text with
  | nil => simp [outside]
  | cons c text inductionHypothesis =>
      rw [List.cons_append, stretches, stretches, inductionHypothesis]

/-- What comes after a character that no match takes makes no difference. -/
theorem tried_append
    (within : pattern.Within inside)
    (outside : ¬inside stop) :
    pattern.tried before (text ++ stop :: rest) =
      pattern.tried before (text ++ stop :: other) := by
  induction pattern generalizing before text with
  | empty => rfl
  | boundary word => cases text <;> rfl
  | one kind => cases text <;> rfl
  | many least kind =>
      have stops : kind stop = false :=
        Bool.eq_false_iff.mpr fun here => outside (within stop here)
      rw [Pattern.tried, Pattern.tried, stretches_append stops,
        stretches_append stops]
  | seq first second firstHypothesis secondHypothesis =>
      rw [Pattern.tried, Pattern.tried, firstHypothesis within.1]
      apply List.flatMap_congr
      intro start starts
      obtain ⟨remaining, rfl⟩ := starts_before (prefix_of_tried starts)
        (inside_of_tried within.1 starts).1 outside
      rw [List.append_assoc, List.append_assoc, List.drop_left, List.drop_left,
        secondHypothesis within.2]
  | either first second firstHypothesis secondHypothesis =>
      rw [Pattern.tried, Pattern.tried, firstHypothesis within.1,
        secondHypothesis within.2]
  | group inner inductionHypothesis =>
      rw [Pattern.tried, Pattern.tried, inductionHypothesis within]

theorem find?_append
    (within : pattern.Within inside)
    (outside : ¬inside stop) :
    pattern.find? before (text ++ stop :: rest) =
      pattern.find? before (text ++ stop :: other) := by
  rw [Pattern.find?, Pattern.find?, tried_append within outside]

/-- A match that takes something takes it before the end of its part. -/
theorem length_of_find?
    {d : α}
    {held : List α}
    (found : pattern.find? before (text ++ stop :: rest) =
      some ⟨d :: taken, held⟩)
    (within : pattern.Within inside)
    (outside : ¬inside stop) :
    ∃ remaining, text = d :: taken ++ remaining := by
  have member := List.mem_of_mem_head? (Option.mem_def.mpr found)
  obtain ⟨remaining, same⟩ := starts_before (prefix_of_tried member)
    (inside_of_tried within member).1 outside
  exact ⟨remaining, same.symm⟩

theorem subFrom_stop
    (within : pattern.Within inside)
    (outside : ¬inside stop) :
    pattern.subFrom rewritten before 0 (stop :: rest) =
      stop :: pattern.subFrom rewritten (some stop) 0 rest := by
  rw [Pattern.subFrom]
  split
  · next d taken held found =>
      have none_ : ∃ remaining, [] = d :: taken ++ remaining :=
        length_of_find? found within outside
      obtain ⟨_, same⟩ := none_
      cases same
  · rfl

/-- The text falls into parts where no match can take a character. -/
theorem subFrom_append
    {left : Nat}
    (within : pattern.Within inside)
    (outside : ¬inside stop)
    (few : left ≤ text.length) :
    pattern.subFrom rewritten before left (text ++ stop :: rest) =
      pattern.subFrom rewritten before left (text ++ [stop]) ++
        pattern.subFrom rewritten (some stop) 0 rest := by
  induction text generalizing before left with
  | nil =>
      obtain rfl := Nat.le_zero.mp few
      rw [List.nil_append, List.nil_append, subFrom_stop within outside,
        subFrom_stop within outside]
      rfl
  | cons c text inductionHypothesis =>
      cases left with
      | succ left =>
          rw [List.cons_append, List.cons_append, Pattern.subFrom,
            Pattern.subFrom, inductionHypothesis (Nat.le_of_succ_le_succ few)]
      | zero =>
          have same : pattern.find? before (c :: (text ++ stop :: rest)) =
              pattern.find? before (c :: (text ++ [stop])) :=
            @find?_append _ inside pattern before stop (c :: text) rest []
              within outside
          rw [List.cons_append, List.cons_append, Pattern.subFrom,
            Pattern.subFrom, same]
          split
          · next d taken held found =>
              have starts : ∃ remaining,
                  c :: text = d :: taken ++ remaining :=
                length_of_find? found within outside
              obtain ⟨remaining, whole⟩ := starts
              have few : taken.length ≤ text.length := by
                have := congrArg List.length whole
                simp at this
                omega
              rw [inductionHypothesis few, List.append_assoc]
          · rw [inductionHypothesis (Nat.zero_le _)]
            rfl

/-- What is left of a match is passed over. -/
theorem subFrom_length :
    pattern.subFrom rewritten before taken.length (taken ++ rest) =
      pattern.subFrom rewritten (taken.getLast?.or before) 0 rest := by
  induction taken generalizing before with
  | nil => rfl
  | cons c taken inductionHypothesis =>
      rw [List.length_cons, List.cons_append, Pattern.subFrom,
        inductionHypothesis]
      cases taken with
      | nil => rfl
      | cons d taken =>
          rw [List.getLast?_cons_cons, List.getLast?_cons]
          rfl

theorem subFrom_of_find?
    {c : α}
    {held : List α}
    (found : pattern.find? before (c :: taken ++ rest) =
      some ⟨c :: taken, held⟩) :
    pattern.subFrom rewritten before 0 (c :: taken ++ rest) =
      rewritten ⟨c :: taken, held⟩ ++
        pattern.subFrom rewritten (taken.getLast?.or (some c)) 0 rest := by
  rw [List.cons_append] at found ⊢
  rw [Pattern.subFrom, found]
  exact congrArg _ subFrom_length

/-- What no match takes stays in the text. -/
theorem mem_subFrom
    {left : Nat}
    (within : pattern.Within inside)
    (outside : ¬inside stop)
    (member : stop ∈ text.drop left) :
    stop ∈ pattern.subFrom rewritten before left text := by
  induction text generalizing before left with
  | nil => simp at member
  | cons c text inductionHypothesis =>
      cases left with
      | succ left => exact inductionHypothesis member
      | zero =>
          rw [Pattern.subFrom]
          split
          · next d taken held found =>
              have tried := List.mem_of_mem_head? (Option.mem_def.mpr found)
              obtain ⟨remaining, whole⟩ := prefix_of_tried tried
              have kinds := (inside_of_tried within tried).1
              obtain ⟨rfl, rfl⟩ := List.cons.inj whole
              have parts : stop ∈ d :: taken ++ remaining := member
              apply List.mem_append_right
              apply inductionHypothesis
              change stop ∈ (taken ++ remaining).drop taken.length
              rw [List.drop_left]
              rcases List.mem_append.mp parts with taken | remains
              · exact absurd (kinds stop taken) outside
              · exact remains
          · rcases List.mem_cons.mp member with rfl | later
            · exact List.mem_cons_self
            · exact List.mem_cons_of_mem _ (inductionHypothesis later)

end outside

/-- What is true of every character, and kept by the rewriting, is true of the
characters that come out. -/
theorem subFrom_keeps
    {pattern : Pattern α}
    {rewritten : Match α → List α}
    {kept : α → Prop}
    (keeps : ∀ found, (∀ c ∈ found.taken, kept c) →
      (∀ c ∈ found.group, kept c) → ∀ c ∈ rewritten found, kept c)
    {before : Option α}
    {left : Nat}
    {text : List α}
    (holds : ∀ c ∈ text, kept c) :
    ∀ c ∈ pattern.subFrom rewritten before left text, kept c := by
  induction text generalizing before left with
  | nil => exact nofun
  | cons c text inductionHypothesis =>
      have later : ∀ d ∈ text, kept d :=
        fun d member => holds d (List.mem_cons_of_mem _ member)
      cases left with
      | succ left => exact inductionHypothesis later
      | zero =>
          rw [Pattern.subFrom]
          split
          · next d taken held found =>
              have tried := List.mem_of_mem_head? (Option.mem_def.mpr found)
              have takenKept : ∀ e ∈ d :: taken, kept e :=
                fun e member => holds e ((prefix_of_tried tried).subset member)
              intro e member
              rcases List.mem_append.mp member with new | rest
              · exact keeps _ takenKept (fun e member =>
                  takenKept e (mem_taken_of_mem_group tried e member)) e new
              · exact inductionHypothesis later e rest
          · intro e member
            rcases List.mem_cons.mp member with rfl | rest
            · exact holds e List.mem_cons_self
            · exact inductionHypothesis later e rest

end Regex
