import Mathlib.Data.Finset.Card
import Mathlib.Order.Basic

/-!
# Pages

A finite set is read page by page: each page holds the items next in order and
the mark under which the page after it is asked for.  Pages that are whole and
read one after another partition the set.
-/

namespace Paging

variable {α μ κ : Type} [LinearOrder κ]

/-- Some of the items, and the mark of the next page. -/
structure Page (α μ : Type) where
  items : List α
  next : Option μ

/-- Pages read one after another, each under the mark of the one before. -/
inductive Follows (read : Option μ → Page α μ → Prop) :
    Option μ → List (Page α μ) → Prop
  | stop
      {mark : Option μ} :
      Follows read mark []
  | last
      {mark : Option μ}
      {page : Page α μ}
      (reads : read mark page)
      (ended : page.next = none) :
      Follows read mark [page]
  | next
      {mark : Option μ}
      {page : Page α μ}
      {after : μ}
      {pages : List (Page α μ)}
      (reads : read mark page)
      (goes : page.next = some after)
      (more : Follows read (some after) pages) :
      Follows read mark (page :: pages)

/-- There is no page after these. -/
def Ends (pages : List (Page α μ)) : Prop :=
  ∃ page, pages.getLast? = some page ∧ page.next = none

/-- What the pages hold. -/
def items (pages : List (Page α μ)) : List α :=
  pages.flatMap Page.items

/-- An item that lies past a bound. -/
def Past
    (all : Finset α)
    (position : α → κ)
    (bound : Option κ)
    (item : α) :
    Prop :=
  item ∈ all ∧ ∀ low ∈ bound, low < position item

/-- A page holds the next items past its bound, and all of them if no page
comes after it. -/
structure Whole
    (all : Finset α)
    (position : α → κ)
    (mark : α → μ)
    (limit : Nat)
    (bound : Option κ)
    (page : Page α μ) :
    Prop where
  sorted : page.items.Pairwise fun one other => position one < position other
  past : ∀ item ∈ page.items, Past all position bound item
  last : page.next = none → ∀ item, Past all position bound item →
    item ∈ page.items
  next : ∀ after, page.next = some after → page.items.length = limit ∧
    ∃ final ∈ page.items, mark final = after ∧
      (∀ item ∈ page.items, position item ≤ position final) ∧
      ∀ item, Past all position bound item →
        item ∈ page.items ∨ position final < position item

/-- A page cut from the items that come next: one more than it holds is
looked at. -/
def cut (mark : α → μ) (limit : Nat) (found : List α) : Page α μ :=
  let selected := found.take (limit + 1)
  ⟨selected.take limit,
    if limit < selected.length then (selected[limit - 1]?).map mark
    else none⟩

/-- Every page that is asked for, under no mark or under the mark of an item, is
answered by a whole one. -/
structure Serves
    (all : Finset α)
    (position : α → κ)
    (mark : α → μ)
    (limit : Nat)
    (read : Option μ → Page α μ → Prop) :
    Prop where
  first : ∃ page, read none page
  later : ∀ final ∈ all, ∃ page, read (some (mark final)) page
  firstWhole : ∀ page, read none page →
    Whole all position mark limit none page
  laterWhole : ∀ final ∈ all, ∀ page, read (some (mark final)) page →
    Whole all position mark limit (some (position final)) page

/-- The mark and the bound of a page that is asked for. -/
inductive Asks (all : Finset α) (position : α → κ) (mark : α → μ) :
    Option μ → Option κ → Prop
  | first : Asks all position mark none none
  | later
      {final : α}
      (member : final ∈ all) :
      Asks all position mark (some (mark final)) (some (position final))

/-- What pages past a bound hold. -/
structure Sections
    (all : Finset α)
    (position : α → κ)
    (limit : Nat)
    (bound : Option κ)
    (pages : List (Page α μ)) :
    Prop where
  sorted : (items pages).Pairwise fun one other =>
    position one < position other
  past : ∀ item ∈ items pages, Past all position bound item
  full : ∀ page ∈ pages.dropLast, page.items.length = limit
  complete : Ends pages → ∀ item, Past all position bound item →
    item ∈ items pages

/-- The pages of a set: every item once, in order, and every page full but the
last. -/
structure Partition
    (all : Finset α)
    (position : α → κ)
    (limit : Nat)
    (pages : List (Page α μ)) :
    Prop where
  sorted : (items pages).Pairwise fun one other =>
    position one < position other
  members : ∀ item, item ∈ items pages ↔ item ∈ all
  full : ∀ page ∈ pages.dropLast, page.items.length = limit

/-- A page cut from all items past a bound, in order, is whole. -/
theorem whole_cut
    {all : Finset α}
    {position : α → κ}
    {limit : Nat}
    {bound : Option κ}
    {found : List α}
    (mark : α → μ)
    (positive : 0 < limit)
    (sorted : found.Pairwise fun one other => position one < position other)
    (members : ∀ item, item ∈ found ↔ Past all position bound item) :
    Whole all position mark limit bound (cut mark limit found) := by
  have taken : (cut mark limit found).items = found.take limit := by
    rw [cut, List.take_take, Nat.min_eq_left (Nat.le_succ _)]
  have length : (found.take (limit + 1)).length =
      min (limit + 1) found.length := List.length_take
  refine ⟨?_, ?_, ?_, ?_⟩
  · rw [taken]
    exact sorted.sublist (List.take_sublist ..)
  · intro item inside
    rw [taken] at inside
    exact (members item).mp (List.mem_of_mem_take inside)
  · intro ended item past
    rw [taken]
    have short : found.length ≤ limit := by
      by_contra long
      unfold cut at ended
      dsimp only at ended
      rw [if_pos (by omega), List.getElem?_eq_getElem (by omega)] at ended
      cases ended
    rw [List.take_of_length_le short]
    exact (members item).mpr past
  · intro after goes
    have long : limit < found.length := by
      by_contra short
      unfold cut at goes
      dsimp only at goes
      rw [if_neg (by omega)] at goes
      cases goes
    obtain ⟨count, rfl⟩ : ∃ count, limit = count + 1 := ⟨limit - 1, by omega⟩
    unfold cut at goes
    dsimp only at goes
    rw [if_pos (by omega), List.getElem?_eq_getElem (by omega),
      List.getElem_take] at goes
    obtain rfl := Option.some.inj goes
    have split : found = found.take count ++
        found[count] :: found.drop (count + 1) := by
      rw [List.getElem_cons_drop, List.take_append_drop]
    have last : found.take (count + 1) = found.take count ++ [found[count]] :=
      (List.take_append_getElem (by omega)).symm
    have order := sorted
    rw [split, List.pairwise_append, List.pairwise_cons] at order
    obtain ⟨_, ⟨later, _⟩, earlier⟩ := order
    rw [taken]
    refine ⟨by rw [List.length_take]; omega, found[count], ?_, rfl, ?_, ?_⟩
    · rw [last]
      exact List.mem_append_right _ (List.mem_singleton_self _)
    · intro item inside
      rw [last, List.mem_append, List.mem_singleton] at inside
      rcases inside with before | rfl
      · exact (earlier item before _ (List.mem_cons_self ..)).le
      · exact le_rfl
    · intro item past
      have inside := (members item).mpr past
      rw [split, List.mem_append, List.mem_cons] at inside
      rw [last, List.mem_append, List.mem_singleton]
      rcases inside with before | same | after
      · exact Or.inl (Or.inl before)
      · exact Or.inl (Or.inr same)
      · exact Or.inr (later item after)

/-- What following the marks from the first page comes to. -/
structure Reaches
    (all : Finset α)
    (position : α → κ)
    (limit : Nat)
    (read : Option μ → Page α μ → Prop) :
    Prop where
  goesOn : ∀ pages, Follows read none pages → ¬Ends pages →
    ∃ page, Follows read none (pages ++ [page])
  bounded : ∀ pages, Follows read none pages →
    (pages.length - 1) * limit ≤ all.card
  ends : ∃ pages, Follows read none pages ∧ Ends pages
  partition : ∀ pages, Follows read none pages → Ends pages →
    Partition all position limit pages

section serves

variable {all : Finset α} {position : α → κ} {mark : α → μ} {limit : Nat}
  {read : Option μ → Page α μ → Prop}

theorem Serves.whole
    {asked : Option μ}
    {bound : Option κ}
    {page : Page α μ}
    (serves : Serves all position mark limit read)
    (asks : Asks all position mark asked bound)
    (reads : read asked page) :
    Whole all position mark limit bound page := by
  cases asks with
  | first => exact serves.firstWhole page reads
  | later member => exact serves.laterWhole _ member page reads

theorem Serves.answers
    {asked : Option μ}
    {bound : Option κ}
    (serves : Serves all position mark limit read)
    (asks : Asks all position mark asked bound) :
    ∃ page, read asked page := by
  cases asks with
  | first => exact serves.first
  | later member => exact serves.later _ member

theorem ends_cons
    {page : Page α μ}
    {after : μ}
    {pages : List (Page α μ)}
    (goes : page.next = some after) :
    Ends (page :: pages) ↔ Ends pages := by
  cases pages with
  | nil =>
      simp [Ends, goes]
  | cons other others => simp [Ends]

/-- The sections of pages that are read one after another. -/
theorem Follows.sections
    {asked : Option μ}
    {bound : Option κ}
    {pages : List (Page α μ)}
    (serves : Serves all position mark limit read)
    (asks : Asks all position mark asked bound)
    (follows : Follows read asked pages) :
    Sections all position limit bound pages := by
  induction follows generalizing bound with
  | stop => exact ⟨.nil, nofun, nofun, by simp [Ends]⟩
  | last reads ended =>
      have whole := serves.whole asks reads
      refine ⟨?_, ?_, nofun, fun _ => ?_⟩
      · simpa [items] using whole.sorted
      · simpa [items] using whole.past
      · simpa [items] using whole.last ended
  | @next _ page _ pages reads goes more inductionHypothesis =>
      have whole := serves.whole asks reads
      obtain ⟨length, final, member, rfl, above, split⟩ := whole.next _ goes
      have finalPast := whole.past final member
      have rest := inductionHypothesis (.later finalPast.1)
      have joined : items (page :: pages) = page.items ++ items pages := rfl
      refine ⟨?_, ?_, ?_, ?_⟩
      · rw [joined, List.pairwise_append]
        refine ⟨whole.sorted, rest.sorted, ?_⟩
        intro one inside other later
        exact lt_of_le_of_lt (above one inside)
          ((rest.past other later).2 _ rfl)
      · intro item inside
        rw [joined, List.mem_append] at inside
        rcases inside with here | later
        · exact whole.past item here
        · obtain ⟨among, beyond⟩ := rest.past item later
          exact ⟨among, fun low limited =>
            (finalPast.2 low limited).trans (beyond _ rfl)⟩
      · intro other inside
        cases pages with
        | nil => cases inside
        | cons second others =>
            rcases List.mem_cons.mp inside with rfl | later
            · exact length
            · exact rest.full other later
      · intro ended item past
        rw [joined, List.mem_append]
        rcases split item past with here | beyond
        · exact Or.inl here
        · right
          refine rest.complete ((ends_cons goes).mp ended) item ⟨past.1, ?_⟩
          rintro _ ⟨⟩
          exact beyond

/-- The pages from the first to the end partition the set. -/
theorem Follows.partition
    {pages : List (Page α μ)}
    (serves : Serves all position mark limit read)
    (follows : Follows read none pages)
    (ended : Ends pages) :
    Partition all position limit pages := by
  have sections := follows.sections serves .first
  refine ⟨sections.sorted, ?_, sections.full⟩
  intro item
  constructor
  · exact fun inside => (sections.past item inside).1
  · exact fun among => sections.complete ended item ⟨among, nofun⟩

theorem length_items_of_full
    {pages : List (Page α μ)}
    (full : ∀ page ∈ pages, page.items.length = limit) :
    (items pages).length = pages.length * limit := by
  induction pages with
  | nil => simp [items]
  | cons page pages inductionHypothesis =>
      have here := full page (List.mem_cons_self ..)
      have rest := inductionHypothesis fun other member =>
        full other (List.mem_cons_of_mem _ member)
      have joined : items (page :: pages) = page.items ++ items pages := rfl
      rw [joined, List.length_append, here, rest, List.length_cons,
        Nat.succ_mul, Nat.add_comm]

/-- There are no more pages than the set has room for. -/
theorem Follows.bounded
    {pages : List (Page α μ)}
    (serves : Serves all position mark limit read)
    (follows : Follows read none pages) :
    (pages.length - 1) * limit ≤ all.card := by
  classical
  have sections := follows.sections serves .first
  have early : items pages.dropLast <+: items pages := by
    cases pages.eq_nil_or_concat with
    | inl empty => simp [empty]
    | inr some =>
        obtain ⟨front, last, rfl⟩ := some
        rw [List.concat_eq_append, List.dropLast_concat, items, items,
          List.flatMap_append]
        exact List.prefix_append ..
  have distinct : (items pages).Nodup :=
    sections.sorted.imp fun less same => (same ▸ less).ne rfl
  calc (pages.length - 1) * limit
      = (items pages.dropLast).length := by
        rw [length_items_of_full sections.full, List.length_dropLast]
    _ ≤ (items pages).length := early.length_le
    _ = (items pages).toFinset.card := (List.toFinset_card_of_nodup distinct).symm
    _ ≤ all.card := by
        apply Finset.card_le_card
        intro item inside
        exact (sections.past item (List.mem_toFinset.mp inside)).1

/-- Pages that have not come to the end go on. -/
theorem Follows.goes_on
    {asked : Option μ}
    {bound : Option κ}
    {pages : List (Page α μ)}
    (serves : Serves all position mark limit read)
    (asks : Asks all position mark asked bound)
    (follows : Follows read asked pages)
    (unended : ¬Ends pages) :
    ∃ page, Follows read asked (pages ++ [page]) := by
  induction follows generalizing bound with
  | stop =>
      obtain ⟨page, reads⟩ := serves.answers asks
      refine ⟨page, ?_⟩
      cases goes : page.next with
      | none => exact .last reads goes
      | some after => exact .next reads goes .stop
  | last reads ended => exact absurd ⟨_, rfl, ended⟩ unended
  | next reads goes more inductionHypothesis =>
      obtain ⟨length, final, member, rfl, above, split⟩ :=
        (serves.whole asks reads).next _ goes
      obtain ⟨page, further⟩ := inductionHypothesis
        (.later ((serves.whole asks reads).past final member).1)
        fun ended => unended ((ends_cons goes).mpr ended)
      exact ⟨page, .next reads goes further⟩

/-- Reading on, one comes to the end. -/
theorem Serves.exists_ends
    (serves : Serves all position mark limit read)
    (positive : 0 < limit) :
    ∃ pages, Follows read none pages ∧ Ends pages := by
  by_contra endless
  have long : ∀ count, ∃ pages, Follows read none pages ∧
      pages.length = count := by
    intro count
    induction count with
    | zero => exact ⟨[], .stop, rfl⟩
    | succ count inductionHypothesis =>
        obtain ⟨pages, follows, length⟩ := inductionHypothesis
        obtain ⟨page, further⟩ := follows.goes_on serves .first
          fun ended => endless ⟨pages, follows, ended⟩
        exact ⟨_, further, by simp [length]⟩
  obtain ⟨pages, follows, length⟩ := long (all.card + 2)
  have bounded := follows.bounded serves
  have enough : all.card + 1 ≤ (pages.length - 1) * limit := by
    rw [length]
    exact Nat.le_mul_of_pos_right _ positive
  omega

/-- Whole pages lead through the set and to its end. -/
theorem Serves.reaches
    (serves : Serves all position mark limit read)
    (positive : 0 < limit) :
    Reaches all position limit read where
  goesOn _ follows unended := follows.goes_on serves .first unended
  bounded _ follows := follows.bounded serves
  ends := serves.exists_ends positive
  partition _ follows ended := follows.partition serves ended

/-- A mark that is handed out is that of an item. -/
theorem Follows.marks
    {asked : Option μ}
    {bound : Option κ}
    {pages : List (Page α μ)}
    (serves : Serves all position mark limit read)
    (asks : Asks all position mark asked bound)
    (follows : Follows read asked pages) :
    ∀ page ∈ pages, ∀ after, page.next = some after →
      ∃ item ∈ all, mark item = after := by
  induction follows generalizing bound with
  | stop => exact nofun
  | last reads ended =>
      intro page member after goes
      rw [List.mem_singleton.mp member, ended] at goes
      cases goes
  | next reads goes more inductionHypothesis =>
      have whole := serves.whole asks reads
      obtain ⟨_, final, member, rfl, _⟩ := whole.next _ goes
      have among := (whole.past final member).1
      intro page inside after handed
      rcases List.mem_cons.mp inside with rfl | later
      · cases goes.symm.trans handed
        exact ⟨final, among, rfl⟩
      · exact inductionHypothesis (.later among) page later after handed

end serves

end Paging
