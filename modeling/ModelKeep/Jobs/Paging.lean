import ModelKeep.Jobs.Recovery

/-!
# Pages of the history

A page holds the newest records below its cursor, and the next page starts
below its last one, so that the pages together list every record once.
-/

namespace ModelKeep
namespace Jobs

open Concurrency Program

/-! ## The largest keys -/

/-- The selected keys are the largest that were seen, the smallest first. -/
structure Largest
    (capacity : Nat)
    (seen selected : List String) :
    Prop where
  sorted : selected.Pairwise (· < ·)
  bounded : selected.length ≤ capacity
  among : ∀ key ∈ selected, key ∈ seen
  full : ∀ key ∈ seen, key ∉ selected → selected.length = capacity ∧
    ∀ other ∈ selected, key < other

theorem pairwise_orderedInsert
    {key : String}
    {keys : List String}
    (sorted : keys.Pairwise (· < ·))
    (absent : key ∉ keys) :
    (keys.orderedInsert (· ≤ ·) key).Pairwise (· < ·) := by
  have weak : (keys.orderedInsert (· ≤ ·) key).Pairwise (· ≤ ·) :=
    (sorted.imp le_of_lt).orderedInsert key keys
  have distinct : (keys.orderedInsert (· ≤ ·) key).Nodup :=
    (List.perm_orderedInsert (· ≤ ·) key keys).nodup_iff.mpr
      (List.nodup_cons.mpr ⟨absent, sorted.imp ne_of_lt⟩)
  exact (weak.and distinct).imp fun both => lt_of_le_of_ne both.1 both.2

/-- One more key is seen. -/
theorem Largest.selectKey
    {capacity : Nat}
    {seen selected : List String}
    {key : String}
    (largest : Largest capacity seen selected)
    (room : 0 < capacity)
    (fresh : key ∉ seen) :
    Largest capacity (key :: seen) (selectKey capacity selected key) := by
  have absent : key ∉ selected := fun member =>
    fresh (largest.among key member)
  unfold Jobs.selectKey
  split
  · next below =>
      refine ⟨pairwise_orderedInsert largest.sorted absent, ?_, ?_, ?_⟩
      · rw [List.orderedInsert_length]
        exact below
      · intro other member
        rcases (List.mem_orderedInsert _).mp member with rfl | inside
        · exact List.mem_cons_self ..
        · exact List.mem_cons_of_mem _ (largest.among other inside)
      · intro other member missing
        rw [List.mem_orderedInsert, not_or] at missing
        rcases List.mem_cons.mp member with rfl | inside
        · exact absurd rfl missing.1
        · have full := (largest.full other inside missing.2).1
          omega
  · next reached =>
      have length : selected.length = capacity := by
        have bounded := largest.bounded
        omega
      split
      · next smallest rest =>
          obtain ⟨least, sorted⟩ := List.pairwise_cons.mp largest.sorted
          split
          · next above =>
              have beside : key ∉ rest := fun member =>
                absent (List.mem_cons_of_mem _ member)
              refine ⟨pairwise_orderedInsert sorted beside, ?_, ?_, ?_⟩
              · rw [List.orderedInsert_length]
                exact length.le
              · intro other member
                rcases (List.mem_orderedInsert _).mp member with rfl | inside
                · exact List.mem_cons_self ..
                · exact List.mem_cons_of_mem _ (largest.among other
                    (List.mem_cons_of_mem _ inside))
              · intro other member missing
                rw [List.mem_orderedInsert, not_or] at missing
                refine ⟨by rw [List.orderedInsert_length]; exact length, ?_⟩
                have low : other ≤ smallest := by
                  rcases List.mem_cons.mp member with rfl | inside
                  · exact absurd rfl missing.1
                  · by_cases same : other = smallest
                    · exact same.le
                    · refine ((largest.full other inside ?_).2 smallest
                        (List.mem_cons_self ..)).le
                      simp [same, missing.2]
                intro kept inside
                rcases (List.mem_orderedInsert _).mp inside with rfl | inRest
                · exact lt_of_le_of_lt low above
                · exact lt_of_le_of_lt low (least kept inRest)
          · next notAbove =>
              refine ⟨largest.sorted, largest.bounded, ?_, ?_⟩
              · intro other member
                exact List.mem_cons_of_mem _ (largest.among other member)
              · intro other member missing
                rcases List.mem_cons.mp member with rfl | inside
                · refine ⟨length, ?_⟩
                  have low : other < smallest := by
                    refine lt_of_le_of_ne (not_lt.mp notAbove) ?_
                    rintro rfl
                    exact missing (List.mem_cons_self ..)
                  intro kept inside
                  rcases List.mem_cons.mp inside with rfl | inRest
                  · exact low
                  · exact low.trans (least kept inRest)
                · exact largest.full other inside missing
      · exact absurd length (by simp; omega)

/-! ## One page -/

/-- The record of this job is below the cursor. -/
def Ledger.Below
    (ledger : Ledger)
    (cursorKey : Option String)
    (job : Job) :
    Prop :=
  ledger.record job.id = some job ∧
    ∀ bound ∈ cursorKey, Ledger.keyOf job < bound

section page

variable {kept : Records → Prop} {ledger : Ledger} {start : JobFiles}
  {invariant : JobFiles → Prop}

/-- The keys that a page may hold. -/
def Ledger.Eligible
    (ledger : Ledger)
    (cursorKey : Option String)
    (key : String) :
    Prop :=
  (∃ id, jobIdFromHistoryKey key = some id ∧ ledger.record id ≠ none) ∧
    ∀ bound ∈ cursorKey, key < bound

theorem Ledger.Filed.eligible_iff
    {cursorKey : Option String}
    {key : String}
    (filed : ledger.Filed start) :
    key ∈ ledger.history ∧ ledger.Eligible cursorKey key ↔
      ∃ job, ledger.Below cursorKey job ∧ Ledger.keyOf job = key := by
  constructor
  · rintro ⟨member, ⟨id, decoded, present⟩, below⟩
    obtain ⟨job, found⟩ := Option.ne_none_iff_exists'.mp present
    have named := filed.named id job found
    subst named
    have same := filed.alone job.id job found key member decoded
    exact ⟨job, ⟨found, fun bound limit => same ▸ below bound limit⟩,
      same.symm⟩
  · rintro ⟨job, ⟨found, below⟩, rfl⟩
    refine ⟨filed.listed job.id job found, ⟨job.id, ?_, ?_⟩, below⟩
    · exact jobId_of_historyKey (filed.dated job.id job found)
        (filed.valid job.id job found)
    · rw [found]
      simp

theorem guards_selectKeys
    {capacity : Nat}
    {cursorKey : Option String}
    {paths : List Path}
    {seen selected : List String}
    (filed : ledger.Filed start)
    (holds : invariant start)
    (room : 0 < capacity)
    (distinct : paths.Nodup)
    (fresh : ∀ key, .history key ∈ paths → key ∉ seen)
    (largest : Largest capacity seen selected) :
    Guards Healthy invariant
      (selectKeys capacity cursorKey paths selected).run
      (fun outcome final => final = start ∧ ∃ all keys,
        outcome = .ok keys ∧ Largest capacity all keys ∧
        ∀ key, key ∈ all ↔ key ∈ seen ∨
          .history key ∈ paths ∧ ledger.Eligible cursorKey key) start := by
  induction paths generalizing seen selected with
  | nil =>
      refine ⟨holds, rfl, seen, selected, rfl, largest, ?_⟩
      simp
  | cons path paths inductionHypothesis =>
      obtain ⟨absent, remaining⟩ := List.nodup_cons.mp distinct
      have later : ∀ key, .history key ∈ paths → key ∉ seen :=
        fun key member => fresh key (List.mem_cons_of_mem _ member)
      -- a path that is passed over adds nothing
      have passed : (∀ key, path = .history key →
          ¬ledger.Eligible cursorKey key) →
          Guards Healthy invariant
            (selectKeys capacity cursorKey paths selected).run
            (fun outcome final => final = start ∧ ∃ all keys,
              outcome = .ok keys ∧ Largest capacity all keys ∧
              ∀ key, key ∈ all ↔ key ∈ seen ∨
                .history key ∈ path :: paths ∧
                  ledger.Eligible cursorKey key) start := by
        intro ineligible
        refine (inductionHypothesis remaining later largest).mono ?_
        rintro outcome final _ ⟨rfl, all, keys, rfl, top, members⟩
        refine ⟨rfl, all, keys, rfl, top, fun key => ?_⟩
        rw [members, List.mem_cons]
        constructor
        · rintro (old | ⟨member, eligible⟩)
          · exact Or.inl old
          · exact Or.inr ⟨Or.inr member, eligible⟩
        · rintro (old | ⟨same | member, eligible⟩)
          · exact Or.inl old
          · exact absurd eligible (ineligible key same.symm)
          · exact Or.inr ⟨member, eligible⟩
      unfold selectKeys
      split
      · next key =>
          split
          · next undecoded =>
              apply passed
              rintro _ ⟨⟩ ⟨⟨id, decoded, _⟩, _⟩
              rw [undecoded] at decoded
              cases decoded
          · next id decoded =>
              split
              · next above =>
                  apply passed
                  rintro _ ⟨⟩ ⟨_, below⟩
                  cases cursorKey with
                  | none => cases above
                  | some bound =>
                      have under := below bound rfl
                      simp only [Option.any_some, decide_eq_true_eq]
                        at above
                      exact absurd under (not_lt.mpr above)
              · next notAbove =>
                  apply guards_always_bind
                  apply guards_perform holds
                  intro reply after effect
                  obtain ⟨rfl, there⟩ := effect_isFile not_false effect
                  refine ⟨holds, ?_⟩
                  rw [filed.mem_iff] at there
                  split
                  · next present =>
                      have eligible : ledger.Eligible cursorKey key := by
                        refine ⟨⟨id, decoded, there.mp present⟩, ?_⟩
                        rintro bound ⟨⟩
                        simpa using notAbove
                      have unseen : key ∉ seen :=
                        fresh key (List.mem_cons_self ..)
                      refine (inductionHypothesis remaining ?_
                        (largest.selectKey room unseen)).mono ?_
                      · intro other member seenOther
                        rcases List.mem_cons.mp seenOther with rfl | inside
                        · exact absent member
                        · exact later other member inside
                      · rintro outcome final _ ⟨rfl, all, keys, rfl, top,
                          members⟩
                        refine ⟨rfl, all, keys, rfl, top, fun other => ?_⟩
                        rw [members, List.mem_cons, List.mem_cons]
                        constructor
                        · rintro ((rfl | old) | ⟨member, chosen⟩)
                          · exact Or.inr ⟨Or.inl rfl, eligible⟩
                          · exact Or.inl old
                          · exact Or.inr ⟨Or.inr member, chosen⟩
                        · rintro (old | ⟨same | member, chosen⟩)
                          · exact Or.inl (Or.inr old)
                          · cases same
                            exact Or.inl (Or.inl rfl)
                          · exact Or.inr ⟨member, chosen⟩
                  · next missing =>
                      apply passed
                      rintro _ ⟨⟩ ⟨⟨other, same, found⟩, _⟩
                      cases decoded.symm.trans same
                      exact missing (there.mpr found)
      · next notHistory =>
          apply passed
          intro key same
          exact absurd same (notHistory key)

/-- The records under keys that are all in use. -/
theorem guards_readPage
    {keys : List String}
    (filed : ledger.Filed start)
    (holds : invariant start)
    (used : ∀ key ∈ keys, ∃ job, ledger.record job.id = some job ∧
      Ledger.keyOf job = key) :
    Guards Healthy invariant (readPage keys).run
      (fun outcome final => final = start ∧ ∃ jobs, outcome = .ok jobs ∧
        jobs.map Ledger.keyOf = keys ∧
        ∀ job ∈ jobs, ledger.record job.id = some job) start := by
  induction keys with
  | nil => exact ⟨holds, rfl, [], rfl, rfl, by simp⟩
  | cons key keys inductionHypothesis =>
      obtain ⟨job, found, rfl⟩ := used key (List.mem_cons_self ..)
      have valid := filed.valid job.id job found
      unfold readPage
      rw [Ledger.keyOf, jobId_of_historyKey (filed.dated job.id job found)
        valid]
      dsimp only
      apply Guards.exceptBind
      apply (guards_readFiled filed holds valid).mono
      rintro _ _ _ ⟨rfl, rfl⟩
      rw [found]
      dsimp only
      rw [if_neg (by simp)]
      apply Guards.exceptBind
      apply (inductionHypothesis fun key member =>
        used key (List.mem_cons_of_mem _ member)).mono
      rintro _ _ holds ⟨rfl, jobs, rfl, same, records⟩
      refine ⟨holds, rfl, job :: jobs, rfl, ?_, ?_⟩
      · rw [List.map_cons, same]
        rfl
      · intro other member
        rcases List.mem_cons.mp member with rfl | inside
        · exact found
        · exact records other inside

/-- What a page below a cursor holds, and where the next one starts. -/
structure PageOf
    (ledger : Ledger)
    (cursorKey : Option String)
    (page : JobPage) :
    Prop where
  sorted : page.items.Pairwise fun newer older =>
    Ledger.keyOf older < Ledger.keyOf newer
  below : ∀ job ∈ page.items, ledger.Below cursorKey job
  last : page.nextCursor = none → ∀ job, ledger.Below cursorKey job →
    job ∈ page.items
  next : ∀ id, page.nextCursor = some id → ∃ last ∈ page.items,
    last.id = id ∧
      (∀ job ∈ page.items, Ledger.keyOf last ≤ Ledger.keyOf job) ∧
      ∀ job, ledger.Below cursorKey job →
        job ∈ page.items ∨ Ledger.keyOf job < Ledger.keyOf last

/-- A page that another comes after is full. -/
theorem JobPage.length_of
    {limit : Nat}
    {jobs : List Job}
    (goes : (JobPage.of limit jobs).nextCursor ≠ none) :
    (JobPage.of limit jobs).items.length = limit := by
  unfold JobPage.of at goes ⊢
  dsimp only at goes ⊢
  split at goes
  · next long => rw [List.length_take, Nat.min_eq_left (by omega)]
  · exact absurd rfl goes

/-- The records of a page out of the largest keys. -/
theorem PageOf.of_largest
    {limit : Nat}
    {cursorKey : Option String}
    {all keys : List String}
    {jobs : List Job}
    (positive : 0 < limit)
    (largest : Largest (limit + 1) all keys)
    (members : ∀ key, key ∈ all ↔
      ∃ job, ledger.Below cursorKey job ∧ Ledger.keyOf job = key)
    (same : jobs.map Ledger.keyOf = keys.reverse)
    (records : ∀ job ∈ jobs, ledger.record job.id = some job)
    (distinct : ∀ one other, ledger.record one.id = some one →
      ledger.record other.id = some other →
      Ledger.keyOf one = Ledger.keyOf other → one = other) :
    PageOf ledger cursorKey (JobPage.of limit jobs) := by
  have length : jobs.length = keys.length := by
    rw [← List.length_map Ledger.keyOf, same, List.length_reverse]
  have sorted : jobs.Pairwise fun newer older =>
      Ledger.keyOf older < Ledger.keyOf newer := by
    rw [← List.pairwise_map (R := (· > ·)), same, List.pairwise_reverse]
    exact largest.sorted
  have key_mem : ∀ job ∈ jobs, Ledger.keyOf job ∈ keys := by
    intro job member
    rw [← List.mem_reverse, ← same]
    exact List.mem_map_of_mem member
  have below : ∀ job ∈ jobs, ledger.Below cursorKey job := by
    intro job member
    obtain ⟨other, under, equal⟩ :=
      (members _).mp (largest.among _ (key_mem job member))
    rw [← distinct other job under.1 (records job member) equal]
    exact under
  have chosen : ∀ job, ledger.Below cursorKey job →
      Ledger.keyOf job ∈ keys → job ∈ jobs := by
    intro job under member
    rw [← List.mem_reverse, ← same] at member
    obtain ⟨other, inside, equal⟩ := List.mem_map.mp member
    rw [← distinct other job (records other inside) under.1 equal]
    exact inside
  have left : ∀ job, ledger.Below cursorKey job →
      Ledger.keyOf job ∉ keys → keys.length = limit + 1 ∧
        ∀ other ∈ keys, Ledger.keyOf job < other := by
    intro job under missing
    exact largest.full _ ((members _).mpr ⟨job, under, rfl⟩) missing
  unfold JobPage.of
  refine ⟨sorted.sublist (List.take_sublist ..),
    fun job member => below job (List.mem_of_mem_take member), ?_, ?_⟩
  · intro none job under
    dsimp only at none ⊢
    have short : jobs.length ≤ limit := by
      by_contra long
      rw [if_pos (by omega), List.getElem?_eq_getElem (by omega)] at none
      cases none
    rw [List.take_of_length_le short]
    apply chosen job under
    by_contra missing
    have full := (left job under missing).1
    omega
  · intro id some
    dsimp only at some ⊢
    have long : limit < jobs.length := by
      by_contra short
      rw [if_neg short] at some
      cases some
    obtain ⟨count, rfl⟩ : ∃ count, limit = count + 1 :=
      ⟨limit - 1, by omega⟩
    rw [if_pos long, Nat.add_sub_cancel,
      List.getElem?_eq_getElem (by omega)] at some
    cases some
    have split : jobs = jobs.take count ++
        jobs[count] :: jobs.drop (count + 1) := by
      rw [List.getElem_cons_drop, List.take_append_drop]
    have taken : jobs.take (count + 1) =
        jobs.take count ++ [jobs[count]] :=
      (List.take_append_getElem (by omega)).symm
    have lastTaken : jobs[count] ∈ jobs.take (count + 1) := by
      rw [taken]
      exact List.mem_append_right _ (List.mem_singleton_self _)
    have order := sorted
    rw [split, List.pairwise_append, List.pairwise_cons] at order
    obtain ⟨_, ⟨older, _⟩, newer⟩ := order
    refine ⟨jobs[count], lastTaken, rfl, ?_, ?_⟩
    · intro job member
      rw [taken, List.mem_append, List.mem_singleton] at member
      rcases member with early | rfl
      · exact (newer job early _ (List.mem_cons_self ..)).le
      · exact le_rfl
    · intro job under
      by_cases member : Ledger.keyOf job ∈ keys
      · have inside := chosen job under member
        rw [split, List.mem_append, List.mem_cons] at inside
        rcases inside with early | rfl | late
        · left
          rw [taken]
          exact List.mem_append_left _ early
        · exact Or.inl lastTaken
        · exact Or.inr (older job late)
      · right
        exact (left job under member).2 _
          (key_mem _ (List.getElem_mem (by omega)))

/-- The key of a cursor. -/
def Ledger.cursorKey (ledger : Ledger) (cursor : Option String) :
    Option String :=
  cursor.bind fun id => (ledger.record id).map Ledger.keyOf

theorem Ledger.Filed.keyOf_injective
    {one other : Job}
    (filed : ledger.Filed start)
    (found : ledger.record one.id = some one)
    (foundOther : ledger.record other.id = some other)
    (same : Ledger.keyOf one = Ledger.keyOf other) :
    one = other := by
  have decoded := jobId_of_historyKey (filed.dated one.id one found)
    (filed.valid one.id one found)
  unfold Ledger.keyOf at same
  rw [same, jobId_of_historyKey (filed.dated other.id other foundOther)
    (filed.valid other.id other foundOther)] at decoded
  have sameId : other.id = one.id := Option.some.inj decoded
  rw [sameId] at foundOther
  exact Option.some.inj (found.symm.trans foundOther)

theorem guards_listPage
    {limit : Nat}
    {cursor : Option String}
    (filed : ledger.Filed start)
    (holds : invariant start)
    (positive : 0 < limit)
    (known : ∀ id ∈ cursor, ∃ job, ledger.record id = some job) :
    Guards Healthy invariant (listPage limit cursor).run
      (fun outcome final => final = start ∧ ∃ page, outcome = .ok page ∧
        PageOf ledger (ledger.cursorKey cursor) page ∧
        (page.nextCursor ≠ none → page.items.length = limit)) start := by
  have rest : Guards Healthy invariant
      (do
        let paths ← orFail (perform (.list .byCreated))
        let selected ← selectKeys (limit + 1) (ledger.cursorKey cursor) paths
          []
        let jobs ← readPage selected.reverse
        return JobPage.of limit jobs : Action JobPage).run
      (fun outcome final => final = start ∧ ∃ page, outcome = .ok page ∧
        PageOf ledger (ledger.cursorKey cursor) page ∧
        (page.nextCursor ≠ none → page.items.length = limit)) start := by
    apply guards_orFail_bind
    apply guards_perform holds
    intro reply after effect
    obtain ⟨paths, rfl, rfl, distinct, listed⟩ := effect_list effect
    refine ⟨holds, paths, rfl, ?_⟩
    apply Guards.exceptBind
    refine (guards_selectKeys filed holds (Nat.succ_pos limit) distinct
      (fun _ _ => List.not_mem_nil) ?_).mono ?_
    · exact ⟨.nil, Nat.zero_le _, by simp, by simp⟩
    rintro _ _ _ ⟨rfl, all, keys, rfl, largest, members⟩
    have inUse : ∀ key, key ∈ all ↔ ∃ job,
        ledger.Below (ledger.cursorKey cursor) job ∧
          Ledger.keyOf job = key := by
      intro key
      rw [members, ← filed.eligible_iff, listed, filed.history]
      simp [Path.directory]
    dsimp only
    apply Guards.exceptBind
    refine (guards_readPage filed holds ?_).mono ?_
    · intro key member
      obtain ⟨job, under, same⟩ := (inUse key).mp
        (largest.among key (List.mem_reverse.mp member))
      exact ⟨job, under.1, same⟩
    rintro _ _ holds ⟨rfl, jobs, rfl, same, records⟩
    exact ⟨holds, rfl, _, rfl, .of_largest positive largest inUse same
      records fun _ _ => filed.keyOf_injective, JobPage.length_of⟩
  unfold listPage
  cases cursor with
  | none => exact rest
  | some id =>
      obtain ⟨job, found⟩ := known id rfl
      have valid := filed.valid id job found
      have named := filed.named id job found
      subst named
      apply guards_always_bind
      apply (guards_readFiled filed holds valid).mono
      rintro _ _ _ ⟨rfl, rfl⟩
      have key : ledger.cursorKey (some job.id) =
          some (historyKey job.createdAt job.id) := by
        unfold Ledger.cursorKey
        rw [Option.bind_some, found]
        rfl
      rw [key] at rest ⊢
      rw [found]
      exact rest

/-! ## All pages -/

/-- The pages from a cursor to the end of the history. -/
inductive Paged (limit : Nat) (files : JobFiles) :
    Option String → List Job → Prop
  | last
      {cursor : Option String}
      {items : List Job}
      (page : Returns Healthy (listPage limit cursor) files
        (.ok ⟨items, none⟩) files) :
      Paged limit files cursor items
  | next
      {cursor : Option String}
      {items rest : List Job}
      {last : String}
      (page : Returns Healthy (listPage limit cursor) files
        (.ok ⟨items, some last⟩) files)
      (more : Paged limit files (some last) rest) :
      Paged limit files cursor (items ++ rest)

theorem guards_page
    {limit : Nat}
    {cursor : Option String}
    {page : JobPage}
    (here : At kept start ledger)
    (positive : 0 < limit)
    (known : ∀ id ∈ cursor, ∃ job, ledger.record id = some job)
    (returns : Returns Healthy (listPage limit cursor) start (.ok page)
      start) :
    PageOf ledger (ledger.cursorKey cursor) page := by
  obtain ⟨_, _, found, same, whole⟩ :=
    (guards_listPage here.filed here.holds positive known).of_runs returns
  cases same
  exact whole.1

/-- The pages below a cursor list every record below it, the newest first. -/
theorem Paged.complete
    {limit : Nat}
    {cursor : Option String}
    {jobs : List Job}
    (here : At kept start ledger)
    (positive : 0 < limit)
    (known : ∀ id ∈ cursor, ∃ job, ledger.record id = some job)
    (paged : Paged limit start cursor jobs) :
    (jobs.Pairwise fun newer older =>
      Ledger.keyOf older < Ledger.keyOf newer) ∧
      ∀ job, job ∈ jobs ↔ ledger.Below (ledger.cursorKey cursor) job := by
  induction paged with
  | last page =>
      have whole := guards_page here positive known page
      exact ⟨whole.sorted, fun job =>
        ⟨whole.below job, whole.last rfl job⟩⟩
  | @next _ items rest _ page more inductionHypothesis =>
      have whole := guards_page here positive known page
      obtain ⟨final, member, rfl, above, split⟩ := whole.next _ rfl
      have finalBelow := whole.below final member
      obtain ⟨sorted, members⟩ := inductionHypothesis (by
        rintro _ ⟨⟩
        exact ⟨final, finalBelow.1⟩)
      have key : ledger.cursorKey (some final.id) =
          some (Ledger.keyOf final) := by
        unfold Ledger.cursorKey
        rw [Option.bind_some, finalBelow.1]
        rfl
      have later : ∀ job, job ∈ rest ↔ ledger.record job.id = some job ∧
          Ledger.keyOf job < Ledger.keyOf final := by
        intro job
        rw [members, Ledger.Below, key]
        simp
      refine ⟨List.pairwise_append.mpr ⟨whole.sorted, sorted, ?_⟩, ?_⟩
      · intro newer inside older after
        exact lt_of_lt_of_le ((later older).mp after).2 (above newer inside)
      · intro job
        rw [List.mem_append, later]
        constructor
        · rintro (inside | ⟨found, low⟩)
          · exact whole.below job inside
          · exact ⟨found, fun bound limit =>
              low.trans (finalBelow.2 bound limit)⟩
        · intro under
          rcases split job under with inside | low
          · exact Or.inl inside
          · exact Or.inr ⟨under.1, low⟩

/-- The operations that only look at the files. -/
def Looks : Op → Prop
  | .file (.isFile _) => True
  | .file (.read _) => True
  | .file (.list _) => True
  | _ => False

theorem looks_total
    (op : Op)
    (files : JobFiles)
    (looks : Looks op) :
    ∃ reply after, Healthy op files reply after := by
  cases op with
  | file op =>
      cases op with
      | isFile path => exact ⟨_, _, Or.inl rfl⟩
      | read path => exact ⟨_, _, Or.inl rfl⟩
      | list directory =>
          refine ⟨_, files, Or.inl ⟨files.keys.toList.filter fun path =>
            path.directory = directory, rfl, rfl,
              files.keys.nodup_toList.filter _, ?_⟩⟩
          intro path
          rw [List.mem_filter, Finset.mem_toList, Finmap.mem_keys, and_comm]
          simp
      | _ => exact looks.elim
  | _ => exact looks.elim

/-- A program that only looks, and can answer this alone. -/
theorem settles_of_looks
    {α : Type}
    {program : Program interface α}
    {files : JobFiles}
    {value : α}
    (looks : Only Looks program)
    (answers : ∀ answer final, program.Runs Healthy files answer final →
      answer = value ∧ final = files) :
    Settles Healthy program files value files := by
  intro answer final
  refine ⟨answers answer final, ?_⟩
  rintro ⟨rfl, rfl⟩
  obtain ⟨found, later, run⟩ := looks.exists_runs looks_total final
  obtain ⟨rfl, rfl⟩ := answers found later run
  exact run

theorem looks_selectKeys
    {capacity : Nat}
    {cursorKey : Option String}
    {paths : List Path}
    {selected : List String} :
    Only Looks (selectKeys capacity cursorKey paths selected).run := by
  induction paths generalizing selected with
  | nil => trivial
  | cons path paths inductionHypothesis =>
      unfold selectKeys
      split
      · split
        · exact inductionHypothesis
        · split
          · exact inductionHypothesis
          · refine Only.exceptBind (Only.bind ⟨trivial, fun _ => trivial⟩
              fun _ => trivial) fun _ => ?_
            split <;> exact inductionHypothesis
      · exact inductionHypothesis

theorem looks_readJob {id : String} : Only Looks (readJob id).run := by
  unfold readJob
  refine Only.exceptBind trivial fun _ => Only.exceptBind
    (Only.bind ⟨trivial, fun _ => trivial⟩ fun _ => trivial) fun _ => ?_
  split
  · split <;> trivial
  · trivial

theorem looks_readIdempotency
    {hash : String} :
    Only Looks (readIdempotency hash).run := by
  unfold readIdempotency
  refine Only.exceptBind trivial fun _ => Only.exceptBind
    (Only.bind ⟨trivial, fun _ => trivial⟩ fun _ => trivial) fun _ => ?_
  split
  · exact Only.exceptBind trivial fun _ => trivial
  · trivial
  · trivial

theorem looks_readPage
    {keys : List String} :
    Only Looks (readPage keys).run := by
  induction keys with
  | nil => trivial
  | cons key keys inductionHypothesis =>
      unfold readPage
      split
      · trivial
      · refine Only.exceptBind looks_readJob fun _ => ?_
        dsimp only
        split
        · trivial
        · exact Only.exceptBind inductionHypothesis fun _ => trivial

theorem looks_listPage
    {limit : Nat}
    {cursor : Option String} :
    Only Looks (listPage limit cursor).run := by
  have rest : ∀ cursorKey, Only Looks
      (do
        let paths ← orFail (perform (.list .byCreated))
        let selected ← selectKeys (limit + 1) cursorKey paths []
        let jobs ← readPage selected.reverse
        return JobPage.of limit jobs : Action JobPage).run := by
    intro cursorKey
    refine Only.exceptBind
      (Only.bind ⟨trivial, fun _ => trivial⟩ fun _ => trivial) fun _ => ?_
    refine Only.exceptBind looks_selectKeys fun _ => ?_
    exact Only.exceptBind looks_readPage fun _ => trivial
  unfold listPage
  cases cursor with
  | none => exact rest none
  | some id =>
      refine Only.exceptBind (Only.bind looks_readJob fun _ => trivial)
        fun outcome => ?_
      match outcome with
      | .ok job => exact rest _
      | .error error =>
          dsimp only
          split <;> trivial

/-- The pages from a cursor on come to an end. -/
theorem exists_paged
    {limit : Nat}
    (here : At kept start ledger)
    (positive : 0 < limit)
    (cursor : Option String)
    (known : ∀ id ∈ cursor, ∃ job, ledger.record id = some job) :
    ∃ jobs, Paged limit start cursor jobs := by
  classical
  -- the induction is on the keys that are still below the cursor
  induction measure : (start.keys.filter fun path =>
      ∀ key, path = .history key → ∀ bound ∈ ledger.cursorKey cursor,
        key < bound).card using Nat.strong_induction_on
      generalizing cursor with
  | _ count inductionHypothesis =>
      have looks : Only Looks (listPage limit cursor).run := looks_listPage
      obtain ⟨outcome, final, run⟩ := looks.exists_runs looks_total start
      obtain ⟨_, same, ⟨items, nextCursor⟩, rfl, whole, _⟩ :=
        (guards_listPage here.filed here.holds positive known).of_runs run
      rw [same] at run
      cases nextCursor with
      | none => exact ⟨items, .last run⟩
      | some last =>
          obtain ⟨final, member, rfl, -⟩ := whole.next _ rfl
          obtain ⟨found, below⟩ := whole.below final member
          have key : ledger.cursorKey (some final.id) =
              some (Ledger.keyOf final) := by
            unfold Ledger.cursorKey
            rw [Option.bind_some, found]
            rfl
          have fewer : (start.keys.filter fun path =>
              ∀ key, path = .history key →
                ∀ bound ∈ ledger.cursorKey (some final.id),
                  key < bound).card < count := by
            rw [← measure, key]
            apply Finset.card_lt_card
            refine Finset.ssubset_iff_of_subset ?_ |>.mpr
              ⟨.history (Ledger.keyOf final), ?_, ?_⟩
            · intro path inside
              obtain ⟨there, under⟩ := Finset.mem_filter.mp inside
              refine Finset.mem_filter.mpr ⟨there, ?_⟩
              intro key same bound limit
              exact (under key same _ rfl).trans (below bound limit)
            · refine Finset.mem_filter.mpr ⟨?_, ?_⟩
              · rw [Finmap.mem_keys, here.shows.history]
                exact (here.sound.ready final.id final found).listed
              · rintro key ⟨⟩
                exact below
            · intro inside
              exact lt_irrefl _
                ((Finset.mem_filter.mp inside).2 _ rfl _ rfl)
          obtain ⟨rest, paged⟩ := inductionHypothesis _ fewer
            (some final.id) (by rintro _ ⟨⟩; exact ⟨final, found⟩) rfl
          exact ⟨items ++ rest, .next run paged⟩

theorem settles_readJob
    {id : String}
    {job : Job}
    (here : At kept start ledger)
    (found : ledger.record id = some job) :
    Settles Healthy (readJob id).run start (.ok job) start := by
  have valid : isJobId id = true :=
    here.sound.named id job found ▸ (here.sound.ready id job found).valid
  have guards := guards_readJob here valid
  rw [found] at guards
  apply settles_of_looks looks_readJob
  intro outcome final run
  obtain ⟨_, same, answer⟩ := guards.of_runs run
  exact ⟨answer, same⟩

end page

end Jobs
end ModelKeep
