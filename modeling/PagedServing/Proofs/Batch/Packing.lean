import PagedServing.Proofs.Batch.Layout
import PagedServing.Proofs.Cache.CopyOnWrite
import PagedServing.Proofs.Memory.Slots
import PagedServing.Proofs.Scheduler.Assembly
import PagedServing.Proofs.Scheduler.Likeness

/-! # What building a batch respects

Candidates are considered one after the other, and each that is taken in takes blocks away from those
that come later. Blocks may be shared: the last block of a candidate is copied if others hold it, so
that of two candidates which share a block only the first copies it. In every state that a cache
reaches, building stays within its limits, changes nothing but the tables of those that it takes in,
and the copies that it asks for do not touch each other.
-/

namespace PagedServing

namespace Cache

variable {c c' : Cache} {id : SeqId}

theorem numbered_iff : Numbered c.origins ↔ ∀ id, c.Knows id → (c.sequence id).id = id := by
  have length : c.origins.length = c.sequences.nextId := List.length_map _
  unfold Numbered Knows
  rw [length]
  refine forall₂_congr fun id _ => ?_
  rw [← origin_sequence]
  rfl

theorem create_numbered (draft : Draft) :
    (create? draft).Preserves fun c => Numbered c.origins := by
  intro c numbered
  by_cases prompt : draft.prompt = []
  · simp [create?, Store.create, prompt, numbered]
  by_cases size : draft.blockSize ≤ 0
  · simp [create?, Store.create, prompt, size, numbered]
  refine ((create_returns prompt (Int.not_le.mp size)).weaken ?_).yields
  rintro new c' ⟨q, created, number, -⟩
  rw [numbered_iff] at numbered ⊢
  intro other knows
  rcases (created.knows_iff other).mp knows with old | rfl
  · rw [created.others other old]
    exact numbered other old
  · rw [created.self, number]

theorem Operation.numbered (numbered : Numbered c.origins) (operation : Operation) :
    Numbered (operation.run.after c).origins := by
  have kept : ∀ {act : Action Cache Unit}, act.Tracks (Like c.origins) →
      Numbered (act.after c).origins := fun tracks => by
    rw [(tracks.after ⟨⟨c.journal, rfl⟩, rfl⟩).origins]
    exact numbered
  cases operation with
  | create draft => exact (create_numbered draft).map.after numbered
  | mark id status computed => exact kept (edit_tracks fun _ => rfl)
  | append id token => exact kept (append_tracks id token)
  | allocate id => exact kept (allocate_tracks id)
  | grow id tokens => exact kept (.map (grow_tracks id tokens))
  | fork parent child => exact kept (fork_tracks parent child)
  | swapOut id => exact kept (.map (swapOut_tracks id))
  | swapIn id => exact kept (.map (swapIn_tracks id))
  | publish id => exact kept (publish_tracks id)
  | release id => exact kept (release_tracks id)

theorem sequences_of_created {deviceBlocks blockSize hostBlocks : Int} {sharing : Bool}
    (created : Cache.create deviceBlocks blockSize hostBlocks sharing = .ok c) : c.sequences = {} := by
  unfold Cache.create at created
  cases device : Pool.create deviceBlocks blockSize with
  | error fault => simp [device, bind, Except.bind] at created
  | ok p =>
      simp only [device, bind, Except.bind] at created
      split at created
      all_goals
        split at created
        · cases created
        · split at created
          · obtain rfl := Except.ok.inj created
            rfl
          · cases created

theorem Operated.numbered {created : Cache} {deviceBlocks blockSize hostBlocks : Int} {sharing : Bool}
    (creation : Cache.create deviceBlocks blockSize hostBlocks sharing = .ok created)
    (operated : Operated created c) : Numbered c.origins := by
  induction operated with
  | start =>
      have empty : created.sequences = {} := sequences_of_created creation
      intro id known
      rw [origins, empty] at known
      exact absurd known (Nat.not_lt_zero id)
  | next _ operation _ numbered => exact operation.numbered numbered

namespace Exchanged

variable {kept taken : List Int}

theorem shared_of_copied (tends : Tends id c) {b : Int} (copied : b ∈ c.copied id) :
    1 < c.deviceHolders b ∧ (c.copied id).count b ≤ 1 := by
  have count := c.length_copied id
  unfold Cache.copied at copied count ⊢
  split at copied
  · rename_i needs
    obtain ⟨last, same, shared, -⟩ := (needsCopy_iff tends.2.2).mp needs
    rw [tends.refs_eq (List.mem_of_getLast? same)] at shared
    obtain rfl : b = last := by simpa [same] using copied
    rw [if_pos needs, same]
    exact ⟨shared, by simp⟩
  · cases copied

variable (exchanged : c.Exchanged c' id kept (c.copied id) taken)
include exchanged

theorem held {b : Int} (positive : 0 < c.deviceHolders b) : 0 < c'.deviceHolders b := by
  have change := exchanged.holders b
  by_cases copied : b ∈ c.copied id
  · have := shared_of_copied exchanged.tends copied
    omega
  · rw [List.count_eq_zero_of_not_mem copied] at change
    omega

theorem alone {b : Int} (single : c.deviceHolders b = 1) : c'.deviceHolders b = 1 := by
  have change := exchanged.holders b
  have stays : b ∉ c.copied id := fun copied => by
    have := (shared_of_copied exchanged.tends copied).1
    omega
  have fresh : b ∉ taken := fun new => by
    have := exchanged.taken_unheld new
    omega
  rw [List.count_eq_zero_of_not_mem stays, List.count_eq_zero_of_not_mem fresh] at change
  omega

theorem alone_taken {b : Int} (new : b ∈ taken) : c'.deviceHolders b = 1 := by
  have member : b ∈ (c'.sequence id).table := exchanged.table ▸ List.mem_append_right _ new
  rw [← exchanged.tends'.refs_eq member]
  exact exchanged.refs_taken new

end Exchanged

theorem table_unique {other : SeqId} {b : Int} (single : c.deviceHolders b = 1) (knows : c.Knows id)
    (knows' : c.Knows other) (away : c.isSwapped id = false) (away' : c.isSwapped other = false)
    (member : b ∈ (c.sequence id).table) (member' : b ∈ (c.sequence other).table) : other = id := by
  obtain ⟨i, place⟩ := List.getElem?_of_mem member
  obtain ⟨j, place'⟩ := List.getElem?_of_mem member'
  exact (place_unique (Nat.le_of_eq single) knows knows' (deviceTable_place away place)
    (deviceTable_place away' place')).1

end Cache

namespace Assembly

variable {l : Limits} {c c' : Cache} {a : Assembly} {id : SeqId} {seen ids : List SeqId}

/-- The candidates stand in the order of their priority, no two of them alike. -/
def Ordered (c : Cache) (ids : List SeqId) : Prop :=
  ids.Pairwise fun x y => (c.sequence x).precedes (c.sequence y) = true

theorem rank_ordered (apart : ∀ other ∈ ids, (c.sequence other).id ≠ (c.sequence id).id)
    (ordered : Ordered c ids) : Ordered c (rank c id ids) := by
  induction ids with
  | nil => exact List.pairwise_singleton _ _
  | cons other rest ih =>
      obtain ⟨first, rest'⟩ := List.pairwise_cons.mp ordered
      have total := Sequence.precedes_total (apart other List.mem_cons_self)
      unfold rank
      split
      · rename_i before
        refine List.pairwise_cons.mpr ⟨fun x member => ?_, ih (fun x member =>
          apart x (List.mem_cons_of_mem _ member)) rest'⟩
        rcases List.mem_cons.mp ((Scheduler.rank_perm c id rest).mem_iff.mp member) with rfl | among
        · exact before
        · exact first x among
      · rename_i behind
        have before := total.resolve_left behind
        refine List.pairwise_cons.mpr ⟨fun x member => ?_, ordered⟩
        rcases List.mem_cons.mp member with rfl | among
        · exact before
        · exact Sequence.precedes_trans before (first x among)

theorem prioritised_ordered (numbered : Numbered c.origins) (distinct : ids.Nodup)
    (known : ∀ id ∈ ids, c.Knows id) : Ordered c (prioritised c ids) := by
  have number := Cache.numbered_iff.mp numbered
  induction ids with
  | nil => exact List.Pairwise.nil
  | cons id rest ih =>
      obtain ⟨absent, distinct⟩ := List.nodup_cons.mp distinct
      have known' : ∀ other ∈ rest, c.Knows other := fun other member =>
        known other (List.mem_cons_of_mem _ member)
      refine rank_ordered (fun other member => ?_) (ih distinct known')
      have among := (Scheduler.prioritised_perm c rest).mem_iff.mp member
      rw [number other (known' other among), number id (known id List.mem_cons_self)]
      exact fun same => absent (same ▸ among)

/-- Every block that is copied to is in one table, that of a sequence which takes part, and every block
    that is copied from is one that others hold. -/
structure Detached (c : Cache) (a : Assembly) : Prop where
  distinct : (a.batch.copies.map (·.2)).Nodup
  alone : ∀ copy ∈ a.batch.copies, c.deviceHolders copy.2 = 1
  placed : ∀ copy ∈ a.batch.copies, ∃ id ∈ a.admitted, copy.2 ∈ (c.sequence id).table
  held : ∀ copy ∈ a.batch.copies, 0 < c.deviceHolders copy.1
  unread : ∀ copy ∈ a.batch.copies, ∀ other ∈ a.batch.copies, copy.2 ≠ other.1

/-- Another sequence takes part. It may copy a block that others hold, to one that nobody held. -/
theorem Detached.taken {a' : Assembly} {kept taken : List Int} {copy : Option (Int × Int)}
    (detached : Detached c a) (new : id ∉ a.admitted)
    (exchanged : c.Exchanged c' id kept (c.copied id) taken)
    (copies : copy.toList = (c.copied id).zip taken)
    (batch : a'.batch.copies = a.batch.copies ++ copy.toList)
    (admitted : a'.admitted = a.admitted ++ [id]) : Detached c' a' := by
  have made : ∀ pair ∈ copy.toList, pair.1 ∈ c.copied id ∧ pair.2 ∈ taken := fun pair member => by
    rw [copies] at member
    exact List.of_mem_zip member
  have source : ∀ pair ∈ copy.toList, 1 < c.deviceHolders pair.1 := fun pair member =>
    (Cache.Exchanged.shared_of_copied exchanged.tends (made pair member).1).1
  have target : ∀ pair ∈ copy.toList, c.deviceHolders pair.2 = 0 := fun pair member =>
    exchanged.taken_unheld (made pair member).2
  constructor
  case distinct =>
    rw [batch, List.map_append, List.nodup_append]
    refine ⟨detached.distinct, ?_, fun b member b' member' same => ?_⟩
    · cases copy <;> simp
    · obtain ⟨old, listed, rfl⟩ := List.mem_map.mp member
      obtain ⟨pair, listed', rfl⟩ := List.mem_map.mp member'
      have := detached.alone old listed
      rw [same, target pair listed'] at this
      omega
  case alone =>
    intro pair member
    rcases List.mem_append.mp (batch ▸ member) with old | fresh
    · exact exchanged.alone (detached.alone pair old)
    · exact exchanged.alone_taken (made pair fresh).2
  case placed =>
    intro pair member
    rw [admitted]
    rcases List.mem_append.mp (batch ▸ member) with old | fresh
    · obtain ⟨other, among, inside⟩ := detached.placed pair old
      refine ⟨other, List.mem_append_left _ among, ?_⟩
      rwa [exchanged.replaced.others other fun same => new (same ▸ among)]
    · refine ⟨id, by simp, ?_⟩
      rw [exchanged.table]
      exact List.mem_append_right _ (made pair fresh).2
  case held =>
    intro pair member
    rcases List.mem_append.mp (batch ▸ member) with old | fresh
    · exact exchanged.held (detached.held pair old)
    · exact exchanged.held (Nat.zero_lt_of_lt (source pair fresh))
  -- a source has another holder, while a target has one holder from when it is taken,
  -- so the copies of different sequences never meet
  case unread =>
    intro pair member other member' same
    rcases List.mem_append.mp (batch ▸ member) with old | fresh
    · rcases List.mem_append.mp (batch ▸ member') with old' | fresh'
      · exact detached.unread pair old other old' same
      · have single := detached.alone pair old
        have shared := source other fresh'
        rw [same] at single
        omega
    · have unheld := target pair fresh
      rcases List.mem_append.mp (batch ▸ member') with old' | fresh'
      · have positive := detached.held other old'
        rw [same] at unheld
        omega
      · have shared := source other fresh'
        rw [same] at unheld
        omega

/-- A candidate may be taken in if it is running: its blocks are on the device and no more of it is
    computed than there is. -/
def Ready (c : Cache) (id : SeqId) : Prop :=
  (c.sequence id).status = .running → c.isSwapped id = false ∧ 0 ≤ (c.sequence id).computed ∧
    (c.sequence id).computed ≤ (c.sequence id).length

/-- Whether a candidate runs and cannot go on. -/
def Limits.exceeds (l : Limits) (c : Cache) (id : SeqId) : Bool :=
  (c.sequence id).status = .running && l.maxLength ≤ (c.sequence id).length

/-- The number of tokens that some sequences have to process. -/
def claim (c : Cache) (ids : List SeqId) : Int :=
  total (ids.map fun id => (c.sequence id).uncomputed)

/-- What taking a candidate in does: its table is made to cover one token more, and the batch lists what
    it has to process. -/
structure Took (c c' : Cache) (a a' : Assembly) (id : SeqId) : Prop where
  exchanged : ∃ kept taken, c.Exchanged c' id kept (c.copied id) taken ∧
    ∃ copy : Option (Int × Int), copy.toList = (c.copied id).zip taken ∧
      a'.batch.copies = a.batch.copies ++ copy.toList
  covers : ((c.sequence id).length : Int) + 1 ≤ (c'.sequence id).table.length * c.blockSize
  admitted : a'.admitted = a.admitted ++ [id]
  rejected : a'.rejected = a.rejected
  tokens : a'.tokens = a.tokens + (c.sequence id).uncomputed
  listed : (a'.batch.tokens.length : Int) = a.batch.tokens.length + (c.sequence id).uncomputed
  blockSize : a'.batch.blockSize = a.batch.blockSize

theorem takeIn_took (tends : Cache.Tends id c) (natural : 0 ≤ (c.sequence id).computed)
    (processed : (c.sequence id).computed ≤ (c.sequence id).length)
    (size : a.batch.blockSize = c.blockSize)
    (enough : c.canAppend id ((c.sequence id).length + 1) = true) :
    (a.takeIn id).Returns c fun a' c' => Took c c' a a' id := by
  simp only [Assembly.takeIn, Action.returns_bind, Cache.returns_look]
  refine (Cache.grow_exchanges tends enough).run.weaken ?_
  rintro copy c' ⟨run, kept, taken, exchanged, -, copies, -⟩
  have self := exchanged.replaced.self
  have uncomputed : (c'.sequence id).uncomputed = (c.sequence id).uncomputed := by rw [self]; rfl
  have covers := (Cache.grow_covers tends run).2
  rw [exchanged.replaced.blockSize] at covers
  have covered : (c'.sequence id).length ≤ (c'.sequence id).table.length * a.batch.blockSize := by
    have length : (c'.sequence id).length = (c.sequence id).length := by rw [self]; rfl
    rw [length, size]
    omega
  have added := Batch.add_covered (b := { a.batch with copies := a.batch.copies ++ copy.toList })
    (q := c'.sequence id) (by rw [self]; exact natural) (by rw [self]; exact processed) covered
  simp only [Action.returns_ofExcept, added, Except.ok.injEq, exists_eq_left', Action.returns_pure]
  constructor
  case exchanged => exact ⟨kept, taken, exchanged, copy, copies, rfl⟩
  case covers => exact covers
  case admitted => rfl
  case rejected => rfl
  case tokens => exact congrArg (a.tokens + ·) uncomputed
  case listed =>
    have length := Offset.length_suffix (q := c'.sequence id) (by rw [self]; exact natural)
      (by rw [self]; exact processed)
    rw [uncomputed] at length
    rw [List.length_append, Nat.cast_add, length]
  case blockSize => rfl

/-- What was considered so far, the candidates `seen`, in a cache that was `c` at first. -/
structure Packing (l : Limits) (c c' : Cache) (seen : List SeqId) (a : Assembly) : Prop where
  tallied : c'.Tallied
  swapped : c'.swapped = c.swapped
  blockSize : c'.blockSize = c.blockSize
  knows : ∀ id, c'.Knows id ↔ c.Knows id
  others : ∀ id, id ∉ a.admitted → c'.sequence id = c.sequence id
  altered : ∀ id, ∃ table, c'.sequence id = { c.sequence id with table }
  admitted : a.admitted.Sublist seen
  running : ∀ id ∈ a.admitted, c.Knows id ∧ c.isSwapped id = false ∧
    (c.sequence id).status = .running
  rejected : a.rejected = seen.filter (l.exceeds c)
  number : ∀ n, l.maxSequences = some n → (a.admitted.length : Int) ≤ max n 0
  tokens : a.tokens = claim c a.admitted ∧ a.tokens ≤ l.budget
  batched : (a.batch.tokens.length : Int) = a.tokens ∧ a.batch.blockSize = c.blockSize
  covered : ∀ id ∈ a.admitted,
    (c.sequence id).length + 1 ≤ (c'.sequence id).table.length * c.blockSize
  detached : Detached c' a

namespace Packing

variable {c₀ : Cache}

theorem start (tallied : c.Tallied) (natural : 0 ≤ l.budget) :
    Packing l c c [] { batch := { blockSize := c.blockSize } } where
  tallied := tallied
  swapped := rfl
  blockSize := rfl
  knows _ := Iff.rfl
  others _ _ := rfl
  altered id := ⟨_, rfl⟩
  admitted := .slnil
  running _ member := (List.not_mem_nil member).elim
  rejected := rfl
  number n _ := Int.le_max_right n 0
  tokens := ⟨rfl, natural⟩
  batched := ⟨rfl, rfl⟩
  covered _ member := (List.not_mem_nil member).elim
  detached := ⟨List.nodup_nil, by simp, by simp, by simp, by simp⟩

theorem passed (packing : Packing l c₀ c seen a) (fits : l.exceeds c₀ id = false) :
    Packing l c₀ c (seen ++ [id]) a :=
  { packing with
    admitted := packing.admitted.trans (List.sublist_append_left _ _)
    rejected := by rw [packing.rejected]; simp [fits] }

theorem refused (packing : Packing l c₀ c seen a) (exceeds : l.exceeds c₀ id = true) :
    Packing l c₀ c (seen ++ [id]) { a with rejected := a.rejected ++ [id] } :=
  { packing with
    admitted := packing.admitted.trans (List.sublist_append_left _ _)
    rejected := by simp [packing.rejected, exceeds]
    detached := { packing.detached with } }

theorem took {c' : Cache} {a' : Assembly} (packing : Packing l c₀ c seen a) (took : Took c c' a a' id)
    (new : id ∉ a.admitted) (knows : c₀.Knows id) (away : c₀.isSwapped id = false)
    (runs : (c₀.sequence id).status = .running) (short : l.exceeds c₀ id = false)
    (room : l.haveRoom a.admitted = true)
    (fits : a.tokens + (c₀.sequence id).uncomputed ≤ l.budget) :
    Packing l c₀ c' (seen ++ [id]) a' := by
  obtain ⟨kept, taken, exchanged, copy, copied, copies⟩ := took.exchanged
  have same := packing.others id new
  have self := exchanged.replaced.self
  have tokens : a'.tokens = a.tokens + (c₀.sequence id).uncomputed := same ▸ took.tokens
  constructor
  case tallied => exact exchanged.tends'.1
  case swapped => exact exchanged.swapped.trans packing.swapped
  case blockSize => exact exchanged.replaced.blockSize.trans packing.blockSize
  case knows => exact fun other => (exchanged.replaced.knows_iff other).trans (packing.knows other)
  case others =>
    intro other absent
    rw [took.admitted] at absent
    obtain ⟨old, different⟩ := not_or.mp (mt List.mem_append.mpr absent)
    rw [exchanged.replaced.others other fun same => different (List.mem_singleton.mpr same)]
    exact packing.others other old
  case altered =>
    intro other
    by_cases own : other = id
    · rw [own, self, same]
      exact ⟨_, rfl⟩
    · rw [exchanged.replaced.others other own]
      exact packing.altered other
  case admitted =>
    rw [took.admitted]
    exact packing.admitted.append (List.Sublist.refl _)
  case running =>
    intro other member
    rw [took.admitted] at member
    rcases List.mem_append.mp member with old | fresh
    · exact packing.running other old
    · rw [List.mem_singleton.mp fresh]
      exact ⟨knows, away, runs⟩
  case rejected => simp [took.rejected, packing.rejected, short]
  case number =>
    intro n some
    simp only [Limits.haveRoom, some, decide_eq_true_eq] at room
    rw [took.admitted, List.length_append, List.length_singleton]
    omega
  case tokens =>
    rw [tokens, took.admitted, claim, List.map_append, total_append]
    exact ⟨by rw [packing.tokens.1]; simp [claim], fits⟩
  case batched =>
    rw [took.listed, took.tokens, took.blockSize, packing.batched.1]
    exact ⟨rfl, packing.batched.2⟩
  case covered =>
    intro other member
    rw [took.admitted] at member
    rcases List.mem_append.mp member with old | fresh
    · rw [exchanged.replaced.others other fun same => new (same ▸ old)]
      exact packing.covered other old
    · rw [List.mem_singleton.mp fresh, ← same, ← packing.blockSize]
      exact_mod_cast took.covers
  -- the sequence was not admitted before, so its own copy is the only one that is new
  case detached => exact packing.detached.taken new exchanged copied copies took.admitted

theorem consider (packing : Packing l c₀ c seen a) (new : id ∉ seen) (knows : c₀.Knows id)
    (ready : Ready c₀ id) :
    (consider l a id).Returns c fun a' c' => Packing l c₀ c' (seen ++ [id]) a' := by
  have same := packing.others id fun member => new (packing.admitted.subset member)
  simp only [Assembly.consider, Action.returns_bind, Action.returns_get, same]
  split
  · rename_i idle
    exact Action.returns_pure.mpr (packing.passed (by simp [Limits.exceeds, idle]))
  · rename_i runs
    have runs := not_not.mp runs
    split
    · rename_i long
      exact Action.returns_pure.mpr (packing.refused (by simp [Limits.exceeds, runs, long]))
    · rename_i short
      have passed : (pure a : Action Cache Assembly).Returns c fun a' c' =>
          Packing l c₀ c' (seen ++ [id]) a' :=
        Action.returns_pure.mpr (packing.passed (by simp [Limits.exceeds, short]))
      split
      · exact passed
      · rename_i room
        split
        · exact passed
        · rename_i fits
          split
          · exact passed
          · rename_i enough
            obtain ⟨away, natural, processed⟩ := ready runs
            have tends : Cache.Tends id c := ⟨packing.tallied, (packing.knows id).mpr knows,
              (Cache.isSwapped_congr packing.swapped id).trans away⟩
            have size : a.batch.blockSize = c.blockSize :=
              packing.batched.2.trans packing.blockSize.symm
            refine (takeIn_took tends (same ▸ natural) (same ▸ processed) size
              (by simpa [same] using enough)).weaken fun a' c' took => ?_
            exact packing.took took (fun member => new (packing.admitted.subset member)) knows away runs
              (by simp [Limits.exceeds, short]) (by simpa using room) (Int.not_lt.mp fits)

theorem considerAll (ids : List SeqId) :
    ∀ {c : Cache} {seen : List SeqId} {a : Assembly}, Packing l c₀ c seen a → (seen ++ ids).Nodup →
      (∀ id ∈ ids, c₀.Knows id ∧ Ready c₀ id) →
      (ids.foldlM (Assembly.consider l) a).Returns c fun a' c' => Packing l c₀ c' (seen ++ ids) a' := by
  induction ids with
  | nil =>
      intro c seen a packing _ _
      simpa using packing
  | cons id rest ih =>
      intro c seen a packing distinct ready
      have new : id ∉ seen := fun member =>
        (List.nodup_append.mp distinct).2.2 id member id List.mem_cons_self rfl
      obtain ⟨knows, ready'⟩ := ready id List.mem_cons_self
      rw [List.foldlM_cons, Action.returns_bind]
      refine (packing.consider new knows ready').weaken fun a' c' packing' => ?_
      have rest := ih packing' (by simpa using distinct) fun other member =>
        ready other (List.mem_cons_of_mem _ member)
      simpa using rest

theorem reported (packing : Packing l c₀ c seen a) (journal : Logging.Journal) :
    Packing l c₀ { c with journal } seen a :=
  { packing with
    tallied := { packing.tallied with shelved := { packing.tallied.shelved with } }
    detached := { packing.detached with } }

end Packing

/-- What building from candidates leaves, in a cache that was `c` before. -/
structure Built (l : Limits) (candidates : List SeqId) (c c' : Cache) (a : Assembly) : Prop where
  chosen : ∀ id ∈ a.admitted, id ∈ candidates ∧ (c.sequence id).status = .running
  ordered : a.admitted.Pairwise fun x y => (c.sequence x).precedes (c.sequence y) = true
  number : ∀ n, l.maxSequences = some n → (a.admitted.length : Int) ≤ max n 0
  budget : total (a.admitted.map fun id => (c.sequence id).uncomputed) ≤ l.budget
  batched : a.batch.tokens.length = total (a.admitted.map fun id => (c.sequence id).uncomputed)
  covered : ∀ id ∈ a.admitted,
    (c.sequence id).length + 1 ≤ (c'.sequence id).table.length * c.blockSize
  rejected : a.rejected.Perm (candidates.filter fun id =>
    (c.sequence id).status = .running && l.maxLength ≤ (c.sequence id).length)
  others : ∀ id, id ∉ a.admitted → c'.sequence id = c.sequence id
  altered : ∀ id, ∃ table, c'.sequence id = { c.sequence id with table }
  distinct : (a.batch.copies.map (·.2)).Nodup
  placed : ∀ copy ∈ a.batch.copies, ∃! id, id ∈ a.admitted ∧ copy.2 ∈ (c'.sequence id).table
  unread : ∀ copy ∈ a.batch.copies, ∀ other ∈ a.batch.copies, copy.2 ≠ other.1
  anyOrder : ∀ (m : Memory) (copies : List (Int × Int)), copies.Perm a.batch.copies →
    copies.foldl (Memory.copy a.batch.blockSize) m =
      a.batch.copies.foldl (Memory.copy a.batch.blockSize) m

theorem Packing.built {candidates : List SeqId}
    (packing : Packing l c c' (prioritised c candidates) a)
    (ordered : Ordered c (prioritised c candidates)) : Built l candidates c c' a := by
  have perm := Scheduler.prioritised_perm c candidates
  have positive : 0 < a.batch.blockSize := by
    rw [packing.batched.2]
    exact c.blockSize_pos
  constructor
  case chosen => exact fun id member =>
    ⟨perm.mem_iff.mp (packing.admitted.subset member), (packing.running id member).2.2⟩
  case ordered => exact ordered.sublist packing.admitted
  case number => exact packing.number
  case budget =>
    rw [← claim, ← packing.tokens.1]
    exact packing.tokens.2
  case batched => exact packing.batched.1.trans packing.tokens.1
  case covered => exact packing.covered
  case rejected =>
    rw [packing.rejected]
    exact perm.filter _
  case others => exact packing.others
  case altered => exact packing.altered
  case distinct => exact packing.detached.distinct
  case placed =>
    intro copy member
    have known : ∀ id ∈ a.admitted, c'.Knows id ∧ c'.isSwapped id = false := fun id among =>
      ⟨(packing.knows id).mpr (packing.running id among).1,
        (Cache.isSwapped_congr packing.swapped id).trans (packing.running id among).2.1⟩
    obtain ⟨id, among, inside⟩ := packing.detached.placed copy member
    refine ⟨id, ⟨among, inside⟩, ?_⟩
    rintro other ⟨among', inside'⟩
    exact Cache.table_unique (packing.detached.alone copy member) (known id among).1
      (known other among').1 (known id among).2 (known other among').2 inside inside'
  case unread => exact packing.detached.unread
  case anyOrder => exact fun m copies same =>
    Memory.foldl_copy_perm positive packing.detached.distinct packing.detached.unread same m

/-- In every state that a cache reaches, a batch is built from whatever different candidates there are,
    within its limits. It changes nothing but the tables of the sequences that take part, and the copies
    that it asks for can be made in any order. -/
theorem build_respects {created : Cache} {deviceBlocks blockSize hostBlocks : Int} {sharing : Bool}
    (creation : Cache.create deviceBlocks blockSize hostBlocks sharing = .ok created)
    (operated : Cache.Operated created c) (natural : 0 ≤ l.budget) {candidates : List SeqId}
    (different : candidates.Nodup) (known : ∀ id ∈ candidates, c.Knows id)
    (ready : ∀ id ∈ candidates, Ready c id) :
    (build l candidates).Returns c fun a c' => Built l candidates c c' a := by
  have tallied := operated.tallied (Cache.tallied_of_created creation)
  have ordered := prioritised_ordered (operated.numbered creation) different known
  have perm := Scheduler.prioritised_perm c candidates
  simp only [build, Action.returns_bind, Action.returns_get]
  refine ((Packing.start tallied natural).considerAll (prioritised c candidates) ?_ ?_).weaken ?_
  · simpa using perm.nodup_iff.mpr different
  · exact fun id member => ⟨known id (perm.mem_iff.mp member), ready id (perm.mem_iff.mp member)⟩
  · intro a c' packing
    rw [List.nil_append] at packing
    split
    · simp only [Action.returns_bind, Cache.returns_report, Action.returns_pure]
      exact (packing.reported _).built ordered
    · exact Action.returns_pure.mpr (packing.built ordered)

/-- A sequence and its fork share the block that they write to next. The sequence copies it, and the
    fork has it to itself then. -/
theorem build_respects_forked : ∃ c, Cache.Operated Cache.sixBlocks c ∧
    (build { budget := 2, maxLength := 8, maxSequences := some 2 } [1, 0]).Returns c fun a c' =>
      Built { budget := 2, maxLength := 8, maxSequences := some 2 } [1, 0] c c' a ∧
        a.admitted = [0, 1] ∧ a.batch.copies = [(1, 2)] := by
  let draft : Draft := { prompt := [1, 2, 3], blockSize := 2 }
  have created : Cache.Operated Cache.sixBlocks Cache.sixBlocks := .start
  have covered := (created.next (.create draft) trivial).next (.allocate 0) (by decide +kernel)
  have forked := (covered.next (.create draft) trivial).next (.fork 0 1) (by decide +kernel)
  have marked := (forked.next (.mark 0 .running 2) (by decide +kernel)).next (.mark 1 .running 2)
    (by decide +kernel)
  obtain ⟨c, reached, known, ready, a, c', built, shown⟩ : ∃ c, Cache.Operated Cache.sixBlocks c ∧
      (∀ id ∈ [1, 0], c.Knows id) ∧ (∀ id ∈ [1, 0], c.isSwapped id = false ∧
        0 ≤ (c.sequence id).computed ∧ (c.sequence id).computed ≤ (c.sequence id).length) ∧
      (build { budget := 2, maxLength := 8, maxSequences := some 2 } [1, 0]).Returns c fun a _ =>
        a.admitted = [0, 1] ∧ a.batch.copies = [(1, 2)] :=
    ⟨_, marked, by decide +kernel, by decide +kernel, by decide +kernel⟩
  have respects := (build_respects (by rfl : Cache.create 6 2 6 true = _) reached (by decide) (by decide)
    known fun id member _ => ready id member).of_run built
  exact ⟨c, reached, a, c', built, respects, shown⟩

end Assembly

end PagedServing
