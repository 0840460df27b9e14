import PagedServing.Proofs.Batch.Layout
import PagedServing.Proofs.Scheduler.Admission

/-! # Assembling a batch

A running sequence that takes part has a slot for every token that it has to process, and
for the one that the step will produce. None is too long to take part.
-/

namespace PagedServing.Scheduler

open Batch (Laid)

variable {s : Scheduler} {c c' : Cache} {a a' : Assembly} {id : SeqId} {slack : Prop}

/-- What has been packed so far, starting from the cache of `s`. -/
structure Packed (s : Scheduler) (c : Cache) (a : Assembly) (slack : Prop := False) : Prop where
  orderly : { s with cache := c }.Orderly [] a.admitted slack
  changes : s.cache.Changes c
  supplied : s.cache.Supplied c
  laid : Laid a.batch a.admitted c
  nodup : a.admitted.Nodup
  running : ∀ id ∈ a.admitted, id ∈ s.running
  rejected : a.rejected = []
  blockSize : a.batch.blockSize = c.blockSize
  copies : a.batch.copies = []

theorem grow_placed (sound : c.Sound) (knows : c.Knows id) (placed : c.Placed id 0 slack)
    (status : (c.sequence id).status = .running) (progressed : Cache.Progressed (c.sequence id))
    (enough : c.canAppend id ((c.sequence id).length + 1) = true) :
    (Cache.grow id ((c.sequence id).length + 1)).Returns c fun copy c' => copy = none ∧
      c.Handled c' id ∧ c.Changes c' ∧ c.Supplied c' ∧ c'.Placed id 1 slack ∧ ∃ blocks,
        c'.sequence id = { c.sequence id with table := (c.sequence id).table ++ blocks } ∧
        (blocks.length : Int) = c.growth id ((c.sequence id).length + 1) := by
  obtain ⟨device, table⟩ := placed.running status
  refine (Cache.grow_returns sound knows device enough).weaken ?_
  rintro copy c' ⟨sound', uncopied, blocks, grown, count⟩
  have self := grown.replaced.self
  have handled : c.Handled c' id := .of_grown sound' grown
  have device' : c'.isSwapped id = false := (Cache.isSwapped_congr grown.swapped id).trans device
  have capacity := table.length_le_capacity
  have size : (c.sequence id).blockSize = c.blockSize := sound.filed.sized id knows
  refine ⟨uncopied, handled, .single (.grown grown ?_), grown.supplied,
    ⟨fun _ => ⟨device', ?_⟩, ?_, ?_⟩, _, self, count⟩
  · rw [size] at capacity
    exact progressed.computed.trans (Int.ofNat_le.mpr capacity)
  · have needed := blocksFor_eq sound.filed knows ((c.sequence id).length + 1)
    have most := table.most
    rw [Cache.growth_eq sound] at count
    push_cast at needed
    rw [needed] at count
    have total : (c.sequence id).table.length + blocks.length =
        (c.sequence id).blocksFor ((c.sequence id).length + 1) := by
      omega
    refine Or.inl ?_
    rw [self, List.length_append]
    exact total
  · exact fun swapped => by simp [device'] at swapped
  · rw [self]
    exact fun other => absurd status other

/-- One more sequence takes part. -/
structure TakenIn (c c' : Cache) (a a' : Assembly) (id : SeqId) : Prop where
  handled : c.Handled c' id
  status : (c.sequence id).status = .running
  self : ∃ more, c'.sequence id = { c.sequence id with table := (c.sequence id).table ++ more }
  admitted : a'.admitted = a.admitted ++ [id]
  tokens : a'.tokens = a.tokens + (c.sequence id).uncomputed
  free : (c.device.freeCount : Int) ≤
    c'.device.freeCount + c.growth id ((c.sequence id).length + 1)

theorem takeIn_returns (packed : s.Packed c a slack) (member : id ∈ s.running) (new : id ∉ a.admitted)
    (enough : c.canAppend id ((c.sequence id).length + 1) = true) :
    (a.takeIn id).Returns c fun a' c' => s.Packed c' a' slack ∧ TakenIn c c' a a' id := by
  obtain ⟨knows, status⟩ := packed.orderly.lined.running id member
  have placed := packed.orderly.staged.placed id knows List.not_mem_nil
  rw [if_neg new] at placed
  have progressed := packed.orderly.staged.progressed id knows
  have registered : id ∈ s.requests.values := packed.orderly.mem_values .running member
  have short := packed.orderly.registered.short id registered List.not_mem_nil
  simp only [Assembly.takeIn, Action.returns_bind, Cache.returns_look]
  refine (grow_placed packed.orderly.sound knows placed status progressed enough).weaken ?_
  rintro copy c' ⟨rfl, handled, changes, supplied, placed', blocks, self, count⟩
  have status' : (c'.sequence id).status = .running := by
    rw [self]
    exact status
  have progressed' : Cache.Progressed (c'.sequence id) := by
    rw [self]
    exact ⟨progressed.natural, progressed.computed, progressed.untouched⟩
  obtain ⟨device', table'⟩ := placed'.running status'
  have capacity := table'.length_le_capacity
  -- a table that grows takes the new blocks from the free ones, and no others
  have free : c.device.freeCount ≤ c'.device.freeCount + blocks.length := by
    refine Handled.freeCount_le packed.orderly.sound handled fun b among => ?_
    rw [Cache.deviceTable_of_device device', self] at among
    rw [Cache.deviceTable_of_device (placed.running status).1]
    exact List.mem_append.mp among
  have size : a.batch.blockSize = (c'.sequence id).blockSize :=
    (packed.blockSize.trans handled.blockSize.symm).trans
      (handled.sound.filed.sized id handled.knows').symm
  obtain ⟨batch, added, laid, blockSize, copies⟩ :=
    ((packed.laid.handled handled new).copying (a.batch.copies ++ none.toList)).add
      (handled.sound.filed.numbered id handled.knows') size progressed' (by omega)
  simp only [Action.returns_ofExcept, added, Except.ok.injEq, exists_eq_left', Action.returns_pure]
  constructor
  · constructor
    case orderly =>
      refine packed.orderly.kept registered handled ⟨rfl, rfl, fun _ => rfl⟩
        (fun other different => ?_) (status'.trans status.symm) (fun _ => device') progressed' ?_ ?_
      · simp [different]
      · simpa using placed'
      · rw [show ({ s with cache := c' } : Scheduler).cache.sequence id = c'.sequence id from rfl, self]
        exact short
    case changes => exact packed.changes.trans changes
    case supplied => exact packed.supplied.trans supplied
    case laid => exact laid
    case nodup => exact packed.nodup.append (List.nodup_singleton id) (by simpa using new)
    case running =>
      intro other among
      rcases List.mem_append.mp among with old | same
      · exact packed.running other old
      · exact List.mem_singleton.mp same ▸ member
    case rejected => exact packed.rejected
    case blockSize => exact blockSize.trans (packed.blockSize.trans handled.blockSize.symm)
    case copies => simp [copies, packed.copies]
  · have uncomputed : (c'.sequence id).uncomputed = (c.sequence id).uncomputed := by
      rw [self]
      rfl
    have count : (blocks.length : Int) = c.growth id ((c.sequence id).length + 1) := count
    exact ⟨handled, status, ⟨_, self⟩, rfl, congrArg (a.tokens + ·) uncomputed, by omega⟩

/-- What is left of the limits of a batch, and the free blocks, suffice for all of `ids`. -/
structure Fits (s : Scheduler) (c : Cache) (a : Assembly) (ids : List SeqId) : Prop where
  sequences : a.admitted.length + ids.length ≤ s.config.maxSequences
  tokens : a.tokens + total (ids.map fun id => (c.sequence id).uncomputed) ≤
    s.config.maxBatchedTokens
  blocks : total (ids.map fun id => c.growth id ((c.sequence id).length + 1)) ≤ c.device.freeCount

theorem uncomputed_nonneg {q : Sequence} (progressed : Cache.Progressed q) : 0 ≤ q.uncomputed :=
  Int.sub_nonneg_of_le progressed.computed

/-- The others still fit after one that fitted with them was taken in. -/
theorem Fits.rest {rest : List SeqId} (fits : s.Fits c a (id :: rest)) (sound : c.Sound)
    (taken : TakenIn c c' a a' id) (absent : id ∉ rest) : s.Fits c' a' rest := by
  obtain ⟨sequences, tokens, blocks⟩ := fits
  have claimed : rest.map (fun other => (c'.sequence other).uncomputed) =
      rest.map fun other => (c.sequence other).uncomputed := by
    refine List.map_congr_left fun other among => ?_
    rw [taken.handled.others other fun same => absent (same ▸ among)]
  have needed := Handled.growth_next sound taken.handled absent
  have free := taken.free
  simp only [List.map_cons, total_cons, List.length_cons] at sequences tokens blocks
  constructor
  · rw [taken.admitted, List.length_append, List.length_singleton]
    omega
  · rw [taken.tokens, claimed]
    omega
  · rw [needed]
    omega

/-- A running sequence that was not considered yet is taken in, or left out because there is
    no room for it. -/
theorem consider_returns (packed : s.Packed c a slack) (member : id ∈ s.running) (new : id ∉ a.admitted) :
    (Assembly.consider s.limits a id).Returns c fun a' c' => s.Packed c' a' slack ∧
      (TakenIn c c' a a' id ∨ c' = c ∧ a' = a ∧
        ∀ rest, (∀ other ∈ rest, other ∈ s.running) → ¬ s.Fits c a (id :: rest)) := by
  obtain ⟨_, status⟩ := packed.orderly.lined.running id member
  have status : (c.sequence id).status = .running := status
  have registered : id ∈ s.requests.values := packed.orderly.mem_values .running member
  have short : (c.sequence id).length < s.config.maxLength :=
    packed.orderly.registered.short id registered List.not_mem_nil
  have reach : ¬ s.limits.maxLength ≤ ((c.sequence id).length : Int) := by
    simp only [limits]
    omega
  have leftOut : (∀ rest, (∀ other ∈ rest, other ∈ s.running) → ¬ s.Fits c a (id :: rest)) →
      (pure a : Action Cache Assembly).Returns c fun a' c' => s.Packed c' a' slack ∧
        (TakenIn c c' a a' id ∨ c' = c ∧ a' = a ∧
          ∀ rest, (∀ other ∈ rest, other ∈ s.running) → ¬ s.Fits c a (id :: rest)) :=
    fun none => Action.returns_pure.mpr ⟨packed, Or.inr ⟨rfl, rfl, none⟩⟩
  simp only [Assembly.consider, Action.returns_bind, Action.returns_get, status, reach, ne_eq,
    not_true, if_false]
  split
  · rename_i full
    refine leftOut fun rest _ fits => ?_
    have room := fits.sequences
    simp only [Assembly.Limits.haveRoom, limits, Bool.not_eq_true', decide_eq_false_iff_not,
      List.length_cons] at full room
    omega
  · split
    · rename_i beyond
      refine leftOut fun rest running fits => ?_
      have budget := fits.tokens
      have natural : 0 ≤ total (rest.map fun other => (c.sequence other).uncomputed) := by
        refine total_map_nonneg fun other later => ?_
        have knows := (packed.orderly.lined.running other (running other later)).1
        exact uncomputed_nonneg (packed.orderly.staged.progressed other knows)
      simp only [limits, List.map_cons, total_cons] at beyond budget
      omega
    · split
      · rename_i scarce
        refine leftOut fun rest _ fits => ?_
        have room := fits.blocks
        have natural : 0 ≤ total (rest.map fun other => c.growth other ((c.sequence other).length + 1)) :=
          total_map_nonneg fun other _ => growth_nonneg c other _
        simp only [Cache.canAppend, Bool.not_eq_true', decide_eq_false_iff_not, List.map_cons,
          total_cons] at scarce room
        omega
      · rename_i enough
        have enough : c.canAppend id ((c.sequence id).length + 1) = true := by simpa using enough
        refine (takeIn_returns packed member new enough).weaken ?_
        rintro a' c' ⟨packed', taken⟩
        exact ⟨packed', Or.inl taken⟩

/-- What considering running sequences does to them: their tables may grow. -/
def Enlarged (c c' : Cache) : Prop :=
  ∀ id, c'.sequence id = c.sequence id ∨ (c.sequence id).status = .running ∧
    ∃ more, c'.sequence id = { c.sequence id with table := (c.sequence id).table ++ more }

theorem Enlarged.refl (c : Cache) : Enlarged c c :=
  fun _ => Or.inl rfl

theorem Enlarged.trans {c'' : Cache} (first : Enlarged c c') (second : Enlarged c' c'') :
    Enlarged c c'' := by
  intro id
  rcases first id with same | ⟨status, more, self⟩
  · have second := second id
    rw [same] at second
    exact second
  · right
    rcases second id with same' | ⟨_, more', self'⟩
    · exact ⟨status, more, same'.trans self⟩
    · rw [self] at self'
      refine ⟨status, more ++ more', self'.trans ?_⟩
      simp only [List.append_assoc]

theorem TakenIn.enlarged (taken : TakenIn c c' a a' id) : Enlarged c c' := by
  intro other
  by_cases same : other = id
  · exact Or.inr (same ▸ ⟨taken.status, taken.self⟩)
  · exact Or.inl (taken.handled.others other same)

theorem considerAll_returns (ids : List SeqId) :
    ∀ {c : Cache} {a : Assembly}, s.Packed c a slack → ids.Nodup → (∀ id ∈ ids, id ∈ s.running) →
      (∀ id ∈ ids, id ∉ a.admitted) →
      (ids.foldlM (Assembly.consider s.limits) a).Returns c fun a' c' => s.Packed c' a' slack ∧
        Enlarged c c' ∧ (s.Fits c a ids → a'.admitted = a.admitted ++ ids) := by
  induction ids with
  | nil =>
      intro c a packed _ _ _
      simpa using ⟨packed, Enlarged.refl c⟩
  | cons id rest ih =>
      intro c a packed distinct running new
      obtain ⟨absent, distinct⟩ := List.nodup_cons.mp distinct
      have running' : ∀ other ∈ rest, other ∈ s.running := fun other member =>
        running other (List.mem_cons_of_mem _ member)
      rw [List.foldlM_cons, Action.returns_bind]
      refine (consider_returns packed (running id List.mem_cons_self)
        (new id List.mem_cons_self)).weaken ?_
      rintro a' c' ⟨packed', taken | ⟨rfl, rfl, none⟩⟩
      · refine (ih packed' distinct running' fun other member admitted => ?_).weaken ?_
        · rw [taken.admitted] at admitted
          rcases List.mem_append.mp admitted with old | same
          · exact new other (List.mem_cons_of_mem _ member) old
          · exact absent (List.mem_singleton.mp same ▸ member)
        · rintro a'' c'' ⟨packed'', enlarged, all⟩
          refine ⟨packed'', taken.enlarged.trans enlarged, fun fits => ?_⟩
          rw [all (fits.rest packed.orderly.sound taken absent), taken.admitted, List.append_assoc]
          rfl
      · refine (ih packed' distinct running' fun other member =>
          new other (List.mem_cons_of_mem _ member)).weaken ?_
        rintro a'' c'' ⟨packed'', enlarged, _⟩
        exact ⟨packed'', enlarged, fun fits => absurd fits (none rest running')⟩

theorem rank_perm (c : Cache) (id : SeqId) (ids : List SeqId) :
    (Assembly.rank c id ids).Perm (id :: ids) := by
  induction ids with
  | nil => exact .refl _
  | cons other rest ih =>
      unfold Assembly.rank
      split
      · exact (ih.cons other).trans (.swap id other rest)
      · exact .refl _

theorem prioritised_perm (c : Cache) (ids : List SeqId) :
    (Assembly.prioritised c ids).Perm ids := by
  induction ids with
  | nil => exact .refl _
  | cons id rest ih => exact (rank_perm c id _).trans (ih.cons id)

theorem Roomy.fits (roomy : s.Roomy) {ids : List SeqId} (perm : ids.Perm s.running) (batch : Batch) :
    s.Fits s.cache { batch } ids where
  sequences := by
    rw [perm.length_eq]
    simpa using roomy.sequences
  tokens := by
    rw [total_perm (perm.map _)]
    simpa using roomy.tokens
  blocks := by
    rw [total_perm (perm.map _)]
    exact roomy.blocks

theorem build_returns (orderly : s.Orderly [] [] slack) :
    (Assembly.build s.limits s.running).Returns s.cache fun a c => s.Packed c a slack ∧
      Enlarged s.cache c ∧ (s.Roomy → a.admitted = Assembly.prioritised s.cache s.running) := by
  have start : s.Packed s.cache { batch := { blockSize := s.cache.blockSize } } slack :=
    ⟨orderly, .refl, .refl s.cache, .empty _ s.cache, List.nodup_nil, by simp, rfl, rfl, rfl⟩
  have perm := prioritised_perm s.cache s.running
  simp only [Assembly.build, Action.returns_bind, Action.returns_get]
  refine (considerAll_returns _ start (perm.nodup_iff.mpr (orderly.lined.nodup .running))
    (fun id member => perm.mem_iff.mp member) fun _ _ => List.not_mem_nil).weaken ?_
  rintro a c ⟨packed, enlarged, all⟩
  have all : s.Roomy → a.admitted = Assembly.prioritised s.cache s.running :=
    fun roomy => all (roomy.fits perm _)
  split
  · simp only [Action.returns_bind, Cache.returns_report, Action.returns_pure]
    exact ⟨⟨packed.orderly.reported _, packed.changes.tail (.reported c _),
      packed.supplied.trans (.of_device rfl rfl), packed.laid.congr fun _ _ => rfl, packed.nodup,
      packed.running, packed.rejected, packed.blockSize, packed.copies⟩, enlarged, all⟩
  · exact Action.returns_pure.mpr ⟨packed, enlarged, all⟩

end PagedServing.Scheduler
