import PagedServing.Proofs.Cache.Allocation
import PagedServing.Proofs.Cache.Content
import PagedServing.Proofs.Cache.Release
import PagedServing.Proofs.Cache.Swapping
import PagedServing.Proofs.Pool.Operations

/-! # References are counted right

Whatever is done with the blocks of sequences, and whether it returns or meets a fault half way, the
references of both pools agree with the block tables afterwards. This asks nothing of the tokens of
sequences and of how much of them counts as computed. So blocks may be shared, forked, copied before
a write, and swapped while others hold them.
-/

namespace PagedServing

/-- Whether a block was freed that was not allocated. -/
def Fault.IsFreeing : Fault → Prop
  | freeingUnallocated _ => True
  | _ => False

namespace Pool

variable {p q : Pool} {held : Int → Nat}

/-- Every block that is found under a hash is one of the pool. -/
def Findable (p : Pool) : Prop :=
  ∀ h b, p.registry.get? h = some b → p.Has b

theorem Findable.of_agrees (findable : p.Findable) (agrees : p.Agrees q) : q.Findable := by
  intro h b found
  rw [agrees.registry] at found
  exact (has_congr agrees.size).mpr (findable h b found)

theorem Findable.of_renewed (findable : p.Findable) {ids : List Int} (renewed : p.Renewed q ids) :
    q.Findable := fun h b found =>
  (has_congr renewed.size).mpr (findable h b ((renewed.registry h b).mp found).1)

theorem Findable.of_registered (findable : p.Findable) {b h : Int} (registered : p.Registered q b h)
    (has : p.Has b) : q.Findable := by
  intro h' b' found
  rw [registered.registry] at found
  split at found
  · cases found
    exact (has_congr registered.size).mpr has
  · exact (has_congr registered.size).mpr (findable h' b' found)

theorem allocate_yields (balanced : p.Balanced held) (n : Int) : (allocate n).Yields p
    (fun ids q => q.Balanced (fun b => held b + ids.count b) ∧ p.Renewed q ids ∧ ids.length = n.toNat)
    fun fault q => q = p ∧ ¬ fault.IsFreeing := by
  refine (allocate_decides balanced n).weaken ?_ ?_
  · rintro ids q ⟨⟨natural, -⟩, -, length, balanced', renewed⟩
    exact ⟨balanced', renewed, by omega⟩
  · rintro _ q ⟨same, ⟨-, rfl⟩ | ⟨-, -, rfl⟩⟩
    · exact ⟨same, not_false⟩
    · exact ⟨same, not_false⟩

theorem allocateOne_yields (balanced : p.Balanced held) : allocateOne.Yields p
    (fun id q => q.Balanced (fun b => held b + [id].count b) ∧ p.Renewed q [id])
    fun fault q => q = p ∧ ¬ fault.IsFreeing := by
  by_cases enough : 0 < p.freeCount
  · refine ((allocateOne_returns balanced enough).weaken ?_).yields
    rintro id q ⟨balanced', renewed, -⟩
    exact ⟨balanced', renewed⟩
  · have none : p.free = [] := List.length_eq_zero_iff.mp (Nat.eq_zero_of_not_pos enough)
    simp [allocateOne, none, Fault.IsFreeing]

theorem share_returns {ids : List Int} (balanced : p.Balanced held) (holders : ∀ b ∈ ids, 0 < held b) :
    (share ids).Returns p fun _ q => q.Balanced (fun b => held b + ids.count b) ∧ p.Agrees q := by
  induction ids generalizing p held with
  | nil => exact ⟨⟨⟩, p, rfl, balanced, .refl p⟩
  | cons id ids ih =>
      simp only [share, Action.returns_forM_cons]
      refine (shareOne_returns balanced (holders id List.mem_cons_self)).weaken ?_
      rintro _ q ⟨balanced', agrees, -⟩
      refine (ih balanced' fun b among => ?_).weaken ?_
      · exact Nat.add_pos_left (holders b (List.mem_cons_of_mem id among)) _
      · rintro _ r ⟨balanced'', agrees'⟩
        refine ⟨balanced''.congr fun b => ?_, agrees.trans agrees'⟩
        rw [List.count_cons, List.count_singleton]
        omega

end Pool

namespace Cache

variable {c c' : Cache} {id : SeqId} {q : Sequence}

/-- Known sequences are swapped out, each once, and each with blocks. -/
structure Shelved (c : Cache) : Prop where
  nodup : c.swapped.Nodup
  known : ∀ id ∈ c.swapped, c.Knows id
  host : ∀ id ∈ c.swapped, c.host.isSome
  filled : ∀ id ∈ c.swapped, (c.sequence id).table ≠ []

/-- The references of both pools agree with the block tables. -/
structure Tallied (c : Cache) : Prop where
  device : c.device.Balanced c.deviceHolders
  host : ∀ p, c.host = some p → p.Balanced c.hostHolders
  findable : c.device.Findable
  shelved : c.Shelved

theorem count_table_le_deviceHolders (knows : c.Knows id) (away : c.isSwapped id = false) (b : Int) :
    (c.sequence id).table.count b ≤ c.deviceHolders b := by
  rw [← deviceTable_of_device away]
  exact count_le_deviceHolders knows b

theorem count_table_le_hostHolders (knows : c.Knows id) (swapped : c.isSwapped id = true) (b : Int) :
    (c.sequence id).table.count b ≤ c.hostHolders b := by
  rw [← hostTable_of_swapped swapped]
  exact count_le_hostHolders knows b

theorem Shelved.replaced (shelved : c.Shelved) (replaced : c.Replaced c' id q)
    (swapped : c'.swapped = c.swapped) (host : c.host.isSome → c'.host.isSome)
    (filled : c.isSwapped id = true → q.table ≠ []) : c'.Shelved := by
  refine ⟨swapped ▸ shelved.nodup, ?_, ?_, ?_⟩ <;> intro other member <;> rw [swapped] at member
  · exact (replaced.knows_iff other).mpr (shelved.known other member)
  · exact host (shelved.host other member)
  · by_cases own : other = id
    · subst own
      rw [replaced.self]
      exact filled (by simpa [isSwapped] using member)
    · rw [replaced.others other own]
      exact shelved.filled other member

theorem Shelved.out (shelved : c.Shelved) (replaced : c.Replaced c' id q)
    (swapped : c'.swapped = c.swapped.insert id) (host : c'.host.isSome) (filled : q.table ≠ []) :
    c'.Shelved := by
  have member : ∀ {other}, other ∈ c'.swapped → other = id ∨ other ∈ c.swapped := fun among =>
    List.mem_insert_iff.mp (swapped ▸ among)
  refine ⟨swapped ▸ shelved.nodup.insert, fun other among => ?_, fun _ _ => host, fun other among => ?_⟩
  · refine (replaced.knows_iff other).mpr ?_
    rcases member among with rfl | among
    · exact replaced.knows
    · exact shelved.known other among
  · by_cases own : other = id
    · rwa [own, replaced.self]
    · rw [replaced.others other own]
      exact shelved.filled other ((member among).resolve_left own)

/-- A sequence is swapped out no more. -/
theorem Shelved.back (shelved : c.Shelved) (replaced : c.Replaced c' id q)
    (swapped : c'.swapped = c.swapped.erase id) (host : c'.host.isSome) : c'.Shelved := by
  have member : ∀ {other}, other ∈ c'.swapped → other ≠ id ∧ other ∈ c.swapped := fun among =>
    shelved.nodup.mem_erase_iff.mp (swapped ▸ among)
  refine ⟨swapped ▸ shelved.nodup.erase id, fun other among => ?_, fun _ _ => host, fun other among => ?_⟩
  · exact (replaced.knows_iff other).mpr (shelved.known other (member among).2)
  · rw [replaced.others other (member among).1]
    exact shelved.filled other (member among).2

theorem Replaced.tallied (replaced : c.Replaced c' id q)
    (others : ∀ other, other ≠ id → c'.isSwapped other = c.isSwapped other)
    (device : c'.device.Balanced fun b =>
      c.deviceHolders b - (c.deviceTable id).count b + (c'.deviceTable id).count b)
    (host : ∀ p, c'.host = some p → p.Balanced fun b =>
      c.hostHolders b - (c.hostTable id).count b + (c'.hostTable id).count b)
    (findable : c'.device.Findable) (shelved : c'.Shelved) : c'.Tallied := by
  refine ⟨device.congr fun b => ?_, fun p found => (host p found).congr fun b => ?_, findable, shelved⟩
  · have change := deviceHolders_replaced replaced others b
    have part := count_le_deviceHolders replaced.knows b
    omega
  · have change := hostHolders_replaced replaced others b
    have part := count_le_hostHolders replaced.knows b
    omega

theorem Tallied.retabled (tallied : c.Tallied) (replaced : c.Replaced c' id q)
    (away : c.isSwapped id = false) (swapped : c'.swapped = c.swapped) (host : c'.host = c.host)
    (findable : c'.device.Findable)
    (device : c'.device.Balanced fun b =>
      c.deviceHolders b - (c.sequence id).table.count b + q.table.count b) : c'.Tallied := by
  have away' : c'.isSwapped id = false := (isSwapped_congr swapped id).trans away
  refine replaced.tallied (fun other _ => isSwapped_congr swapped other) ?_ (fun p found => ?_)
    findable (tallied.shelved.replaced replaced swapped (fun some => host ▸ some) fun shelved => ?_)
  · rwa [deviceTable_of_device away, deviceTable_of_device away', replaced.self]
  · rw [hostTable_of_device away, hostTable_of_device away']
    exact (tallied.host p (host ▸ found)).congr fun b => rfl
  · rw [away] at shelved
    cases shelved

theorem Tallied.edited (tallied : c.Tallied) (knows : c.Knows id) {f : Sequence → Sequence}
    (same : (f (c.sequence id)).table = (c.sequence id).table) :
    ({ c with sequences := c.sequences.update id f } : Cache).Tallied := by
  have replaced := replaced_edit knows f
  have device : ({ c with sequences := c.sequences.update id f } : Cache).deviceTable id =
      c.deviceTable id := by
    rw [Cache.deviceTable, Cache.deviceTable, replaced.self, same]
    rfl
  have host : ({ c with sequences := c.sequences.update id f } : Cache).hostTable id =
      c.hostTable id := by
    rw [Cache.hostTable, Cache.hostTable, replaced.self, same]
    rfl
  refine replaced.tallied (fun _ _ => rfl) (tallied.device.congr fun b => ?_)
    (fun p found => (tallied.host p found).congr fun b => ?_) tallied.findable
    (tallied.shelved.replaced replaced rfl (fun some => some) fun shelved => ?_)
  · have part := count_le_deviceHolders knows b
    rw [device]
    omega
  · have part := count_le_hostHolders knows b
    rw [host]
    omega
  · rw [same]
    exact tallied.shelved.filled id (by simpa [isSwapped] using shelved)

/-- References are counted right, and a known sequence is on the device. -/
def Tends (id : SeqId) (c : Cache) : Prop :=
  c.Tallied ∧ c.Knows id ∧ c.isSwapped id = false

section Tends

variable (tends : Tends id c) {p : Pool} {f : Sequence → Sequence}
include tends

/-- The sequence exchanges the last of its blocks for others. -/
theorem Tends.exchanged {kept given taken : List Int} (before : (c.sequence id).table = kept ++ given)
    (balanced : p.Balanced fun b => c.deviceHolders b - given.count b + taken.count b)
    (findable : p.Findable) (after : (f (c.sequence id)).table = kept ++ taken) :
    Tends id { c with device := p, sequences := c.sequences.update id f } := by
  obtain ⟨tallied, knows, away⟩ := tends
  have replaced := replaced_with knows p c.host c.swapped f
  refine ⟨tallied.retabled replaced away rfl rfl findable (balanced.congr fun b => ?_),
    (replaced.knows_iff id).mpr knows, away⟩
  have part := count_table_le_deviceHolders knows away b
  rw [before, List.count_append] at part
  rw [before, after, List.count_append, List.count_append]
  omega

theorem Tends.extended {ids : List Int}
    (balanced : p.Balanced fun b => c.deviceHolders b + ids.count b) (findable : p.Findable)
    (table : (f (c.sequence id)).table = (c.sequence id).table ++ ids) :
    Tends id { c with device := p, sequences := c.sequences.update id f } :=
  tends.exchanged (List.append_nil _).symm (balanced.congr fun _ => rfl) findable table

theorem Tends.relabelled (balanced : p.Balanced c.deviceHolders) (findable : p.Findable) :
    Tends id { c with device := p } := by
  obtain ⟨⟨_, host, _, shelved⟩, knows, away⟩ := tends
  exact ⟨⟨balanced, host, findable, shelved.nodup, shelved.known, shelved.host, shelved.filled⟩,
    knows, away⟩

end Tends

theorem yields_onHost {α : Type} {act : Action Pool α} {post : α → Cache → Prop}
    {escape : Fault → Cache → Prop} {p : Pool} (host : c.host = some p) :
    (onHost act).Yields c post escape ↔ act.Yields p (fun a p => post a { c with host := some p })
      fun fault p => escape fault { c with host := some p } := by
  simp only [Action.Yields, onHost, host, Action.within]
  cases act p <;> rfl

/-- Whatever comes of the action, references are counted right, and no block was freed that was not
    allocated. If it returns, then `post` holds of the cache. -/
def Counts {α : Type} (act : Action Cache α) (c : Cache) (post : Cache → Prop) : Prop :=
  act.Yields c (fun _ => post) fun fault c' => c'.Tallied ∧ ¬ fault.IsFreeing

theorem block_fault {index : Int} {fault : Fault} (failed : q.block index = .error fault) :
    ¬ fault.IsFreeing := by
  unfold Sequence.block at failed
  split at failed
  · cases failed
  · cases failed
    exact id

theorem blockHash_fault {before : Int} {tokens : List Int} {fault : Fault}
    (failed : blockHash before tokens = .error fault) : ¬ fault.IsFreeing := by
  unfold blockHash at failed
  split at failed
  · cases failed
  · cases failed
    exact id

/-- One block of a sequence is covered. -/
theorem coverBlock_counts (tends : Tends id c) (chain : Chain) (index : Nat) :
    Counts (coverBlock id chain index) c (Tends id) := by
  have tallied := tends.1
  simp only [Counts, coverBlock, look, Action.yields_bind, Action.yields_get, Action.yields_pure,
    Action.yields_ofExcept]
  refine ⟨fun tokens _ => ?_, fun fault failed => ⟨tallied, block_fault failed⟩⟩
  have hashed : (if tokens.length = c.blockSize then Action.ofExcept (blockHash chain.hash tokens)
      else pure noHash : Action Cache Int).Yields c (fun _ c' => c' = c)
        fun fault c' => c' = c ∧ ¬ fault.IsFreeing := by
    split
    · exact Action.yields_ofExcept.mpr ⟨fun _ _ => rfl, fun _ failed => ⟨rfl, blockHash_fault failed⟩⟩
    · exact rfl
  refine Action.yields_ite_bind.mpr (hashed.weaken ?_ ?_)
  · intro hash _ same
    rw [same]
    cases served : c.served? chain hash tokens with
    | none =>
        simp only [onDevice, edit, Action.yields_bind, Action.yields_within, Action.yields_modify,
          Action.yields_pure]
        refine (Pool.allocateOne_yields tallied.device).weaken ?_ ?_
        · rintro block p ⟨balanced, renewed⟩
          exact tends.extended balanced (tallied.findable.of_renewed renewed) rfl
        · rintro fault _ ⟨rfl, blameless⟩
          exact ⟨tallied, blameless⟩
    | some block =>
        have found := tallied.findable _ _ (registered_of_served served).2.2
        have joined : ∀ p : Pool, p.Balanced (fun b => c.deviceHolders b + [block].count b) →
            c.device.Agrees p → Tends id { c with
              device := p
              sequences := c.sequences.update id fun s => { s with table := s.table ++ [block] } } :=
          fun p balanced agrees => tends.extended balanced (tallied.findable.of_agrees agrees) rfl
        dsimp only
        split
        · rename_i used
          refine Action.Returns.yields ?_
          simp only [Action.returns_bind, returns_onDevice, returns_edit, Action.returns_pure]
          have shared := Pool.shareOne_returns tallied.device ((tallied.device.mem_used block).mp used)
          exact shared.weaken fun _ p result => joined p result.1 result.2.1
        · rename_i unused
          have free : c.deviceHolders block = 0 :=
            Nat.eq_zero_of_not_pos fun held => unused ((tallied.device.mem_used block).mpr held)
          refine Action.Returns.yields ?_
          simp only [Action.returns_bind, Action.returns_discard, returns_onDevice, returns_edit,
            Action.returns_pure]
          have revived := Pool.revive_returns tallied.device found free
          exact revived.weaken fun _ p result => joined p result.1 result.2.1
  · rintro fault _ ⟨rfl, blameless⟩
    exact ⟨tallied, blameless⟩

theorem allocateShared_counts (tends : Tends id c) : Counts (allocateShared id) c Tallied := by
  simp only [Counts, allocateShared, look, Action.yields_bind, Action.yields_get, Action.yields_pure]
  have covered : Counts ((List.range (c.sequence id).blockCount).foldlM (coverBlock id) {}) c (Tends id) :=
    Action.yields_foldlM (fun chain index _ tends => coverBlock_counts tends chain index) _ _ tends
  exact covered.weaken (fun _ _ tends => tends.1.edited tends.2.1 rfl) fun _ _ holds => holds

theorem lengthen_counts (tends : Tends id c) (count : Int) {f : List Int → Sequence → Sequence}
    (table : ∀ ids, (f ids (c.sequence id)).table = (c.sequence id).table ++ ids) :
    Counts (do
      let ids ← onDevice (Pool.allocate count)
      edit id (f ids)) c (Tends id) := by
  simp only [Counts, onDevice, edit, Action.yields_bind, Action.yields_within, Action.yields_modify]
  refine (Pool.allocate_yields tends.1.device _).weaken ?_ ?_
  · rintro ids p ⟨balanced, renewed, -⟩
    exact tends.extended balanced (tends.1.findable.of_renewed renewed) (table ids)
  · rintro fault _ ⟨rfl, blameless⟩
    exact ⟨tends.1, blameless⟩

theorem allocateFresh_counts (tends : Tends id c) : Counts (allocateFresh id) c Tallied := by
  rw [Counts, allocateFresh, look, Action.yields_bind]
  exact (lengthen_counts tends _ fun _ => rfl).weaken (fun _ _ tends => tends.1) fun _ _ holds => holds

theorem Tallied.tends_of_bare (tallied : c.Tallied) (knows : c.Knows id)
    (bare : (c.sequence id).table = []) : Tends id c := by
  refine ⟨tallied, knows, ?_⟩
  by_contra swapped
  exact tallied.shelved.filled id (by simpa [isSwapped] using swapped) bare

theorem allocate_counts (tallied : c.Tallied) (knows : c.Knows id) :
    Counts (allocate id) c Tallied := by
  simp only [Counts, allocate, Action.yields_bind, Action.yields_get, Action.yields_require]
  refine ⟨fun bare => ⟨fun _ => ?_, fun _ => ⟨tallied, not_false⟩⟩, fun _ => ⟨tallied, not_false⟩⟩
  have tends := tallied.tends_of_bare knows (List.isEmpty_iff.mp bare)
  split
  · exact allocateShared_counts tends
  · exact allocateFresh_counts tends

/-- The last block of a sequence is replaced by a private copy. -/
theorem copyLast_counts (tends : Tends id c) {source : Int}
    (last : (c.sequence id).table.getLast? = some source) :
    Counts (copyLast id source) c (Tends id) := by
  obtain ⟨tallied, knows, away⟩ := tends
  have table := List.dropLast_append_getLast? source last
  have held : ∀ b, [source].count b ≤ c.deviceHolders b := by
    intro b
    have part := count_table_le_deviceHolders knows away b
    rw [← table, List.count_append] at part
    exact (Nat.le_add_left _ _).trans part
  simp only [Counts, copyLast, onDevice, edit, Action.yields_bind, Action.yields_within,
    Action.yields_modify, Action.yields_pure]
  refine (Pool.allocateOne_yields tallied.device).weaken ?_ ?_
  · rintro target p ⟨balanced, renewed⟩
    have among : ∀ b, [source].count b ≤ c.deviceHolders b + [target].count b := fun b =>
      (held b).trans (Nat.le_add_right _ _)
    have freed := balanced.release among
    refine (freed.weaken ?_).yields
    rintro _ p' ⟨balanced', agrees⟩
    have exchanged : p'.Balanced fun b =>
        c.deviceHolders b - [source].count b + [target].count b := balanced'.congr fun b => by
      have := held b
      omega
    exact Tends.exchanged (c := c) ⟨tallied, knows, away⟩ table.symm exchanged
      ((tallied.findable.of_renewed renewed).of_agrees agrees) rfl
  · rintro fault _ ⟨rfl, blameless⟩
    exact ⟨tallied, blameless⟩

theorem supply_counts {α : Type} (tends : Tends id c) (missing : Int) (a : α) :
    Counts (do
      if 0 < missing then
        let blocks ← onDevice (Pool.allocate missing)
        edit id fun s => { s with table := s.table ++ blocks }
      return a) c Tallied := by
  unfold Counts
  split
  · have longer := lengthen_counts tends missing (f := fun ids s => { s with table := s.table ++ ids })
      fun _ => rfl
    simp only [Counts, Action.yields_bind, Action.yields_pure] at longer ⊢
    exact longer.weaken (fun _ _ edited => edited.weaken (fun _ _ tends => tends.1) fun _ _ holds => holds)
      fun _ _ holds => holds
  · exact tends.1

theorem grow_counts (tallied : c.Tallied) (knows : c.Knows id) (tokens : Int) :
    Counts (grow id tokens) c Tallied := by
  simp only [Counts, grow, Action.yields_bind, Action.yields_get, Action.yields_require]
  refine ⟨fun away => ⟨fun _ => ?_, fun _ => ⟨tallied, not_false⟩⟩, fun _ => ⟨tallied, not_false⟩⟩
  have tends : Tends id c := ⟨tallied, knows, by simpa using away⟩
  split
  · rename_i last found
    split
    · rw [Action.yields_bind, Action.yields_map]
      exact (copyLast_counts tends found).weaken (fun _ _ tends => supply_counts tends _ _)
        fun _ _ holds => holds
    · exact supply_counts tends _ _
  · exact supply_counts tends _ _

theorem fork_counts {parent child : SeqId} (tallied : c.Tallied) (known : c.Knows parent)
    (knows : c.Knows child) : Counts (fork parent child) c Tallied := by
  simp only [Counts, fork, onDevice, edit, Action.yields_bind, Action.yields_get, Action.yields_require,
    Action.yields_within, Action.yields_modify]
  refine ⟨fun away => ⟨fun bare => ?_, fun _ => ⟨tallied, not_false⟩⟩, fun _ => ⟨tallied, not_false⟩⟩
  have bare := List.isEmpty_iff.mp bare
  have away : c.isSwapped parent = false := by simpa using away
  have held : ∀ b ∈ (c.sequence parent).table, 0 < c.deviceHolders b := fun b member =>
    holders_pos_of_mem known (by rwa [deviceTable_of_device away])
  refine ((Pool.share_returns tallied.device held).weaken ?_).yields
  rintro _ p ⟨balanced, agrees⟩
  refine ((tallied.tends_of_bare knows bare).extended balanced (tallied.findable.of_agrees agrees) ?_).1
  rw [bare, List.nil_append]

theorem publishBlock_counts (tends : Tends id c) (before : Int) (index : Nat) :
    Counts (publishBlock id before index) c (Tends id) := by
  have tallied := tends.1
  simp only [Counts, publishBlock, look, Action.yields_bind, Action.yields_get, Action.yields_pure,
    Action.yields_ofExcept, Action.yields_demand]
  refine ⟨fun tokens _ => ⟨fun hash _ => ⟨fun block _ => ⟨fun place resolved => ⟨fun held _ => ?_,
    fun _ => ⟨tallied, not_false⟩⟩, fun _ => ⟨tallied, not_false⟩⟩, fun _ => ⟨tallied, not_false⟩⟩,
    fun fault failed => ⟨tallied, blockHash_fault failed⟩⟩,
    fun fault failed => ⟨tallied, block_fault failed⟩⟩
  have has : c.device.Has place :=
    ⟨Int.natCast_nonneg place, Int.ofNat_lt.mpr (Offset.resolve_lt resolved)⟩
  split
  · refine Action.Returns.yields ?_
    simp only [Action.returns_bind, returns_onDevice, Action.returns_pure]
    exact (Pool.register_returns has).weaken fun _ p registered =>
      tends.relabelled (registered.balanced tallied.device) (tallied.findable.of_registered registered has)
  · exact tends

theorem publish_counts (tallied : c.Tallied) (knows : c.Knows id) : Counts (publish id) c fun c' =>
    c'.Tallied ∧ c'.Knows id ∧ c'.isSwapped id = c.isSwapped id := by
  simp only [Counts, publish, Action.yields_bind, Action.yields_get]
  split
  · rename_i mode
    have away : c.isSwapped id = false := by
      simp only [Bool.and_eq_true, Bool.not_eq_true'] at mode
      exact mode.2
    have published :
        Counts ((List.range (c.publishable id)).foldlM (publishBlock id) noHash) c (Tends id) :=
      Action.yields_foldlM (fun before index _ tends => publishBlock_counts tends before index) _ _
        ⟨tallied, knows, away⟩
    refine Action.yields_map.mpr (published.weaken ?_ fun _ _ holds => holds)
    rintro _ _ ⟨tallied, knows, away'⟩
    exact ⟨tallied, knows, away'.trans away.symm⟩
  · exact ⟨tallied, knows, rfl⟩

/-- The blocks of a sequence are given back, by whichever pool they are of. -/
theorem release_counts (tallied : c.Tallied) (knows : c.Knows id) : Counts (release id) c Tallied := by
  simp only [Counts, release, Action.yields_bind, Action.yields_get]
  split
  · rename_i swapped
    have member : id ∈ c.swapped := by simpa [isSwapped] using swapped
    obtain ⟨p, host⟩ := Option.isSome_iff_exists.mp (tallied.shelved.host id member)
    have among : ∀ b, (c.sequence id).table.reverse.count b ≤ c.hostHolders b := fun b => by
      rw [List.count_reverse]
      exact count_table_le_hostHolders knows swapped b
    have freed := (tallied.host p host).release among
    refine Action.Returns.yields ?_
    simp only [Action.returns_bind, returns_onHost host, Action.returns_modify, returns_edit]
    refine freed.weaken ?_
    rintro _ p' ⟨balanced, -⟩
    have replaced := replaced_with knows c.device (some p') (c.swapped.erase id)
      fun s => { s with cached := 0, table := [] }
    refine replaced.tallied (fun other different => isSwapped_erased rfl different) ?_ ?_
      tallied.findable (tallied.shelved.back replaced rfl rfl)
    · rw [deviceTable_emptied replaced rfl, deviceTable_of_swapped swapped]
      exact tallied.device.congr fun b => rfl
    · intro _ found
      obtain rfl := Option.some.inj found
      rw [hostTable_emptied replaced rfl, hostTable_of_swapped swapped]
      exact balanced.congr fun b => by rw [List.count_reverse]; rfl
  · rename_i away
    rw [Action.yields_bind]
    refine (publish_counts tallied knows).weaken ?_ fun _ _ holds => holds
    rintro _ c₁ ⟨tallied₁, knows₁, same⟩
    have away₁ : c₁.isSwapped id = false := same.trans (Bool.eq_false_iff.mpr away)
    have among : ∀ b, (c₁.sequence id).table.reverse.count b ≤ c₁.deviceHolders b := fun b => by
      rw [List.count_reverse]
      exact count_table_le_deviceHolders knows₁ away₁ b
    have freed := tallied₁.device.release among
    refine Action.Returns.yields ?_
    simp only [Action.returns_bind, returns_look, returns_onDevice, returns_edit]
    refine freed.weaken ?_
    rintro _ p ⟨balanced, agrees⟩
    have emptied : p.Balanced fun b => c₁.deviceHolders b - (c₁.sequence id).table.count b +
        ([] : List Int).count b := balanced.congr fun b => by
      rw [List.count_reverse]
      rfl
    exact (Tends.exchanged (c := c₁) ⟨tallied₁, knows₁, away₁⟩ (List.nil_append _).symm emptied
      (tallied₁.findable.of_agrees agrees) rfl).1

theorem append_counts (tallied : c.Tallied) (knows : c.Knows id) (token : Int) :
    Counts (append id token) c Tallied := by
  simp only [Counts, append, look, edit, Action.yields_bind, Action.yields_get, Action.yields_pure,
    Action.yields_ofExcept, Action.yields_modify]
  unfold Sequence.append
  refine ⟨fun q appended => tallied.edited knows ?_, fun fault failed => ⟨tallied, ?_⟩⟩
  · split at appended
    · cases appended
    · split at appended
      · cases appended
      · cases appended
        rfl
  · split at failed
    · cases failed
      exact not_false
    · split at failed
      · cases failed
        exact not_false
      · cases failed

theorem create_counts (tallied : c.Tallied) (d : Draft) : Counts (create? d) c Tallied := by
  by_cases prompt : d.prompt = []
  · simp [Counts, create?, Store.create, prompt, Fault.IsFreeing, tallied]
  by_cases size : d.blockSize ≤ 0
  · simp [Counts, create?, Store.create, prompt, size, Fault.IsFreeing, tallied]
  refine ((create_returns prompt (Int.not_le.mp size)).weaken ?_).yields
  rintro new c' ⟨q, created, -, bare, -⟩
  refine ⟨?_, fun p found => ?_, created.device ▸ tallied.findable, created.swapped ▸ tallied.shelved.nodup,
    fun other member => ?_, fun other member => ?_, fun other member => ?_⟩
  · rw [created.device, created.deviceHolders bare]
    exact tallied.device
  · rw [created.hostHolders bare]
    exact tallied.host p (created.host ▸ found)
  · exact (created.knows_iff other).mpr (Or.inl (tallied.shelved.known other (created.swapped ▸ member)))
  · rw [created.host]
    exact tallied.shelved.host other (created.swapped ▸ member)
  · rw [created.tables bare]
    exact tallied.shelved.filled other (created.swapped ▸ member)

theorem swapOut_counts (tallied : c.Tallied) (knows : c.Knows id) (filled : (c.sequence id).table ≠ []) :
    Counts (swapOut id) c Tallied := by
  simp only [Counts, swapOut, onDevice, edit, Action.yields_bind, Action.yields_get,
    Action.yields_require, Action.yields_within, Action.yields_modify, Action.yields_pure]
  refine ⟨fun hosted => ⟨fun away => ?_, fun _ => ⟨tallied, not_false⟩⟩, fun _ => ⟨tallied, not_false⟩⟩
  have away : c.isSwapped id = false := by simpa using away
  obtain ⟨p, host⟩ := Option.isSome_iff_exists.mp hosted
  rw [yields_onHost host]
  refine (Pool.allocate_yields (tallied.host p host) _).weaken ?_ ?_
  · rintro blocks p₁ ⟨balanced, -, length⟩
    have freed := tallied.device.release (count_table_le_deviceHolders knows away)
    refine (freed.weaken ?_).yields
    rintro _ p₂ ⟨balanced', agrees⟩
    have replaced := replaced_with knows p₂ (some p₁) (c.swapped.insert id)
      fun s => { s with table := blocks }
    have moved : blocks ≠ [] := fun none => filled <| List.length_eq_zero_iff.mp <| by
      simpa [none] using length.symm
    have swapped : ∀ c' : Cache, c'.swapped = c.swapped.insert id → c'.isSwapped id = true :=
      fun c' same => by simp [isSwapped, same]
    refine replaced.tallied (fun other different => by simp [isSwapped, different]) ?_ ?_
      (tallied.findable.of_agrees agrees) (tallied.shelved.out replaced rfl rfl moved)
    · rw [deviceTable_of_device away, deviceTable_of_swapped (swapped _ rfl)]
      exact balanced'.congr fun b => rfl
    · intro _ found
      obtain rfl := Option.some.inj found
      rw [hostTable_of_device away, hostTable_of_swapped (swapped _ rfl), replaced.self]
      exact balanced.congr fun b => rfl
  · rintro fault _ ⟨rfl, blameless⟩
    rw [← host]
    exact ⟨tallied, blameless⟩

theorem swapIn_counts (tallied : c.Tallied) (knows : c.Knows id) : Counts (swapIn id) c Tallied := by
  simp only [Counts, swapIn, onDevice, edit, Action.yields_bind, Action.yields_get,
    Action.yields_require, Action.yields_within, Action.yields_modify, Action.yields_pure]
  refine ⟨fun swapped => ?_, fun _ => ⟨tallied, not_false⟩⟩
  have member : id ∈ c.swapped := by simpa [isSwapped] using swapped
  obtain ⟨p, host⟩ := Option.isSome_iff_exists.mp (tallied.shelved.host id member)
  refine (Pool.allocate_yields tallied.device _).weaken ?_ ?_
  · rintro blocks p₁ ⟨balanced, renewed, -⟩
    have freed := (tallied.host p host).release (count_table_le_hostHolders knows swapped)
    rw [yields_onHost (c := { c with device := p₁ }) host]
    refine (freed.weaken ?_).yields
    rintro _ p₂ ⟨balanced', -⟩
    have replaced := replaced_with knows p₁ (some p₂) (c.swapped.erase id)
      fun s => { s with table := blocks }
    have away : ∀ c' : Cache, c'.swapped = c.swapped.erase id → c'.isSwapped id = false :=
      fun c' same => by simp [isSwapped, same, tallied.shelved.nodup.mem_erase_iff]
    refine replaced.tallied (fun other different => isSwapped_erased rfl different) ?_ ?_
      (tallied.findable.of_renewed renewed) (tallied.shelved.back replaced rfl rfl)
    · rw [deviceTable_of_swapped swapped, deviceTable_of_device (away _ rfl), replaced.self]
      exact balanced.congr fun b => rfl
    · intro _ found
      obtain rfl := Option.some.inj found
      rw [hostTable_of_swapped swapped, hostTable_of_device (away _ rfl)]
      exact balanced'.congr fun b => rfl
  · rintro fault _ ⟨rfl, blameless⟩
    exact ⟨tallied, blameless⟩

theorem edit_counts (tallied : c.Tallied) (knows : c.Knows id) {f : Sequence → Sequence}
    (same : ∀ q, (f q).table = q.table) : Counts (edit id f) c Tallied :=
  Action.yields_modify.mpr (tallied.edited knows (same _))

end Cache

end PagedServing
