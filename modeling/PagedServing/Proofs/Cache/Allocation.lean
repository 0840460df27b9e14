import PagedServing.Cache.Coverage
import PagedServing.Proofs.Cache.Supply

/-! # Covering a sequence with blocks

A sequence without blocks is covered by as many as its tokens take, if that many are free.
The blocks that count as computed are blocks that were found under the hashes of its own
tokens; the others are new.
-/

namespace PagedServing.Cache

variable {c c' : Cache} {id : SeqId}

/-- What covering a sequence does. -/
structure Allocated (c c' : Cache) (id : SeqId) (table : List Int) (computed cached : Int) :
    Prop where
  replaced : c.Replaced c' id { c.sequence id with table, computed, cached }
  device : c.isSwapped id = false
  covered : table.length = (c.sequence id).blockCount
  computed_nonneg : 0 ≤ computed
  computed_lt : computed < (c.sequence id).length
  swapped : c'.swapped = c.swapped
  host : c'.host = c.host
  size : c'.device.size = c.device.size
  supplied : c.Supplied c'
  /-- Computed positions lie in whole blocks that were found under their hashes. -/
  served : ∀ (i : Nat) b, table[i]? = some b → i * c.blockSize < computed →
    (i + 1) * c.blockSize ≤ (c.sequence id).length ∧
    c.device.registry.get? (chainHash c.blockSize (c.sequence id).tokens (i + 1)) = some b ∧
    (c'.device.entry b).hash ≠ noHash

/-- What counts as computed then carries labels. -/
theorem Allocated.marked {table : List Int} {computed cached : Int}
    (allocated : c.Allocated c' id table computed cached) : c'.Marked id := by
  have self := allocated.replaced.self
  intro i b place done
  rw [self] at place done
  rw [allocated.replaced.blockSize] at done
  have positive : (0 : Int) < c.blockSize := Int.ofNat_lt.mpr c.blockSize_pos
  have done : ((i + 1 : Nat) * c.blockSize : Int) ≤ computed := done
  rw [Int.natCast_succ, Int.add_mul, Int.one_mul] at done
  exact (allocated.served i b place (by omega)).2.2

section Extended

variable {ids : List Int} {computed cached : Int} (device : c.isSwapped id = false)
  (swapped : c'.swapped = c.swapped)
  (replaced : c.Replaced c' id { c.sequence id with
    table := (c.sequence id).table ++ ids, computed, cached })
include device swapped replaced

theorem deviceTable_extended : c'.deviceTable id = c.deviceTable id ++ ids := by
  have device' : c'.isSwapped id = false := (isSwapped_congr swapped id).trans device
  rw [deviceTable_of_device device', deviceTable_of_device device, replaced.self]

theorem deviceHolders_extended (b : Int) : c'.deviceHolders b = c.deviceHolders b + ids.count b := by
  have change := deviceHolders_replaced replaced (fun other _ => isSwapped_congr swapped other) b
  rw [deviceTable_extended device swapped replaced, List.count_append] at change
  omega

theorem deviceHolders_le_extended (b : Int) : c.deviceHolders b ≤ c'.deviceHolders b := by
  rw [deviceHolders_extended device swapped replaced]
  exact Nat.le_add_right _ _

theorem Balanced.extended (balanced : c.Balanced) (host : c'.host = c.host)
    (pool : c'.device.Balanced fun b => c.deviceHolders b + ids.count b) : c'.Balanced := by
  have device' : c'.isSwapped id = false := (isSwapped_congr swapped id).trans device
  have hostHolders : c'.hostHolders = c.hostHolders := by
    funext b
    have change := hostHolders_replaced replaced (fun other _ => isSwapped_congr swapped other) b
    rw [hostTable_of_device device, hostTable_of_device device'] at change
    omega
  constructor
  · exact pool.congr (deviceHolders_extended device swapped replaced)
  · rw [host, hostHolders]
    exact balanced.host
  · rw [hostHolders]
    exact balanced.host_single

theorem place_extended (pool : c.device.Balanced c.deviceHolders) {other : SeqId} {i : Nat} {b : Int}
    (place : (c'.deviceTable other)[i]? = some b) :
    0 ≤ b ∧ (c.deviceTable other)[i]? = some b ∨
      other = id ∧ ids[i - (c.sequence id).table.length]? = some b ∧
        (c.sequence id).table.length ≤ i := by
  by_cases same : other = id
  · subst same
    rw [deviceTable_extended device swapped replaced, deviceTable_of_device device,
      List.getElem?_append] at place
    split at place
    · left
      rw [← deviceTable_of_device device] at place
      exact ⟨(has_of_mem pool (List.mem_of_getElem? place)).1, place⟩
    · exact Or.inr ⟨rfl, place, by omega⟩
  · rw [deviceTable_others replaced same (isSwapped_congr swapped other)] at place
    exact Or.inl ⟨(has_of_mem pool (List.mem_of_getElem? place)).1, place⟩

theorem Labelled.extended (labelled : c.Labelled) (pool : c.device.Balanced c.deviceHolders)
    (renewed : c.device.Renewed c'.device ids) (free : ∀ b ∈ ids, b ∈ c.device.free)
    (distinct : ids.Nodup) : c'.Labelled := by
  have holders := deviceHolders_extended device swapped replaced
  refine labelled.of_renewed renewed replaced.blockSize replaced.sharing ?_ ?_ ?_ ?_
  · intro b member
    have unheld := ((pool.mem_free b).mp (free b member)).2
    rw [holders, unheld, List.count_eq_one_of_mem distinct member]
  · intro b outside
    rw [holders, List.count_eq_zero_of_not_mem outside]
    exact Nat.le_refl _
  · intro other i b place
    rcases place_extended device swapped replaced pool place with old | ⟨_, new, _⟩
    · exact Or.inr old
    · exact Or.inl (List.mem_of_getElem? new)
  · intro other
    by_cases same : other = id
    · rw [same, replaced.self]
      rfl
    · rw [replaced.others other same]

theorem Labelled.joined (labelled : c.Labelled) (pool : c.device.Balanced c.deviceHolders) {b : Int}
    (one : ids = [b]) (agrees : c.device.Agrees c'.device) (has : c.device.Has b)
    (real : (c.device.entry b).hash ≠ noHash)
    (inside : ((c.sequence id).table.length + 1) * c.blockSize ≤ (c.sequence id).length)
    (hash : (c.device.entry b).hash =
      chainHash c.blockSize (c.sequence id).tokens ((c.sequence id).table.length + 1)) :
    c'.Labelled := by
  have holders := deviceHolders_extended device swapped replaced
  refine labelled.of_agrees agrees replaced.blockSize replaced.sharing ?_ ?_
  · intro other _ plain
    have different : b ≠ other := fun same => real (same ▸ plain)
    simp [holders, one, different]
  · intro other i b' place
    rcases place_extended device swapped replaced pool place with old | ⟨same, new, late⟩
    · refine ⟨old.1, fun realOld => ?_⟩
      have before := labelled.chained other i b' old.2 realOld
      by_cases same : other = id
      · subst same
        rw [replaced.self]
        exact before
      · rw [replaced.others other same]
        exact before
    · obtain ⟨last, rfl⟩ : i = (c.sequence id).table.length ∧ b' = b := by
        rw [one] at new
        cases gap : i - (c.sequence id).table.length with
        | zero => exact ⟨by omega, by simpa [gap, eq_comm] using new⟩
        | succ k => simp [gap] at new
      subst same
      rw [replaced.self, last]
      exact ⟨has.1, fun _ => ⟨inside, hash⟩⟩

theorem Sound.extended (sound : c.Sound) (host : c'.host = c.host)
    (pool : c'.device.Balanced fun b => c.deviceHolders b + ids.count b)
    (renewed : c.device.Renewed c'.device ids) (free : ∀ b ∈ ids, b ∈ c.device.free)
    (distinct : ids.Nodup) : c'.Sound :=
  ⟨sound.filed.retabled replaced swapped (fun some => host ▸ some),
    sound.balanced.extended device swapped replaced host pool,
    sound.labelled.extended device swapped replaced sound.balanced.device renewed free distinct⟩

theorem Sound.joined (sound : c.Sound) (host : c'.host = c.host) {b : Int} (one : ids = [b])
    (pool : c'.device.Balanced fun b => c.deviceHolders b + ids.count b)
    (agrees : c.device.Agrees c'.device) (has : c.device.Has b)
    (real : (c.device.entry b).hash ≠ noHash)
    (inside : ((c.sequence id).table.length + 1) * c.blockSize ≤ (c.sequence id).length)
    (hash : (c.device.entry b).hash =
      chainHash c.blockSize (c.sequence id).tokens ((c.sequence id).table.length + 1)) :
    c'.Sound :=
  ⟨sound.filed.retabled replaced swapped (fun some => host ▸ some),
    sound.balanced.extended device swapped replaced host pool,
    sound.labelled.joined device swapped replaced sound.balanced.device one agrees has real inside hash⟩

end Extended

theorem allocateFresh_returns (sound : c.Sound) (knows : c.Knows id)
    (device : c.isSwapped id = false) (bare : (c.sequence id).table = [])
    (enough : (c.sequence id).blockCount ≤ c.device.freeCount) :
    (allocateFresh id).Returns c fun _ c' =>
      c'.Sound ∧ ∃ table computed cached, c.Allocated c' id table computed cached := by
  simp only [allocateFresh, Action.returns_bind, returns_look, returns_onDevice, returns_edit]
  refine (Pool.allocate_returns sound.balanced.device (Int.natCast_nonneg _)
    (Int.ofNat_le.mpr enough)).weaken ?_
  rintro ids p ⟨taken, balanced, renewed, rest⟩
  have free : ∀ b ∈ ids, b ∈ c.device.free := fun b member =>
    List.mem_of_mem_take (taken ▸ member)
  have distinct : ids.Nodup := taken ▸ sound.balanced.device.free_nodup.take
  have length : ids.length = (c.sequence id).blockCount := by
    have enough : (c.sequence id).blockCount ≤ c.device.free.length := enough
    simp [taken, enough]
  let f := fun s : Sequence => { s with table := s.table ++ ids, cached := 0, computed := 0 }
  let c' : Cache := { c with device := p, sequences := c.sequences.update id f }
  have replaced : c.Replaced c' id (f (c.sequence id)) := replaced_of_update knows rfl rfl rfl
  have unheld : ∀ b ∈ ids, c.deviceHolders b = 0 := fun b member =>
    ((sound.balanced.device.mem_free b).mp (free b member)).2
  have supplied : c.Supplied c' :=
    .of_renewed renewed unheld (deviceHolders_le_extended device rfl replaced)
  refine ⟨sound.extended device rfl replaced rfl balanced renewed free distinct,
    _, _, _, replaced, device, ?_, Int.le_refl 0, Int.ofNat_lt.mpr (Sequence.length_pos _), rfl, rfl,
    renewed.size, supplied, ?_⟩
  · simp [bare, length]
  · intro i b _ before
    have := Int.mul_nonneg (Int.natCast_nonneg i) (Int.natCast_nonneg c.blockSize)
    omega

theorem registered_of_lookup {p : Pool} {hash : Int} {tokens : List Int} {b : Int}
    (found : p.lookup? hash tokens = some b) : p.registry.get? hash = some b := by
  unfold Pool.lookup? at found
  cases registered : p.registry.get? hash with
  | none => simp [registered] at found
  | some b' =>
      cases held : p.block? b' with
      | none => simp [registered, held] at found
      | some block =>
          simp only [registered, held, Option.bind_eq_bind, Option.bind_some,
            Option.ite_none_right_eq_some] at found
          exact found.2

theorem registered_of_served {chain : Chain} {hash : Int} {tokens : List Int} {b : Int}
    (served : c.served? chain hash tokens = some b) :
    chain.missed = false ∧ hash ≠ noHash ∧ c.device.registry.get? hash = some b := by
  unfold served? at served
  split at served
  · cases served
  · rename_i looked
    obtain ⟨hit, real⟩ := not_or.mp looked
    exact ⟨Bool.eq_false_iff.mpr hit, real, registered_of_lookup served⟩

/-- How far the sequence `id` of `c` is covered in `c'`, with `k` blocks in its table. -/
structure Covering (c c' : Cache) (id : SeqId) (k : Nat) (chain : Chain) (table : List Int) :
    Prop where
  sound : c'.Sound
  replaced : c.Replaced c' id { c.sequence id with table }
  length : table.length = k
  swapped : c'.swapped = c.swapped
  host : c'.host = c.host
  size : c'.device.size = c.device.size
  enough : (c.sequence id).blockCount ≤ c'.device.freeCount + k
  supplied : c.Supplied c'
  hash : k * c.blockSize ≤ (c.sequence id).length →
    chain.hash = chainHash c.blockSize (c.sequence id).tokens k
  found : ∃ j ≤ k, chain.found = j * c.blockSize ∧ (chain.missed = false → j = k) ∧
    j * c.blockSize ≤ (c.sequence id).length ∧ ∀ i < j, ∀ b, table[i]? = some b →
      c.device.registry.get? (chainHash c.blockSize (c.sequence id).tokens (i + 1)) = some b ∧
      (c'.device.entry b).hash ≠ noHash

/-- The block `b` is referred to once more, in a pool that holds the same. -/
def Joined (c : Cache) (b : Int) (p : Pool) : Prop :=
  p.Balanced (fun b' => c.deviceHolders b' + [b].count b') ∧ c.device.Agrees p ∧
    c.device.freeCount ≤ p.freeCount + 1

theorem share_joined {b : Int} (balanced : c.Balanced) (used : b ∈ c.device.used) :
    (Pool.shareOne b).Returns c.device fun _ p => c.Joined b p := by
  have holder := (balanced.device.mem_used b).mp used
  refine (Pool.shareOne_returns balanced.device holder).weaken ?_
  rintro _ p ⟨pool, agrees, free⟩
  exact ⟨pool, agrees, by simp [Pool.freeCount, free]⟩

theorem revive_joined {b : Int} (balanced : c.Balanced) (has : c.device.Has b)
    (unused : b ∉ c.device.used) : (Pool.revive b).Returns c.device fun _ p => c.Joined b p := by
  have unheld : c.deviceHolders b = 0 :=
    Nat.eq_zero_of_not_pos fun holder => unused ((balanced.device.mem_used b).mpr holder)
  refine (Pool.revive_returns balanced.device has unheld).weaken ?_
  rintro _ p ⟨pool, agrees, free⟩
  exact ⟨pool, agrees, Nat.le_of_eq free.symm⟩

namespace Covering

variable {k : Nat} {chain : Chain} {table : List Int}

theorem deviceTable (covering : c.Covering c' id k chain table) (device : c.isSwapped id = false) :
    c'.deviceTable id = table := by
  rw [deviceTable_of_device ((isSwapped_congr covering.swapped id).trans device),
    covering.replaced.self]

theorem has_of_place (covering : c.Covering c' id k chain table) (device : c.isSwapped id = false)
    {i : Nat} {b : Int} (place : table[i]? = some b) : c'.device.Has b := by
  rw [← covering.deviceTable device] at place
  exact covering.sound.balanced.has_of_mem (List.mem_of_getElem? place)

theorem edited (covering : c.Covering c' id k chain table) (p : Pool) (b : Int) :
    c'.Replaced { c' with device := p, sequences := c'.sequences.update id fun s =>
        { s with table := s.table ++ [b] } } id
      { c'.sequence id with table := (c'.sequence id).table ++ [b] } :=
  replaced_with ((covering.replaced.knows_iff id).mpr covering.replaced.knows) p _ _ _

theorem replaced_append (covering : c.Covering c' id k chain table) (p : Pool) (b : Int) :
    c.Replaced { c' with device := p, sequences := c'.sequences.update id fun s =>
        { s with table := s.table ++ [b] } } id
      { c.sequence id with table := table ++ [b] } := by
  have both := covering.replaced.trans (covering.edited p b)
  rw [covering.replaced.self] at both
  exact both

/-- The next block is one that the cache serves. -/
theorem hit (covering : c.Covering c' id k chain table) (device : c.isSwapped id = false)
    {p : Pool} {b : Int} (unmissed : chain.missed = false)
    (full : (k + 1) * c.blockSize ≤ (c.sequence id).length)
    (found : c'.device.registry.get?
      (chainHash c.blockSize (c.sequence id).tokens (k + 1)) = some b)
    (joined : c'.Joined b p) :
    c.Covering { c' with device := p, sequences := c'.sequences.update id fun s =>
        { s with table := s.table ++ [b] } } id (k + 1)
      { chain with
        hash := chainHash c.blockSize (c.sequence id).tokens (k + 1)
        found := chain.found + c.blockSize }
      (table ++ [b]) := by
  obtain ⟨pool, agrees, free⟩ := joined
  obtain ⟨has, hash, real⟩ := covering.sound.labelled.coherent _ b found
  have self := covering.replaced.self
  have edited := covering.edited p b
  have device' : c'.isSwapped id = false := (isSwapped_congr covering.swapped id).trans device
  constructor
  case sound =>
    refine covering.sound.joined device' rfl edited rfl rfl pool agrees has (hash ▸ real) ?_ ?_
    · rw [self, covering.replaced.blockSize]
      simpa [covering.length, Sequence.length] using full
    · rw [self, covering.replaced.blockSize, hash]
      simp [covering.length, Sequence.tokens]
  case replaced => exact covering.replaced_append p b
  case length => simp [covering.length]
  case swapped => exact covering.swapped
  case host => exact covering.host
  case size => exact agrees.size.trans covering.size
  case enough =>
    have := covering.enough
    dsimp only
    omega
  case supplied =>
    exact covering.supplied.trans
      (.of_agrees agrees (deviceHolders_le_extended device' rfl edited))
  case hash => exact fun _ => rfl
  case found =>
    obtain ⟨j, -, found', all, -, entries⟩ := covering.found
    -- all blocks so far were found, so the beginning that was found is the whole table
    obtain rfl := all unmissed
    refine ⟨j + 1, Nat.le_refl _, by simp [found', Nat.add_mul], fun _ => rfl, full, ?_⟩
    intro i before b' place
    rcases Nat.lt_succ_iff_lt_or_eq.mp before with earlier | rfl
    · rw [List.getElem?_append_left (by rw [covering.length]; exact earlier)] at place
      obtain ⟨entry, labelled⟩ := entries i earlier b' place
      refine ⟨entry, ?_⟩
      rw [agrees.hash b' (covering.has_of_place device place).1]
      exact labelled
    · rw [← covering.length, List.getElem?_concat_length] at place
      cases place
      refine ⟨covering.supplied.registry _ b found, ?_⟩
      rw [agrees.hash b has.1, hash]
      exact real

/-- The next block is a new one. -/
theorem miss (covering : c.Covering c' id k chain table) (device : c.isSwapped id = false)
    {p : Pool} {b hash : Int} (free : b ∈ c'.device.free)
    (pool : p.Balanced fun b' => c'.deviceHolders b' + [b].count b')
    (renewed : c'.device.Renewed p [b]) (fewer : p.freeCount + 1 = c'.device.freeCount)
    (known : (k + 1) * c.blockSize ≤ (c.sequence id).length →
      hash = chainHash c.blockSize (c.sequence id).tokens (k + 1)) :
    c.Covering { c' with device := p, sequences := c'.sequences.update id fun s =>
        { s with table := s.table ++ [b] } } id (k + 1)
      { chain with hash, missed := true } (table ++ [b]) := by
  have edited := covering.edited p b
  have device' : c'.isSwapped id = false := (isSwapped_congr covering.swapped id).trans device
  have unheld := ((covering.sound.balanced.device.mem_free b).mp free).2
  constructor
  case sound =>
    exact covering.sound.extended device' rfl edited rfl pool renewed (by simpa using free)
      (List.nodup_singleton b)
  case replaced => exact covering.replaced_append p b
  case length => simp [covering.length]
  case swapped => exact covering.swapped
  case host => exact covering.host
  case size => exact renewed.size.trans covering.size
  case enough =>
    have := covering.enough
    dsimp only
    omega
  case supplied =>
    refine covering.supplied.trans
      (.of_renewed renewed (fun b' new => ?_) (deviceHolders_le_extended device' rfl edited))
    rw [List.mem_singleton.mp new]
    exact unheld
  case hash => exact known
  case found =>
    obtain ⟨j, few, found', -, inside, entries⟩ := covering.found
    refine ⟨j, by omega, found', by simp, inside, fun i before b' place => ?_⟩
    rw [List.getElem?_append_left (by rw [covering.length]; omega)] at place
    obtain ⟨entry, labelled⟩ := entries i before b' place
    refine ⟨entry, ?_⟩
    have member := List.mem_of_getElem? (covering.deviceTable device ▸ place)
    have held := holders_pos_of_mem (covering.replaced.knows_iff id |>.mpr covering.replaced.knows) member
    have different : b' ∉ [b] := fun same => by
      rw [List.mem_singleton.mp same] at held
      omega
    rw [renewed.kept b' (covering.has_of_place device place).1 different]
    exact labelled

end Covering

/-- A block that is not found is handed out, whatever its hash. -/
theorem Covering.missing {k : Nat} {chain : Chain} {table : List Int} {hash : Int}
    (covering : c.Covering c' id k chain table) (device : c.isSwapped id = false)
    (inside : k < (c.sequence id).blockCount)
    (known : (k + 1) * c.blockSize ≤ (c.sequence id).length →
      hash = chainHash c.blockSize (c.sequence id).tokens (k + 1)) :
    Pool.allocateOne.Returns c'.device fun b p =>
      ∃ b', c.Covering { c' with device := p, sequences := c'.sequences.update id fun s =>
        { s with table := s.table ++ [b] } } id (k + 1) { chain with hash, missed := true }
        (table ++ [b']) := by
  have enough : 0 < c'.device.freeCount := by
    have := covering.enough
    omega
  refine (Pool.allocateOne_returns covering.sound.balanced.device enough).weaken ?_
  rintro b p ⟨pool, renewed, fewer, free⟩
  exact ⟨b, covering.miss device free pool renewed fewer known⟩

theorem coverBlock_returns {k : Nat} {chain : Chain} {table : List Int}
    (covering : c.Covering c' id k chain table) (filed : c.Filed)
    (sharing : c.sharing = true) (device : c.isSwapped id = false)
    (inside : k < (c.sequence id).blockCount) :
    (coverBlock id chain k).Returns c' fun chain' c'' =>
      ∃ b, c.Covering c'' id (k + 1) chain' (table ++ [b]) := by
  have size : (c.sequence id).blockSize = c.blockSize := filed.sized id covering.replaced.knows
  have start : k * c.blockSize < (c.sequence id).length := size ▸ Sequence.lt_blockCount_iff.mp inside
  have block : (c'.sequence id).block k =
      .ok (blockOf c.blockSize (c.sequence id).tokens k) := by
    rw [covering.replaced.self, ← size]
    exact Sequence.block_eq inside
  have whole : (blockOf c.blockSize (c.sequence id).tokens k).length = c.blockSize ↔
      (k + 1) * c.blockSize ≤ (c.sequence id).length := by
    rw [length_blockOf_eq_iff c.blockSize_pos, Sequence.length_tokens]
  have next : chain.hash = chainHash c.blockSize (c.sequence id).tokens k :=
    covering.hash (Nat.le_of_lt start)
  simp only [coverBlock, Action.returns_bind, returns_look, Action.returns_ofExcept, block,
    Except.ok.injEq, exists_eq_left', Action.returns_get, covering.replaced.blockSize, whole]
  split
  · rename_i full
    simp only [next, blockHash_chainHash (filed.fits id covering.replaced.knows sharing),
      Action.returns_bind, Action.returns_ofExcept, Except.ok.injEq, exists_eq_left']
    split
    · rename_i b served
      obtain ⟨unmissed, -, found⟩ := registered_of_served served
      have joining : ∀ p : Pool, c'.Joined b p →
          ∃ b', c.Covering { c' with device := p, sequences := c'.sequences.update id fun s =>
            { s with table := s.table ++ [b] } } id (k + 1)
            { chain with
              hash := chainHash c.blockSize (c.sequence id).tokens (k + 1)
              found := chain.found + c.blockSize }
            (table ++ [b']) :=
        fun p joined => ⟨b, covering.hit device unmissed full found joined⟩
      split
      · rename_i used
        simp only [Action.returns_bind, returns_onDevice, returns_edit, Action.returns_pure]
        exact (share_joined covering.sound.balanced used).weaken fun _ p => joining p
      · rename_i unused
        have has := (covering.sound.labelled.coherent _ b found).1
        simp only [Action.returns_bind, Action.returns_discard, returns_onDevice, returns_edit,
          Action.returns_pure]
        exact (revive_joined covering.sound.balanced has unused).weaken fun _ p => joining p
    · simp only [Action.returns_bind, returns_onDevice, returns_edit, Action.returns_pure]
      exact covering.missing device inside fun _ => rfl
  · rename_i short
    simp only [Action.returns_bind, Action.returns_pure, served?, or_true, if_true,
      returns_onDevice, returns_edit]
    exact covering.missing device inside fun full => absurd full short

theorem allocateShared_returns (sound : c.Sound) (sharing : c.sharing = true) (knows : c.Knows id)
    (device : c.isSwapped id = false) (bare : (c.sequence id).table = [])
    (enough : (c.sequence id).blockCount ≤ c.device.freeCount) :
    (allocateShared id).Returns c fun _ c' =>
      c'.Sound ∧ ∃ table computed cached, c.Allocated c' id table computed cached := by
  have start : c.Covering c id 0 {} [] := by
    refine ⟨sound, ?_, rfl, rfl, rfl, rfl, by simpa using enough, .refl c, fun _ => rfl, 0,
      Nat.le_refl 0, ?_, fun _ => rfl, by simp, by simp⟩
    · have same := Replaced.refl knows
      rw [← bare]
      exact same
    · simp
  simp only [allocateShared, Action.returns_bind, returns_look, returns_edit]
  have round : ∀ k chain c', k < (c.sequence id).blockCount →
      (∃ table, c.Covering c' id k chain table) → (coverBlock id chain k).Returns c' fun chain c' =>
        ∃ table, c.Covering c' id (k + 1) chain table := by
    rintro k chain c' before ⟨table, covering⟩
    refine (coverBlock_returns covering sound.filed sharing device before).weaken ?_
    rintro _ _ ⟨b, covering⟩
    exact ⟨_, covering⟩
  refine (Action.returns_foldlM_range (fun k chain c' => ∃ table, c.Covering c' id k chain table)
    ⟨[], start⟩ round).weaken ?_
  rintro chain c' ⟨table, covering⟩
  obtain ⟨j, few, found, -, inside, entries⟩ := covering.found
  have same : (c'.sequence id).length = (c.sequence id).length := by
    rw [covering.replaced.self]
    rfl
  have positive := Sequence.length_pos (c.sequence id)
  have edited := replaced_edit ((covering.replaced.knows_iff id).mpr knows) fun s =>
    { s with cached := chain.found, computed := min chain.found (s.length - 1) }
  have both := covering.replaced.trans edited
  have noted := Noted.mk edited ⟨rfl, rfl⟩ rfl rfl rfl
  refine ⟨noted.sound covering.sound, table,
    min (chain.found : Int) ((c.sequence id).length - 1), chain.found, ?_, device, covering.length,
    ?_, ?_, covering.swapped, covering.host, covering.size,
    covering.supplied.trans (.of_noted noted), ?_⟩
  · rw [← same]
    simpa only [covering.replaced.self] using both
  · omega
  · omega
  · intro i b place before
    have early : i < j := by
      rw [found] at before
      have before : (i * c.blockSize : Int) < (j * c.blockSize : Nat) := by omega
      exact Nat.lt_of_mul_lt_mul_right (by exact_mod_cast before)
    refine ⟨?_, entries i early b place⟩
    exact Nat.le_trans (Nat.mul_le_mul_right _ early) inside

theorem allocate_returns (sound : c.Sound) (knows : c.Knows id) (device : c.isSwapped id = false)
    (bare : (c.sequence id).table = []) (enough : (c.sequence id).blockCount ≤ c.device.freeCount) :
    (allocate id).Returns c fun _ c' =>
      c'.Sound ∧ ∃ table computed cached, c.Allocated c' id table computed cached := by
  simp only [allocate, Action.returns_bind, Action.returns_get, Action.returns_require, bare,
    List.isEmpty_nil, canAllocate, enough, decide_true, true_and]
  split
  · exact allocateShared_returns sound ‹_› knows device bare enough
  · exact allocateFresh_returns sound knows device bare enough

end PagedServing.Cache
