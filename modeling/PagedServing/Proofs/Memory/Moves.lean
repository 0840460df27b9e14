import PagedServing.Proofs.Memory.Backing
import PagedServing.Proofs.Scheduler.Schedule

/-! # Moving blocks between the pools

While nobody shares a block, every block that is moved has one copy to be made. The copies
of a batch are made one after the other, those to the host first, and leave every sequence
with its computed tokens on the side that it was moved to.
-/

namespace PagedServing

open Memory (Holds)

namespace Cache

variable {c c' : Cache} {m : Memory} {id : SeqId} {blocks : List Int}

theorem Sound.distinct_of_plain (sound : c.Sound) (off : c.sharing = false) : c.Distinct where
  fits := sound.filed.fits
  free on := by simp [off] at on

theorem Sound.unpublished (sound : c.Sound) (off : c.sharing = false) (h : Int) :
    c.device.registry.get? h = none := by
  refine Option.eq_none_iff_forall_ne_some.mpr fun b found => ?_
  obtain ⟨has, hash, real⟩ := sound.labelled.coherent h b found
  exact real (hash.symm.trans (sound.labelled.plain off b has))

theorem Sound.device_single (sound : c.Sound) (off : c.sharing = false) (b : Int) :
    c.deviceHolders b ≤ 1 := by
  by_cases has : c.device.Has b
  · exact sound.labelled.unshared b has (sound.labelled.plain off b has)
  · exact Nat.le_of_not_lt fun many => has (sound.balanced.device.has b (by omega))

theorem SwappedOut.extends (out : c.SwappedOut c' id blocks) : c.Extends c' :=
  .of_replaced out.replaced List.prefix_rfl

theorem SwappedIn.extends (back : c.SwappedIn c' id blocks) : c.Extends c' :=
  .of_replaced back.replaced List.prefix_rfl

theorem mem_zip_of_place {table : List Int} (length : blocks.length = table.length) {i : Nat}
    {b : Int} (place : blocks[i]? = some b) : ∃ g, table[i]? = some g ∧ (g, b) ∈ table.zip blocks := by
  obtain ⟨inside, rfl⟩ := List.getElem?_eq_some_iff.mp place
  refine ⟨_, List.getElem?_eq_getElem (length ▸ inside), ?_⟩
  rw [List.mem_iff_getElem]
  exact ⟨i, by simpa [← length] using inside, by simp⟩

theorem not_mem_of_unheld {tables : SeqId → List Int} {count i : Nat} {b : Int}
    (unheld : ∀ b ∈ blocks, occurrences count tables b = 0) (inside : id < count)
    (place : (tables id)[i]? = some b) : b ∉ blocks := by
  intro member
  have held : (tables id).count b ≤ occurrences count tables b := count_le_occurrences inside b
  rw [unheld b member] at held
  have := List.count_pos_iff.mpr (List.mem_of_getElem? place)
  omega

/-- A sequence that moves to the host is stored there once its blocks are copied. -/
theorem SwappedOut.backed (out : c.SwappedOut c' id blocks) (backed : c.Backed m) :
    c'.Backed (m.swapOut c.blockSize ((c.sequence id).table.zip blocks)) := by
  have self := out.replaced.self
  have size := out.replaced.blockSize
  have targets : ((c.sequence id).table.zip blocks).map (·.2) = blocks :=
    List.map_snd_zip (Nat.le_of_eq out.length)
  refine ⟨fun other knows i b place => ?_, fun h b found => ?_, fun off h => ?_⟩
  · have knows := (out.replaced.knows_iff other).mp knows
    by_cases same : other = id
    · subst same
      rw [self] at place ⊢
      obtain ⟨g, source, pair⟩ := mem_zip_of_place out.length place
      have stored := backed.stored other knows i g source
      simp only [slotsOf, out.before, Bool.false_eq_true, if_false] at stored
      simp only [slotsOf, out.isSwapped_self, if_true, size]
      exact stored.transport fun k inside =>
        Memory.copyBlocks_of_mem inside (targets.symm ▸ out.distinct) pair
    · have alone := out.replaced.others other same
      have swapped := out.isSwapped_others same
      rw [alone] at place ⊢
      have stored := backed.stored other knows i b place
      unfold slotsOf at stored ⊢
      rw [swapped, size]
      cases side : c.isSwapped other with
      | false => simpa [side, Memory.swapOut] using stored
      | true =>
          simp only [side, if_true] at stored ⊢
          have elsewhere := not_mem_of_unheld out.fresh knows (hostTable_of_swapped side ▸ place)
          exact stored.transport fun k inside =>
            Memory.copyBlocks_other inside (targets.symm ▸ elsewhere)
  · rw [out.registry] at found
    exact (backed.published h b found).extends out.extends
  · rw [out.registry]
    exact backed.plain (out.replaced.sharing.symm.trans off) h

/-- A sequence that moves back to the device is stored there once its blocks are copied. -/
theorem SwappedIn.backed (back : c.SwappedIn c' id blocks) (sound : c.Sound)
    (off : c.sharing = false) (backed : c.Backed m) :
    c'.Backed (m.swapIn c.blockSize ((c.sequence id).table.zip blocks)) := by
  have self := back.replaced.self
  have size := back.replaced.blockSize
  have targets : ((c.sequence id).table.zip blocks).map (·.2) = blocks :=
    List.map_snd_zip (Nat.le_of_eq back.length)
  have unpublished : ∀ h, c'.device.registry.get? h = none := by
    refine fun h => Option.eq_none_iff_forall_ne_some.mpr fun b found => ?_
    simpa [sound.unpublished off h] using (back.supplied sound.filed.swapped_nodup).registry h b found
  refine ⟨fun other knows i b place => ?_, fun h b found => ?_, fun _ => unpublished⟩
  · have knows := (back.replaced.knows_iff other).mp knows
    by_cases same : other = id
    · subst same
      rw [self] at place ⊢
      obtain ⟨g, source, pair⟩ := mem_zip_of_place back.length place
      have stored := backed.stored other knows i g source
      simp only [slotsOf, back.before, if_true] at stored
      simp only [slotsOf, back.isSwapped_self sound.filed.swapped_nodup, Bool.false_eq_true, if_false, size]
      exact stored.transport fun k inside =>
        Memory.copyBlocks_of_mem inside (targets.symm ▸ back.distinct) pair
    · have alone := back.replaced.others other same
      have swapped := back.isSwapped_others same
      rw [alone] at place ⊢
      have stored := backed.stored other knows i b place
      unfold slotsOf at stored ⊢
      rw [swapped, size]
      cases side : c.isSwapped other with
      | true => simpa [side, Memory.swapIn] using stored
      | false =>
          simp only [side, Bool.false_eq_true, if_false] at stored ⊢
          have elsewhere := not_mem_of_unheld back.fresh knows (deviceTable_of_device side ▸ place)
          exact stored.transport fun k inside =>
            Memory.copyBlocks_other inside (targets.symm ▸ elsewhere)
  · simp [unpublished] at found

theorem keys_append_nodup {tables : SeqId → List Int} {count : Nat} {ids : List SeqId}
    {moves : Moves} (single : ∀ b, occurrences count tables b ≤ 1) (inside : id < count)
    (insides : ∀ other ∈ ids, other < count) (new : id ∉ ids) (distinct : moves.keys.Nodup)
    (keys : ∀ b ∈ moves.keys, ∃ other ∈ ids, b ∈ tables other) :
    (moves.keys ++ tables id).Nodup := by
  refine distinct.append (List.nodup_iff_count_le_one.mpr fun b => ?_) fun b old own => ?_
  · exact (count_le_occurrences inside b).trans (single b)
  · obtain ⟨other, among, member⟩ := keys b old
    obtain ⟨i, place⟩ := List.mem_iff_getElem?.mp own
    obtain ⟨j, place'⟩ := List.mem_iff_getElem?.mp member
    obtain ⟨same, -⟩ := place_unique (single b) inside (insides other among) place place'
    exact new (same ▸ among)

/-- The copies of some sequences: the keys are their blocks, each once. -/
structure Gathered (tables : SeqId → List Int) (ids : List SeqId) (moves : Moves) : Prop where
  distinct : moves.keys.Nodup
  keys : ∀ b ∈ moves.keys, ∃ id ∈ ids, b ∈ tables id

theorem Gathered.next {tables : SeqId → List Int} {count : Nat} {ids : List SeqId} {moves : Moves}
    (gathered : Gathered tables ids moves) (single : ∀ b, occurrences count tables b ≤ 1)
    (inside : id < count) (insides : ∀ other ∈ ids, other < count) (new : id ∉ ids)
    (length : blocks.length = (tables id).length) :
    (moves.insertAll (OrderedMap.ofList ((tables id).zip blocks)).entries).entries =
        moves.entries ++ (tables id).zip blocks ∧
      Gathered tables (id :: ids)
        (moves.insertAll (OrderedMap.ofList ((tables id).zip blocks)).entries) := by
  have sources : ((tables id).zip blocks).map (·.1) = tables id :=
    List.map_fst_zip (Nat.le_of_eq length.symm)
  have nodup := keys_append_nodup single inside insides new gathered.distinct gathered.keys
  have apart : (moves.keys ++ ((tables id).zip blocks).map (·.1)).Nodup := by rwa [sources]
  have entries := OrderedMap.entries_insertAll_ofList apart
  have keys : (moves.insertAll (OrderedMap.ofList ((tables id).zip blocks)).entries).keys =
      moves.keys ++ tables id := by
    unfold OrderedMap.keys
    rw [entries, List.map_append, sources]
  refine ⟨entries, keys.symm ▸ nodup, fun b member => ?_⟩
  rw [keys, List.mem_append] at member
  rcases member with old | own
  · obtain ⟨other, among, member⟩ := gathered.keys b old
    exact ⟨other, List.mem_cons_of_mem _ among, member⟩
  · exact ⟨id, List.mem_cons_self, own⟩

theorem Gathered.widen {tables : SeqId → List Int} {ids : List SeqId} {moves : Moves}
    (gathered : Gathered tables ids moves) (id : SeqId) : Gathered tables (id :: ids) moves := by
  refine ⟨gathered.distinct, fun b member => ?_⟩
  obtain ⟨other, among, member⟩ := gathered.keys b member
  exact ⟨other, List.mem_cons_of_mem _ among, member⟩

end Cache

namespace Scheduler

open Cache (Gathered Moves)

variable {c c' : Cache} {m : Memory} {ids : List SeqId} {moves : Moves}

theorem Preempted.extends {id : SeqId} (preempted : Preempted c id c' moves) : c.Extends c' := by
  cases preempted with
  | freed changes _ => exact changes.extends
  | swapped first _ out changes _ _ =>
      exact ((Cache.Extends.of_noted first).trans out.extends).trans changes.extends

theorem Resumed.extends {id : SeqId} (resumed : Resumed c id c' moves) : c.Extends c' := by
  cases resumed with
  | covered changes => exact changes.extends
  | back back changes => exact back.extends.trans changes.extends

theorem Evicted.backed (evicted : Evicted c ids c' moves) (sound : c.Sound)
    (off : c.sharing = false) (backed : c.Backed m) :
    c'.Backed (m.swapOut c.blockSize moves.entries) ∧ Gathered c.deviceTable ids moves := by
  induction evicted with
  | nobody => exact ⟨backed, List.nodup_nil, fun b none => absurd none List.not_mem_nil⟩
  | @next ids c₁ c₂ moves more id before new handled one ih =>
      obtain ⟨backed₁, gathered⟩ := ih
      have size := before.blockSize
      have distinct := handled.sound.distinct_of_plain
        (handled.sharing.trans (before.sharing.trans off))
      obtain ⟨same, side⟩ := before.others new
      cases one with
      | freed changes _ => exact ⟨changes.backed distinct backed₁, gathered.widen id⟩
      | @swapped cₐ c_b _ q blocks first computed out changes _ _ =>
          have table : (cₐ.sequence id).table = (c₁.sequence id).table := first.tables id
          have device : c.isSwapped id = false := by
            rw [← side, ← Cache.isSwapped_congr first.swapped id]
            exact out.before
          have tables : c.deviceTable id = (c₁.sequence id).table := by
            rw [Cache.deviceTable_of_device device, same]
          have length : blocks.length = (c.deviceTable id).length := by
            rw [tables, out.length, table]
          obtain ⟨entries, gathered'⟩ := gathered.next (sound.device_single off)
            ((before.knows_iff id).mp handled.knows) (fun _ member => before.knows member) new length
          rw [tables] at entries gathered'
          refine ⟨?_, gathered'⟩
          rw [entries]
          have extended := (Cache.Extends.of_noted first).trans (out.extends.trans changes.extends)
          have backedₐ := (Cache.Change.noted first computed).backed (extended.distinct distinct) backed₁
          have copied := out.backed backedₐ
          rw [table, first.replaced.blockSize, size] at copied
          have later := changes.backed distinct copied
          simpa only [Memory.swapOut, Memory.copyBlocks_append] using later

theorem Admitted.backed (admitted : Admitted c ids c' moves) (sound : c.Sound)
    (off : c.sharing = false) (backed : c.Backed m) :
    c'.Backed (m.swapIn c.blockSize moves.entries) ∧ Gathered c.hostTable ids moves := by
  induction admitted with
  | nobody => exact ⟨backed, List.nodup_nil, fun b none => absurd none List.not_mem_nil⟩
  | @next ids c₁ c₂ moves more id before new handled one ih =>
      obtain ⟨backed₁, gathered⟩ := ih
      have size := before.blockSize
      have off₁ := before.sharing.trans off
      have distinct := handled.sound.distinct_of_plain (handled.sharing.trans off₁)
      obtain ⟨same, side⟩ := before.others new
      cases one with
      | covered changes => exact ⟨changes.backed distinct backed₁, gathered.widen id⟩
      | @back cₐ _ blocks back changes =>
          have tables : c.hostTable id = (c₁.sequence id).table := by
            rw [Cache.hostTable_of_swapped (side.symm.trans back.before), same]
          have length : blocks.length = (c.hostTable id).length := by
            rw [tables, back.length]
          obtain ⟨entries, gathered'⟩ := gathered.next sound.balanced.host_single
            ((before.knows_iff id).mp handled.knows) (fun _ member => before.knows member) new length
          rw [tables] at entries gathered'
          refine ⟨?_, gathered'⟩
          rw [entries]
          have copied := back.backed (before.sound sound) off₁ backed₁
          rw [size] at copied
          have later := changes.backed distinct copied
          simpa only [Memory.swapIn, Memory.copyBlocks_append] using later

end Scheduler

end PagedServing
