import PagedServing.Proofs.Cache.Frame

/-! # New sequences and new tokens

A sequence is constructed without blocks, and a token is added behind the others. Neither
touches a pool, and the hashes of earlier blocks stay what they were.
-/

namespace PagedServing.Cache

variable {c c' : Cache} {id : SeqId} {token : Int}

@[simp]
theorem returns_report {severity : Logging.Severity} {source message : String}
    {post : Unit → Cache → Prop} :
    (report severity source message).Returns c post ↔
      post () { c with journal := c.journal.write ⟨severity, source, message⟩ } := by
  simp [report]

theorem Sound.journal (sound : c.Sound) (journal : Logging.Journal) : { c with journal }.Sound :=
  ⟨⟨sound.filed.numbered, sound.filed.sized, sound.filed.fits, sound.filed.swapped_nodup,
      sound.filed.swapped_known, sound.filed.swapped_host⟩,
    ⟨sound.balanced.device, sound.balanced.host, sound.balanced.host_single⟩,
    ⟨sound.labelled.coherent, sound.labelled.unshared, sound.labelled.chained,
      sound.labelled.plain⟩⟩

/-- What adding a token does. -/
structure Appended (c c' : Cache) (id : SeqId) (token : Int) : Prop where
  replaced : c.Replaced c' id
    { c.sequence id with completion := (c.sequence id).completion ++ [token] }
  swapped : c'.swapped = c.swapped
  device : c'.device = c.device
  host : c'.host = c.host

namespace Appended

variable (appended : c.Appended c' id token)
include appended

theorem tables (other : SeqId) : (c'.sequence other).table = (c.sequence other).table := by
  by_cases same : other = id
  · rw [same, appended.replaced.self]
  · rw [appended.replaced.others other same]

theorem deviceTable (other : SeqId) : c'.deviceTable other = c.deviceTable other := by
  simp only [Cache.deviceTable, isSwapped_congr appended.swapped, appended.tables]

theorem hostTable (other : SeqId) : c'.hostTable other = c.hostTable other := by
  simp only [Cache.hostTable, isSwapped_congr appended.swapped, appended.tables]

theorem tokens_self : (c'.sequence id).tokens = (c.sequence id).tokens ++ [token] := by
  rw [appended.replaced.self]
  simp [Sequence.tokens]

theorem length_self : (c'.sequence id).length = (c.sequence id).length + 1 := by
  rw [← Sequence.length_tokens, appended.tokens_self]
  simp

theorem deviceHolders : c'.deviceHolders = c.deviceHolders := by
  funext b
  simp only [Cache.deviceHolders, appended.replaced.count]
  exact occurrences_congr (fun other _ => appended.deviceTable other) b

theorem labelled (labelled : c.Labelled) (pool : c.device.Balanced c.deviceHolders) : c'.Labelled := by
  refine labelled.of_agrees (appended.device ▸ Pool.Agrees.refl _) appended.replaced.blockSize
    appended.replaced.sharing (fun b _ _ => by rw [appended.deviceHolders]) fun other i b place => ?_
  rw [appended.deviceTable] at place
  refine ⟨(has_of_mem pool (List.mem_of_getElem? place)).1, fun real => ?_⟩
  obtain ⟨inside, hash⟩ := labelled.chained other i b place real
  by_cases same : other = id
  · subst same
    rw [appended.tokens_self, appended.length_self, hash]
    refine ⟨Nat.le_succ_of_le inside, (chainHash_append ?_).symm⟩
    rwa [Sequence.length_tokens]
  · rw [appended.replaced.others other same]
    exact ⟨inside, hash⟩

theorem sound (sound : c.Sound) (fits : c.Hashes [token]) : c'.Sound := by
  have knows := appended.replaced.knows
  have hostHolders : c'.hostHolders = c.hostHolders := by
    funext b
    simp only [Cache.hostHolders, appended.replaced.count]
    exact occurrences_congr (fun other _ => appended.hostTable other) b
  refine ⟨?_, ⟨?_, ?_, ?_⟩, appended.labelled sound.labelled sound.balanced.device⟩
  · refine sound.filed.replaced appended.replaced (sound.filed.numbered id knows)
      (sound.filed.sized id knows) ?_ (appended.swapped ▸ sound.filed.swapped_nodup)
      (fun other member => sound.filed.swapped_known other (appended.swapped ▸ member))
      (fun other member => appended.host ▸ sound.filed.swapped_host other (appended.swapped ▸ member))
    have tokens := appended.tokens_self
    rw [appended.replaced.self] at tokens
    intro on t member
    rw [tokens, List.mem_append] at member
    exact member.elim (sound.filed.fits id knows on t) (fits on t)
  · rw [appended.device, appended.deviceHolders]
    exact sound.balanced.device
  · rw [appended.host, hostHolders]
    exact sound.balanced.host
  · rw [hostHolders]
    exact sound.balanced.host_single

end Appended

/-- A token is added if a running sequence has a slot for it. -/
theorem append_returns (sound : c.Sound) (knows : c.Knows id) (natural : 0 ≤ token)
    (fits : c.Hashes [token])
    (slot : (c.sequence id).status = .running →
      (c.sequence id).length + 1 ≤ (c.sequence id).capacity) :
    (append id token).Returns c fun _ c' => c'.Sound ∧ c.Appended c' id token := by
  have accepted : (c.sequence id).append token =
      .ok { c.sequence id with completion := (c.sequence id).completion ++ [token] } := by
    have room : ¬ ((c.sequence id).status = .running ∧
        (c.sequence id).capacity < (c.sequence id).length + 1) :=
      fun full => Nat.not_lt.mpr (slot full.1) full.2
    unfold Sequence.append
    rw [if_neg (Int.not_lt.mpr natural), if_neg room]
  simp only [append, Action.returns_bind, returns_look, Action.returns_ofExcept, accepted,
    Except.ok.injEq, exists_eq_left', returns_edit]
  have appended : c.Appended _ id token :=
    ⟨replaced_edit knows fun _ =>
      { c.sequence id with completion := (c.sequence id).completion ++ [token] }, rfl, rfl, rfl⟩
  exact ⟨appended.sound sound fits, appended⟩

/-- What constructing a sequence does. -/
structure Created (c c' : Cache) (id : SeqId) (q : Sequence) : Prop where
  number : id = c.sequences.nextId
  count : c'.sequences.nextId = c.sequences.nextId + 1
  self : c'.sequence id = q
  others : ∀ other, c.Knows other → c'.sequence other = c.sequence other
  blockSize : c'.blockSize = c.blockSize
  sharing : c'.sharing = c.sharing
  swapped : c'.swapped = c.swapped
  device : c'.device = c.device
  host : c'.host = c.host

namespace Created

variable {q : Sequence} (created : c.Created c' id q)
include created

theorem knows_iff (other : SeqId) : c'.Knows other ↔ c.Knows other ∨ other = id := by
  simp only [Knows, created.count, created.number]
  exact Nat.lt_succ_iff_lt_or_eq

theorem unknown : ¬ c.Knows id := by
  simp [Knows, created.number]

/-- Numbers beyond those that were given lead to the new sequence or to none. -/
theorem beyond {other : SeqId} (unknown : ¬ c.Knows other) :
    c'.sequence other = q ∨ c'.sequence other = default := by
  by_cases same : other = id
  · exact Or.inl (same ▸ created.self)
  · refine Or.inr (sequence_of_unknown fun knows => ?_)
    exact ((created.knows_iff other).mp knows).elim unknown same

theorem tables (bare : q.table = []) (other : SeqId) :
    (c'.sequence other).table = (c.sequence other).table := by
  by_cases knows : c.Knows other
  · rw [created.others other knows]
  · by_cases same : other = id
    · rw [same, created.self, bare, table_of_unknown created.unknown]
    · rw [table_of_unknown knows, table_of_unknown]
      simp [created.knows_iff, knows, same]

theorem deviceTable (bare : q.table = []) (other : SeqId) :
    c'.deviceTable other = c.deviceTable other := by
  simp only [Cache.deviceTable, isSwapped_congr created.swapped, created.tables bare]

theorem hostTable (bare : q.table = []) (other : SeqId) :
    c'.hostTable other = c.hostTable other := by
  simp only [Cache.hostTable, isSwapped_congr created.swapped, created.tables bare]

theorem deviceHolders (bare : q.table = []) : c'.deviceHolders = c.deviceHolders := by
  funext b
  have none : c.deviceTable id = [] := by
    simp [Cache.deviceTable, table_of_unknown created.unknown]
  simp only [Cache.deviceHolders, created.count, occurrences, Finset.sum_range_succ,
    created.deviceTable bare, ← created.number, none, List.count_nil, Nat.add_zero]

theorem hostHolders (bare : q.table = []) : c'.hostHolders = c.hostHolders := by
  funext b
  have none : c.hostTable id = [] := by
    simp [Cache.hostTable, table_of_unknown created.unknown]
  simp only [Cache.hostHolders, created.count, occurrences, Finset.sum_range_succ,
    created.hostTable bare, ← created.number, none, List.count_nil, Nat.add_zero]

theorem labelled (labelled : c.Labelled) (pool : c.device.Balanced c.deviceHolders)
    (bare : q.table = []) : c'.Labelled := by
  refine labelled.of_agrees (created.device ▸ Pool.Agrees.refl _) created.blockSize
    created.sharing (fun b _ _ => by rw [created.deviceHolders bare]) fun other i b place => ?_
  rw [created.deviceTable bare] at place
  rw [created.others other (knows_of_place place)]
  exact ⟨(has_of_mem pool (List.mem_of_getElem? place)).1, labelled.chained other i b place⟩

theorem sound (sound : c.Sound) (bare : q.table = []) (number : q.id = id)
    (size : q.blockSize = c.blockSize) (fits : c.Hashes q.tokens) :
    c'.Sound := by
  have deviceHolders := created.deviceHolders bare
  have hostHolders := created.hostHolders bare
  refine ⟨⟨fun other knows => ?_, fun other knows => ?_, fun other knows => ?_, ?_, ?_, ?_⟩,
    ⟨?_, ?_, ?_⟩, created.labelled sound.labelled sound.balanced.device bare⟩
  · rcases (created.knows_iff other).mp knows with old | rfl
    · rw [created.others other old]
      exact sound.filed.numbered other old
    · rw [created.self, number]
  · rw [created.blockSize]
    rcases (created.knows_iff other).mp knows with old | rfl
    · rw [created.others other old]
      exact sound.filed.sized other old
    · rw [created.self, size]
  · refine Hashes.congr ?_ created.sharing
    rcases (created.knows_iff other).mp knows with old | rfl
    · rw [created.others other old]
      exact sound.filed.fits other old
    · rw [created.self]
      exact fits
  · exact created.swapped ▸ sound.filed.swapped_nodup
  · intro other member
    exact (created.knows_iff other).mpr
      (Or.inl (sound.filed.swapped_known other (created.swapped ▸ member)))
  · intro other member
    rw [created.host]
    exact sound.filed.swapped_host other (created.swapped ▸ member)
  · rw [created.device, deviceHolders]
    exact sound.balanced.device
  · rw [created.host, hostHolders]
    exact sound.balanced.host
  · rw [hostHolders]
    exact sound.balanced.host_single

end Created

/-- A draft that is not refused becomes the next sequence. -/
theorem create_returns {d : Draft} (prompt : d.prompt ≠ []) (size : 0 < d.blockSize) :
    (create? d).Returns c fun id c' => ∃ q, c.Created c' id q ∧ q.id = id ∧ q.table = [] ∧
      (q.blockSize : Int) = d.blockSize ∧ q.prompt = d.prompt ∧ q.completion = [] ∧
      q.status = .waiting ∧ q.computed = 0 ∧ q.emitted = 0 ∧
      q.requestId = d.requestId.getD (toString id) ∧ q.sampling = d.sampling := by
  simp only [create?, Store.create, prompt, Int.not_le.mpr size, Action.returns_bind,
    Action.returns_get, dite_false, Action.returns_ofExcept, Except.ok.injEq, exists_eq_left',
    Action.returns_set, Action.returns_pure]
  let q : Sequence :=
    { id := c.sequences.nextId
      requestId := d.requestId.getD (toString c.sequences.nextId)
      blockSize := d.blockSize.toNat
      prompt := d.prompt
      arrival := d.arrival.getD c.sequences.clock
      sampling := d.sampling
      blockSize_pos := by omega
      prompt_ne_nil := prompt }
  refine ⟨q, ⟨rfl, ?_, ?_, fun other knows => ?_, rfl, rfl, rfl, rfl, rfl⟩, rfl, rfl, ?_, rfl,
    rfl, rfl, rfl, rfl, rfl, rfl⟩
  · simp [Store.nextId]
  · simp [sequence, Store.get, Store.nextId, q]
  · have inside : other < c.sequences.entries.length := knows
    simp [sequence, Store.get, List.getD_eq_getElem?_getD, List.getElem?_append_left inside]
  · exact Int.toNat_of_nonneg (Int.le_of_lt size)

end PagedServing.Cache
