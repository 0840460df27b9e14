import PagedServing.Proofs.Cache.Exactness
import PagedServing.Proofs.Cache.Growth

/-! # Tidy caches

Whatever comes of an operation, it leaves a cache tidy: references agree with the block tables, the
hash of a block stands for the tokens of whoever holds it, and no more tokens count as computed than
there are. This asks nothing of the tokens, so an operation may meet a fault half way. Only the blocks
have to be of one size.
-/

namespace PagedServing

theorem Action.Guarded.yields {σ α : Type} {act : Action σ α} {s : σ} {condition : Prop}
    {post : α → σ → Prop} (guarded : act.Guarded s condition) (returns : condition → act.Returns s post) :
    act.Yields s post fun _ t => t = s := by
  by_cases holds : condition
  · exact (returns holds).yields
  · obtain ⟨fault, t, run, same⟩ := guarded.refuses holds
    simpa [Action.Yields, run] using same

theorem eq_chainHash {size : Nat} {tokens : List Int} {count : Nat} {hash : Int}
    (hashed : blockHash (chainHash size tokens count) (blockOf size tokens count) = .ok hash) :
    hash = chainHash size tokens (count + 1) := by
  unfold blockHash at hashed
  split at hashed
  · exact (Except.ok.inj hashed).symm
  · cases hashed

theorem Sequence.blockCount_pos (s : Sequence) : 0 < s.blockCount :=
  Nat.div_pos (by have := s.length_pos; omega) s.blockSize_pos

namespace Cache

variable {c c' c'' : Cache} {id : SeqId} {q : Sequence} {chain chain' : Chain} {k : Nat}
  {hash b : Int} {tokens : List Int}

/-- What every operation leaves behind, also after a fault. -/
structure Tidy (c : Cache) : Prop where
  tallied : c.Tallied
  labelled : c.Labelled
  sized : ∀ id, c.Knows id → (c.sequence id).blockSize = c.blockSize
  measured : ∀ id, c.Knows id → (c.sequence id).computed ≤ (c.sequence id).length

/-- Something was done with the blocks of one sequence, and the cache is tidy. -/
structure Tidied (c c' : Cache) (id : SeqId) : Prop where
  tidy : c'.Tidy
  replaced : c.Replaced c' id (c'.sequence id)
  origin : (c'.sequence id).origin = (c.sequence id).origin

theorem Tidy.journal (tidy : c.Tidy) (journal : Logging.Journal) : { c with journal }.Tidy :=
  ⟨⟨tidy.tallied.device, tidy.tallied.host, tidy.tallied.findable, tidy.tallied.shelved.nodup,
      tidy.tallied.shelved.known, tidy.tallied.shelved.host, tidy.tallied.shelved.filled⟩,
    ⟨tidy.labelled.coherent, tidy.labelled.unshared, tidy.labelled.chained, tidy.labelled.plain⟩,
    tidy.sized, tidy.measured⟩

theorem Tidied.refl (tidy : c.Tidy) (knows : c.Knows id) : c.Tidied c id :=
  ⟨tidy, .refl knows, rfl⟩

theorem Tidied.trans (first : c.Tidied c' id) (second : c'.Tidied c'' id) : c.Tidied c'' id :=
  ⟨second.tidy, first.replaced.trans second.replaced, second.origin.trans first.origin⟩

theorem Tidy.replaced (tidy : c.Tidy) (replaced : c.Replaced c' id q) (tallied : c'.Tallied)
    (labelled : c'.Labelled) (origin : q.origin = (c.sequence id).origin)
    (measured : q.computed ≤ q.length) : c.Tidied c' id := by
  refine ⟨⟨tallied, labelled, fun other knows => ?_, fun other knows => ?_⟩, replaced.self.symm ▸ replaced,
    replaced.self ▸ origin⟩
  all_goals
    have knows' := (replaced.knows_iff other).mp knows
    by_cases same : other = id
  · rw [same, replaced.self, replaced.blockSize, ← tidy.sized id replaced.knows]
    exact congrArg Origin.blockSize origin
  · rw [replaced.others other same, replaced.blockSize]
    exact tidy.sized other knows'
  · rwa [same, replaced.self]
  · rw [replaced.others other same]
    exact tidy.measured other knows'

theorem Tidy.edited (tidy : c.Tidy) (knows : c.Knows id) {f : Sequence → Sequence}
    (alike : Alike (c.sequence id) (f (c.sequence id)))
    (measured : (f (c.sequence id)).computed ≤ (f (c.sequence id)).length) :
    c.Tidied { c with sequences := c.sequences.update id f } id := by
  have noted := noted_edit knows alike
  exact tidy.replaced noted.replaced (tidy.tallied.edited knows alike.table)
    (noted.labelled tidy.labelled tidy.tallied.device) (Sequence.origin_of_account alike.account) measured

/-- A token is added, or nothing happens. -/
theorem append_tidies (tidy : c.Tidy) (knows : c.Knows id) (token : Int) :
    (append id token).Yields c
      (fun _ c' => c.Tidied c' id ∧ (c'.sequence id).table = (c.sequence id).table)
      fun _ c' => c' = c := by
  simp only [append, look, edit, Action.yields_bind, Action.yields_get, Action.yields_pure,
    Action.yields_ofExcept, Action.yields_modify, implies_true, and_true]
  intro q appended
  have completion : q = { c.sequence id with completion := (c.sequence id).completion ++ [token] } := by
    unfold Sequence.append at appended
    split at appended
    · cases appended
    · split at appended
      · cases appended
      · exact (Except.ok.inj appended).symm
  subst completion
  have longer : c.Appended _ id token := ⟨replaced_edit knows fun _ =>
    { c.sequence id with completion := (c.sequence id).completion ++ [token] }, rfl, rfl, rfl⟩
  refine ⟨tidy.replaced longer.replaced (tidy.tallied.edited knows rfl)
    (longer.labelled tidy.labelled tidy.tallied.device) rfl ?_, longer.tables id⟩
  refine (tidy.measured id knows).trans ?_
  simp only [Sequence.length, List.length_append, Int.ofNat_le]
  omega

/-- A sequence is constructed, or nothing happens. -/
theorem create_tidies (tidy : c.Tidy) (d : Draft) :
    (create? d).Yields c
      (fun id c' => ∃ q, c.Created c' id q ∧ (q.blockSize = c.blockSize → c'.Tidy)) fun _ c' => c' = c := by
  by_cases prompt : d.prompt = []
  · simp [create?, Store.create, prompt]
  by_cases size : d.blockSize ≤ 0
  · simp [create?, Store.create, prompt, size]
  refine ((create_returns prompt (Int.not_le.mp size)).run.weaken ?_).yields
  rintro new c' ⟨run, q, created, -, bare, -, -, -, -, computed, -⟩
  refine ⟨q, created, fun sized => ⟨(create_counts tidy.tallied d).of_ok run,
    created.labelled tidy.labelled tidy.tallied.device bare, fun other knows => ?_, fun other knows => ?_⟩⟩
  · rw [created.blockSize]
    rcases (created.knows_iff other).mp knows with old | rfl
    · rw [created.others other old]
      exact tidy.sized other old
    · rw [created.self, sized]
  · rcases (created.knows_iff other).mp knows with old | rfl
    · rw [created.others other old]
      exact tidy.measured other old
    · rw [created.self, computed]
      exact Int.natCast_nonneg _

/-- The first `k` blocks of the sequence `id` of `c` are covered in `c'`. -/
structure Spans (c c' : Cache) (id : SeqId) (k : Nat) (chain : Chain) : Prop where
  tends : Tends id c'
  labelled : c'.Labelled
  replaced : c.Replaced c' id { c.sequence id with table := (c'.sequence id).table }
  length : (c'.sequence id).table.length = k
  hash : k * c.blockSize ≤ (c.sequence id).length →
    chain.hash = chainHash c.blockSize (c.sequence id).tokens k

namespace Spans

variable (spans : c.Spans c' id k chain)
include spans

theorem tidied (tidy : c.Tidy) : c.Tidied c' id :=
  tidy.replaced spans.replaced spans.tends.1 spans.labelled rfl (tidy.measured id spans.replaced.knows)

theorem block (sized : (c.sequence id).blockSize = c.blockSize) (inside : k < (c.sequence id).blockCount) :
    (c'.sequence id).block k = .ok (blockOf c.blockSize (c.sequence id).tokens k) := by
  rw [spans.replaced.self, ← sized]
  exact Sequence.block_eq inside

variable (hashed : c'.NextHash chain (blockOf c.blockSize (c.sequence id).tokens k) hash)
include hashed

theorem hash_eq (full : (k + 1) * c.blockSize ≤ (c.sequence id).length) :
    hash = chainHash c.blockSize (c.sequence id).tokens (k + 1) := by
  have before : k * c.blockSize ≤ (c.sequence id).length :=
    (Nat.mul_le_mul_right _ (Nat.le_succ k)).trans full
  have whole := (length_blockOf_eq_iff c.blockSize_pos).mpr ((Sequence.length_tokens _).symm ▸ full)
  rw [NextHash, spans.replaced.blockSize, if_pos whole, spans.hash before] at hashed
  exact eq_chainHash hashed

theorem full_of_real (real : hash ≠ noHash) : (k + 1) * c.blockSize ≤ (c.sequence id).length := by
  by_contra short
  rw [NextHash, spans.replaced.blockSize, if_neg] at hashed
  · exact real hashed
  · rwa [length_blockOf_eq_iff c.blockSize_pos, Sequence.length_tokens]

theorem next (covers : c'.Covers c'' id chain chain' hash
    (blockOf c.blockSize (c.sequence id).tokens k) b) : c.Spans c'' id (k + 1) chain' := by
  have table : (c''.sequence id).table = (c'.sequence id).table ++ [b] := by rw [covers.replaced.self]
  have length : (c'.sequence id).length = (c.sequence id).length := by
    rw [spans.replaced.self]
    rfl
  have tokens : (c'.sequence id).tokens = (c.sequence id).tokens := by
    rw [spans.replaced.self]
    rfl
  constructor
  case tends => exact covers.tends
  case labelled =>
    cases served : c'.served? chain hash (blockOf c.blockSize (c.sequence id).tokens k) with
    | none =>
        obtain ⟨free, renewed⟩ := (covers.miss served).1
        refine spans.labelled.extended spans.tends.2.2 covers.swapped covers.replaced
          spans.tends.1.device renewed (fun b' member => ?_) (List.nodup_singleton b)
        rw [free, List.mem_singleton.mp member]
        exact List.mem_cons_self
    | some b' =>
        obtain ⟨rfl, kept, -⟩ := covers.hit b' served
        obtain ⟨-, real, found⟩ := registered_of_served served
        obtain ⟨has, label, -⟩ := spans.labelled.coherent _ _ found
        have full := spans.full_of_real hashed real
        refine spans.labelled.joined spans.tends.2.2 covers.swapped covers.replaced spans.tends.1.device
          rfl kept.recounted.agrees has (label ▸ real) ?_ ?_
        · rwa [spans.length, spans.replaced.blockSize, length]
        · rw [spans.length, spans.replaced.blockSize, tokens, label]
          exact spans.hash_eq hashed full
  case replaced =>
    have both := spans.replaced.trans covers.replaced
    rw [spans.replaced.self] at both
    rwa [table]
  case length => rw [table, List.length_append, spans.length, List.length_singleton]
  case hash =>
    intro full
    have chained : chain'.hash = hash := by
      cases served : c'.served? chain hash (blockOf c.blockSize (c.sequence id).tokens k) with
      | none => rw [(covers.miss served).2]
      | some b' => rw [(covers.hit b' served).2.2]
    rw [chained]
    exact spans.hash_eq hashed full

omit hashed in
theorem round (sized : (c.sequence id).blockSize = c.blockSize) (inside : k < (c.sequence id).blockCount) :
    (coverBlock id chain k).Yields c' (fun chain' c'' => c.Spans c'' id (k + 1) chain' ∧
      ∃ hash b, c'.NextHash chain (blockOf c.blockSize (c.sequence id).tokens k) hash ∧
        c'.Covers c'' id chain chain' hash (blockOf c.blockSize (c.sequence id).tokens k) b)
      fun _ c'' => c'' = c' := by
  refine (coverBlock_yields spans.tends chain k).weaken ?_ fun _ _ same => same
  rintro chain' c'' ⟨tokens, hash, b, block, hashed, covers⟩
  obtain rfl := Except.ok.inj ((spans.block sized inside).symm.trans block)
  exact ⟨spans.next hashed covers, hash, b, hashed, covers⟩

end Spans

theorem allocateShared_tidies (tidy : c.Tidy) (tends : Tends id c) (bare : (c.sequence id).table = []) :
    (allocateShared id).Yields c (fun _ c' => c.Tidied c' id ∧ (c'.sequence id).table ≠ [])
      fun _ c' => c.Tidied c' id := by
  have knows := tends.2.1
  have start : c.Spans c id 0 {} :=
    ⟨tends, tidy.labelled, .refl knows, by rw [bare, List.length_nil], fun _ => rfl⟩
  simp only [allocateShared, look, edit, Action.yields_bind, Action.yields_get, Action.yields_pure,
    Action.yields_modify]
  refine (Action.yields_foldlM_range (fun k chain c' => c.Spans c' id k chain) start ?_).weaken ?_
    fun _ _ holds => holds
  · intro k chain c' inside spans
    refine (spans.round (tidy.sized id knows) inside).weaken (fun _ _ => And.left) ?_
    rintro _ _ rfl
    exact spans.tidied tidy
  · intro chain c' spans
    have tidied := spans.tidied tidy
    have known := (spans.replaced.knows_iff id).mpr knows
    have edited := tidied.tidy.edited known (f := fun s =>
      { s with cached := chain.found, computed := min chain.found (s.length - 1) }) ⟨rfl, rfl⟩
      ((min_le_right _ _).trans (Int.sub_le_self _ Int.one_nonneg))
    refine ⟨tidied.trans edited, ?_⟩
    rw [(replaced_edit known _).self]
    refine List.ne_nil_of_length_pos ?_
    rw [spans.length]
    exact Sequence.blockCount_pos _

theorem allocateFresh_tidies (tidy : c.Tidy) (tends : Tends id c) :
    (allocateFresh id).Yields c (fun _ c' => c.Tidied c' id ∧ (c'.sequence id).table ≠ [])
      fun _ c' => c' = c := by
  have pool := tidy.tallied.device
  simp only [allocateFresh, look, edit, onDevice, Action.yields_bind, Action.yields_get,
    Action.yields_pure, Action.yields_modify, Action.yields_within]
  by_cases enough : (c.sequence id).blockCount ≤ c.device.freeCount
  · refine ((Pool.allocate_returns pool (Int.natCast_nonneg _) (Int.ofNat_le.mpr enough)).weaken ?_).yields
    rintro ids p ⟨taken, balanced, renewed, -⟩
    have replaced := replaced_with tends.2.1 p c.host c.swapped fun s =>
      { s with table := s.table ++ ids, cached := 0, computed := 0 }
    have extended := tends.extended balanced (tidy.tallied.findable.of_renewed renewed)
      (f := fun s => { s with table := s.table ++ ids, cached := 0, computed := 0 }) rfl
    refine ⟨tidy.replaced replaced extended.1 ?_ rfl (Int.natCast_nonneg _), ?_⟩
    · exact tidy.labelled.extended tends.2.2 rfl replaced pool renewed
        (fun b member => List.mem_of_mem_take (taken ▸ member)) (taken ▸ pool.free_nodup.take)
    · rw [replaced.self]
      refine List.ne_nil_of_length_pos ?_
      have few : (c.sequence id).blockCount ≤ c.device.free.length := enough
      have some := Sequence.blockCount_pos (c.sequence id)
      simp only [List.length_append, taken, Int.toNat_natCast, List.length_take]
      omega
  · obtain ⟨fault, _, run, rfl⟩ := Pool.allocate_refuses (p := c.device)
      (n := ((c.sequence id).blockCount : Int)) (by omega)
    simp [Action.Yields, run]

theorem allocate_tidies (tidy : c.Tidy) (knows : c.Knows id) :
    (allocate id).Yields c (fun _ c' => c.Tidied c' id ∧ (c'.sequence id).table ≠ [])
      fun _ c' => c.Tidied c' id := by
  have same := Tidied.refl tidy knows
  simp only [allocate, Action.yields_bind, Action.yields_get, Action.yields_require]
  refine ⟨fun bare => ⟨fun _ => ?_, fun _ => same⟩, fun _ => same⟩
  have bare := List.isEmpty_iff.mp bare
  have tends := tidy.tallied.tends_of_bare knows bare
  split
  · exact allocateShared_tidies tidy tends bare
  · refine (allocateFresh_tidies tidy tends).weaken (fun _ _ holds => holds) ?_
    rintro _ _ rfl
    exact same

/-- A table grows by new blocks, or nothing happens. -/
theorem grow_tidies (tidy : c.Tidy) (knows : c.Knows id) (count : Int) :
    (grow id count).Yields c
      (fun _ c' => c.Tidied c' id ∧ ((c.sequence id).table ≠ [] → (c'.sequence id).table ≠ []))
      fun _ c' => c' = c := by
  have alone := needsCopy_eq_false tidy.labelled tidy.tallied.device id
  refine (grow_guarded tidy.tallied knows count).yields fun ⟨away, enough⟩ => ?_
  refine (grow_exchanges ⟨tidy.tallied, knows, away⟩ enough).weaken ?_
  rintro copy c' ⟨kept, taken, exchanged, -, -, renewed⟩
  have nothing : c.copied id = [] := by simp [copied, alone]
  have table : (c.sequence id).table = kept := by simpa [nothing] using exchanged.before
  have replaced := exchanged.replaced
  rw [← table] at replaced
  refine ⟨tidy.replaced replaced exchanged.tends'.1 ?_ rfl (tidy.measured id knows), fun filled => ?_⟩
  · refine tidy.labelled.extended away exchanged.swapped replaced tidy.tallied.device (renewed alone)
      (fun b member => ?_) exchanged.taken_nodup
    rw [exchanged.free]
    exact List.mem_append_left _ member
  · rw [replaced.self]
    exact List.append_ne_nil_of_left_ne_nil filled taken

theorem swapOut_tidies (tidy : c.Tidy) (knows : c.Knows id) (filled : (c.sequence id).table ≠ []) :
    (swapOut id).Yields c (fun _ c' => c.Tidied c' id) fun _ c' => c' = c := by
  refine (swapOut_guarded tidy.tallied knows).yields fun ⟨away, room⟩ => ?_
  refine (swapOut_moves knows tidy.tallied.device tidy.tallied.host away room).run.weaken ?_
  rintro moves c' ⟨run, blocks, out, -, agrees, -⟩
  exact tidy.replaced out.replaced ((swapOut_counts tidy.tallied knows filled).of_ok run)
    (out.labelled tidy.labelled tidy.tallied.device agrees) rfl (tidy.measured id knows)

theorem swapIn_tidies (tidy : c.Tidy) (knows : c.Knows id) :
    (swapIn id).Yields c (fun _ c' => c.Tidied c' id ∧ (c'.sequence id).table ≠ [])
      fun _ c' => c' = c := by
  refine (swapIn_guarded tidy.tallied knows).yields fun ⟨swapped, room⟩ => ?_
  have member : id ∈ c.swapped := by simpa [isSwapped] using swapped
  have hosted := tidy.tallied.shelved.host id member
  refine (swapIn_moves knows tidy.tallied.device tidy.tallied.host swapped hosted room).run.weaken ?_
  rintro moves c' ⟨run, blocks, back, -⟩
  refine ⟨tidy.replaced back.replaced ((swapIn_counts tidy.tallied knows).of_ok run)
    (back.labelled tidy.labelled tidy.tallied.shelved.nodup tidy.tallied.device) rfl
    (tidy.measured id knows), ?_⟩
  rw [back.replaced.self]
  refine List.ne_nil_of_length_pos ?_
  rw [back.length]
  exact List.length_pos_of_ne_nil (tidy.tallied.shelved.filled id member)

/-- The block `b` carries `hash` in `c'`: it did in `c`, or it carried no label there and was registered
    with `tokens`. -/
inductive Posted (c c' : Cache) (b hash : Int) (tokens : List Int) : Prop where
  | before (label : (c.device.entry b).hash = hash) (same : c' = c)
  | now {p : Pool} (plain : (c.device.entry b).hash = noHash) (result : c' = { c with device := p })
      (registered : c.device.Registered p b hash)
      (inscribed : ∀ b', 0 ≤ b' →
        (p.entry b').tokens = if b' = b then tokens else (c.device.entry b').tokens)

/-- The first `k` blocks of a sequence of `c` were published in `c'`. -/
structure Publicizes (c c' : Cache) (id : SeqId) (k : Nat) (hash : Int) : Prop where
  relabelled : c.Relabelled c'
  tends : Tends id c'
  labelled : c'.Labelled
  hash : hash = chainHash c.blockSize (c.sequence id).tokens k

namespace Publicizes

theorem tidied (publicizes : c.Publicizes c' id k hash) (tidy : c.Tidy) (knows : c.Knows id) :
    c.Tidied c' id :=
  tidy.replaced (publicizes.relabelled.replaced knows) publicizes.tends.1 publicizes.labelled rfl
    (tidy.measured id knows)

/-- One more block is published, or nothing happens, because it cannot be hashed. -/
theorem round (publicizes : c.Publicizes c' id k hash) (sharing : c.sharing = true)
    (sized : (c.sequence id).blockSize = c.blockSize)
    (inside : (k + 1) * c.blockSize ≤ (c.sequence id).length)
    (covered : k < (c.sequence id).table.length) :
    (publishBlock id hash k).Yields c' (fun hash' c'' => c.Publicizes c'' id (k + 1) hash' ∧
      ∃ b, (c.sequence id).table[k]? = some b ∧
        c'.Posted c'' b hash' (blockOf c.blockSize (c.sequence id).tokens k))
      fun _ c'' => c'' = c' ∧ ∀ hash', blockHash (chainHash c.blockSize (c.sequence id).tokens k)
        (blockOf c.blockSize (c.sequence id).tokens k) ≠ .ok hash' := by
  obtain ⟨relabelled, tends, labelled, rfl⟩ := publicizes
  have same := relabelled.sequence id
  obtain ⟨b, found⟩ : ∃ b, (c.sequence id).table[k]? = some b :=
    ⟨_, List.getElem?_eq_getElem covered⟩
  have place : (c'.deviceTable id)[k]? = some b := by rw [deviceTable_of_device tends.2.2, same, found]
  have has := has_of_mem tends.1.device (List.mem_of_getElem? place)
  have resolved : Offset.resolve c'.device.size b = some b.toNat := Pool.resolve_of_has has
  simp only [publishBlock, look, Action.yields_bind, Action.yields_get, Action.yields_pure,
    Action.yields_ofExcept, Action.yields_demand, same, found, Pool.block?_of_has has, resolved,
    Sequence.block_eq (Sequence.lt_blockCount (sized ▸ inside)), Option.some.injEq, Except.ok.injEq,
    forall_eq', reduceCtorEq, false_implies, implies_true, and_true, true_and,
    Int.toNat_of_nonneg has.1, sized]
  refine ⟨?_, fun fault failed hash' hashed => by cases failed.symm.trans hashed⟩
  intro hash' hashed
  -- from here on the hash is known, and no action can fail
  obtain rfl := eq_chainHash hashed
  split
  · rename_i other
    have plain : (c'.device.entry b).hash = noHash := by
      by_contra real
      have label := (labelled.chained id k b place real).2
      rw [relabelled.blockSize, same] at label
      exact other label
    refine Action.Returns.yields ?_
    simp only [Action.returns_bind, returns_onDevice, Action.returns_pure]
    refine (Pool.register_inscribes has).weaken ?_
    rintro _ p ⟨registered, inscribed⟩
    refine ⟨⟨⟨relabelled.sequences, relabelled.blockSize, relabelled.sharing, relabelled.swapped,
        relabelled.host, registered.size.trans relabelled.size⟩, ?_, ?_, rfl⟩,
      b, rfl, .now plain rfl registered inscribed⟩
    · exact tends.relabelled (registered.balanced tends.1.device)
        (tends.1.findable.of_registered registered has)
    · refine labelled.registered tends.1.device (relabelled.sharing.trans sharing) place plain ?_ ?_
      · rwa [relabelled.blockSize, same]
      · rwa [relabelled.blockSize, same]
  · rename_i label
    exact ⟨⟨relabelled, tends, labelled, rfl⟩, b, rfl, .before (not_not.mp label) rfl⟩

end Publicizes

theorem Tidy.publishable_inside (tidy : c.Tidy) (knows : c.Knows id) (before : k < c.publishable id) :
    (k + 1) * c.blockSize ≤ (c.sequence id).length ∧ k < (c.sequence id).table.length := by
  have positive : (0 : Int) < c.blockSize := Int.ofNat_lt.mpr c.blockSize_pos
  simp only [publishable, Int.lt_toNat, lt_min_iff, Int.ofNat_lt] at before
  have done : ((k + 1 : Nat) * c.blockSize : Int) ≤ (c.sequence id).computed :=
    Int.mul_le_of_le_ediv positive (by omega)
  exact ⟨by exact_mod_cast done.trans (tidy.measured id knows), before.2⟩

theorem publish_tidies (tidy : c.Tidy) (knows : c.Knows id) : (publish id).Yields c
    (fun _ c' => c.Tidied c' id ∧ c.Relabelled c') fun _ c' => c.Tidied c' id ∧ c.Relabelled c' := by
  simp only [publish, Action.yields_bind, Action.yields_get]
  split
  · rename_i on
    obtain ⟨sharing, away⟩ := Bool.and_eq_true_iff.mp on
    have start : c.Publicizes c id 0 noHash :=
      ⟨.refl c, ⟨tidy.tallied, knows, by simpa using away⟩, tidy.labelled, rfl⟩
    refine Action.yields_map.mpr <| (Action.yields_foldlM_range
      (fun k hash c' => c.Publicizes c' id k hash) start ?_).weaken ?_ fun _ _ holds => holds
    · intro k hash c' before publicizes
      obtain ⟨inside, covered⟩ := tidy.publishable_inside knows before
      refine (publicizes.round sharing (tidy.sized id knows) inside covered).weaken
        (fun _ _ => And.left) ?_
      rintro _ _ ⟨rfl, -⟩
      exact ⟨publicizes.tidied tidy knows, publicizes.relabelled⟩
    · exact fun _ c' publicizes => ⟨publicizes.tidied tidy knows, publicizes.relabelled⟩
  · exact ⟨.refl tidy knows, .refl c⟩

/-- The blocks of a sequence are given back, unless publishing them meets a fault. -/
theorem release_tidies (tidy : c.Tidy) (knows : c.Knows id) :
    (release id).Yields c (fun _ c' => c.Tidied c' id ∧ (c'.sequence id).table = [])
      fun _ c' => c.Tidied c' id := by
  have emptied : ∀ {c₁ c' : Cache}, c.Tidied c₁ id → c₁.Replaced c' id
      { c₁.sequence id with cached := 0, table := [] } → c'.swapped = c₁.swapped.erase id →
      c₁.device.Agrees c'.device → c'.Tallied → c.Tidied c' id ∧ (c'.sequence id).table = [] := by
    intro c₁ c' tidied replaced swapped agrees tallied
    have labelled := tidied.tidy.labelled.emptied tidied.tidy.tallied.device replaced rfl swapped agrees
    refine ⟨tidied.trans (tidied.tidy.replaced replaced tallied labelled rfl ?_), by rw [replaced.self]⟩
    exact tidied.tidy.measured id replaced.knows
  have counts := release_counts tidy.tallied knows
  refine (Action.Yields.and counts (?_ : Action.Yields (release id) c (fun _ c' => c'.Tallied →
    c.Tidied c' id ∧ (c'.sequence id).table = []) fun _ c' => c.Tidied c' id)).weaken
      (fun _ _ both => both.2 both.1) fun _ _ => And.right
  simp only [release, Action.yields_bind, Action.yields_get]
  split
  · rename_i swapped
    have member : id ∈ c.swapped := by simpa [isSwapped] using swapped
    obtain ⟨p, host⟩ := Option.isSome_iff_exists.mp (tidy.tallied.shelved.host id member)
    refine Action.Returns.yields ?_
    simp only [Action.returns_bind, returns_onHost host, Action.returns_modify, returns_edit]
    refine ((tidy.tallied.host p host).release fun b => ?_).weaken ?_
    · rw [List.count_reverse]
      exact count_table_le_hostHolders knows swapped b
    · rintro _ p' -
      exact emptied (.refl tidy knows) (replaced_with knows c.device (some p') (c.swapped.erase id)
        fun s => { s with cached := 0, table := [] }) rfl (.refl _)
  · rename_i away
    rw [Action.yields_bind]
    refine (publish_tidies tidy knows).weaken ?_ fun _ _ => And.left
    rintro _ c₁ ⟨tidied, relabelled⟩
    have knows₁ := (tidied.replaced.knows_iff id).mpr knows
    have away₁ : c₁.isSwapped id = false :=
      (isSwapped_congr relabelled.swapped id).trans (Bool.eq_false_iff.mpr away)
    refine Action.Returns.yields ?_
    simp only [Action.returns_bind, returns_look, returns_onDevice, returns_edit]
    refine (tidied.tidy.tallied.device.release fun b => ?_).weaken ?_
    · rw [List.count_reverse]
      exact count_table_le_deviceHolders knows₁ away₁ b
    · rintro _ p ⟨-, agrees⟩
      refine emptied tidied (replaced_with knows₁ p c₁.host c₁.swapped
        fun s => { s with cached := 0, table := [] }) (List.erase_of_not_mem ?_).symm agrees
      simpa [isSwapped] using away₁

/-- Something was done, and the cache is tidy. Who had blocks still has some, apart from those in
    `except`. -/
structure Attended (c c' : Cache) (except : List SeqId) : Prop where
  tidy : c'.Tidy
  count : c'.sequences.nextId = c.sequences.nextId
  origin : ∀ x, (c'.sequence x).origin = (c.sequence x).origin
  filled : ∀ x, x ∉ except → (c.sequence x).table ≠ [] → (c'.sequence x).table ≠ []
  blockSize : c'.blockSize = c.blockSize
  sharing : c'.sharing = c.sharing

namespace Attended

theorem refl (tidy : c.Tidy) (except : List SeqId) : c.Attended c except :=
  ⟨tidy, rfl, fun _ => rfl, fun _ _ filled => filled, rfl, rfl⟩

theorem trans {except : List SeqId} (first : c.Attended c' except) (second : c'.Attended c'' except) :
    c.Attended c'' except where
  tidy := second.tidy
  count := second.count.trans first.count
  origin x := (second.origin x).trans (first.origin x)
  filled x other filled := second.filled x other (first.filled x other filled)
  blockSize := second.blockSize.trans first.blockSize
  sharing := second.sharing.trans first.sharing

theorem reported {except : List SeqId} (attended : c.Attended c' except) (journal : Logging.Journal) :
    c.Attended { c' with journal } except :=
  ⟨attended.tidy.journal journal, attended.count, attended.origin, attended.filled, attended.blockSize,
    attended.sharing⟩

theorem knows_iff {except : List SeqId} (attended : c.Attended c' except) (x : SeqId) :
    c'.Knows x ↔ c.Knows x := by
  simp only [Knows, attended.count]

end Attended

theorem Tidied.attended {except : List SeqId} (tidied : c.Tidied c' id)
    (filled : id ∉ except → (c.sequence id).table ≠ [] → (c'.sequence id).table ≠ []) :
    c.Attended c' except where
  tidy := tidied.tidy
  count := tidied.replaced.count
  origin x := by
    by_cases same : x = id
    · rw [same, tidied.origin]
    · rw [tidied.replaced.others x same]
  filled x other before := by
    by_cases same : x = id
    · subst same
      exact filled other before
    · rwa [tidied.replaced.others x same]
  blockSize := tidied.replaced.blockSize
  sharing := tidied.replaced.sharing

theorem Tidied.attended_except (tidied : c.Tidied c' id) : c.Attended c' [id] :=
  tidied.attended fun other => absurd List.mem_cons_self other

end Cache

end PagedServing
